-- The packed access words of the basic blocks: 27 bits of accesses under the
-- round trips. Within the limits that the 32 bits leave, the words are two
-- counters that do not touch each other.
import GpgpuSimUvm.TreeShape
import Mathlib.Tactic.Ring

namespace gpgpu_sim_uvm

/-! ## One word -/

namespace access_word

open LpTree

/-- The accesses that a word counts. -/
def accesses (w : BitVec 32) : Nat := w.toNat % 2 ^ 27

/-- The round trips that a word counts. -/
def trips (w : BitVec 32) : Nat := w.toNat / 2 ^ 27

theorem access_field (w : BitVec 32) : (w &&& ACCESS_MASK).toNat = accesses w := by
  have hmask : ACCESS_MASK.toNat = 2 ^ 27 - 1 := by decide
  rw [BitVec.toNat_and, hmask, Nat.and_two_pow_sub_one_eq_mod]
  rfl

theorem trip_field (w : BitVec 32) : ((w &&& TRIP_MASK) >>> 27).toNat = trips w := by
  have hmask : (TRIP_MASK >>> 27) = 2 ^ 5 - 1 := by decide
  rw [BitVec.ushiftRight_and_distrib, hmask, BitVec.toNat_and, BitVec.toNat_ushiftRight,
    Nat.shiftRight_eq_div_pow]
  have hlt := w.isLt
  have h5 : (2 ^ 5 - 1 : BitVec 32).toNat = 2 ^ 5 - 1 := by decide
  rw [h5, Nat.and_two_pow_sub_one_eq_mod, Nat.mod_eq_of_lt (by omega)]
  rfl

theorem trips_lt (w : BitVec 32) : trips w < 32 := by
  have hlt := w.isLt
  unfold trips
  omega

/-- The two fields put together keep their values. -/
theorem fields_pack {t a : BitVec 32} (ht : t.toNat < 32) (ha : a.toNat < 2 ^ 27) :
    accesses ((t <<< 27) ||| a) = a.toNat ∧ trips ((t <<< 27) ||| a) = t.toNat := by
  have hshift : (t <<< 27).toNat = t.toNat <<< 27 := by
    rw [BitVec.toNat_shiftLeft, Nat.shiftLeft_eq]
    exact Nat.mod_eq_of_lt (by omega)
  have hword : ((t <<< 27) ||| a).toNat = t.toNat * 2 ^ 27 + a.toNat := by
    rw [BitVec.toNat_or, hshift, ← Nat.shiftLeft_add_eq_or_of_lt ha, Nat.shiftLeft_eq]
  unfold accesses trips
  rw [hword]
  omega

theorem word_eq_mask (w : BitVec 32) :
    w = ACCESS_MASK ↔ accesses w = 2 ^ 27 - 1 ∧ trips w = 0 := by
  have hmask : ACCESS_MASK.toNat = 2 ^ 27 - 1 := by decide
  rw [← BitVec.toNat_inj, hmask]
  unfold accesses trips
  omega

theorem fields_count {w : BitVec 32} (h : accesses w < 2 ^ 27 - 1) :
    accesses (w + 1) = accesses w + 1 ∧ trips (w + 1) = trips w := by
  have hlt := w.isLt
  have hone : (1 : BitVec 32).toNat = 1 := by decide
  unfold accesses trips at *
  have hadd : (w + 1).toNat = w.toNat + 1 := by
    rw [BitVec.toNat_add, hone]
    exact Nat.mod_eq_of_lt (by omega)
  rw [hadd]
  omega

end access_word

/-! ## One basic block -/

namespace LpTree

open access_word

/-- The accesses of a basic block. -/
def LpData.accesses (d : LpData) : Nat := access_word.accesses d.access_counter

/-- The round trips of a basic block. -/
def LpData.trips (d : LpData) : Nat := access_word.trips d.access_counter

/-- What `traverse_and_reset_access_counter` does to a leaf. -/
def LpData.halveAccesses (d : LpData) : LpData :=
  { d with
    access_counter := (LpData.round_trip d <<< 27) ||| ((d.access_counter &&& ACCESS_MASK) >>> 1) }

theorem LpData.round_trip_toNat (d : LpData) : (LpData.round_trip d).toNat = LpData.trips d :=
  trip_field _

theorem LpData.countAccess_fields {d : LpData} (h : LpData.accesses d < 2 ^ 27 - 1) :
    LpData.accesses (LpData.countAccess d) = LpData.accesses d + 1 ∧
      LpData.trips (LpData.countAccess d) = LpData.trips d :=
  fields_count h

theorem LpData.halveAccesses_fields (d : LpData) :
    LpData.accesses (LpData.halveAccesses d) = LpData.accesses d / 2 ∧
      LpData.trips (LpData.halveAccesses d) = LpData.trips d := by
  have htrips := LpData.round_trip_toNat d
  have hhalf : ((d.access_counter &&& ACCESS_MASK) >>> 1).toNat = LpData.accesses d / 2 := by
    rw [BitVec.toNat_ushiftRight, access_field, Nat.shiftRight_eq_div_pow]
    rfl
  have hlt : LpData.accesses d < 2 ^ 27 := Nat.mod_lt _ (by decide)
  have hpack := fields_pack (t := LpData.round_trip d)
    (a := (d.access_counter &&& ACCESS_MASK) >>> 1) (by rw [htrips]; exact trips_lt _)
    (by rw [hhalf]; omega)
  rw [hhalf, htrips] at hpack
  exact hpack

theorem LpData.countTrip_fields {d : LpData} (h : LpData.trips d < 31) :
    LpData.accesses (LpData.countTrip d) = LpData.accesses d ∧
      LpData.trips (LpData.countTrip d) = LpData.trips d + 1 := by
  have htrips := LpData.round_trip_toNat d
  have hone : (1 : BitVec 32).toNat = 1 := by decide
  have hadd : (LpData.round_trip d + 1).toNat = LpData.trips d + 1 := by
    rw [BitVec.toNat_add, htrips, hone]
    exact Nat.mod_eq_of_lt (by omega)
  have hlow := access_field d.access_counter
  have hpack := fields_pack (t := LpData.round_trip d + 1) (a := d.access_counter &&& ACCESS_MASK)
    (by rw [hadd]; omega) (by rw [hlow]; exact Nat.mod_lt _ (by decide))
  rw [hadd, hlow] at hpack
  exact hpack

/-! ## The tiling of a tree -/

/-- The children of a node lie side by side in it, down to blocks of 64KB. -/
def Tiled : LpTree → Prop
  | leaf d => d.size = MIN_PREFETCH_SIZE
  | node d l r =>
    l.addr = d.addr ∧ r.addr = d.addr + l.size ∧ d.size = l.size + r.size ∧ l.Tiled ∧ r.Tiled

theorem tiled_buildLevels {k n : Nat} (h : k ≤ n) (a : Nat) :
    (buildLevels n a (MIN_PREFETCH_SIZE * 2 ^ k)).Tiled ∧
      (buildLevels n a (MIN_PREFETCH_SIZE * 2 ^ k)).addr = a ∧
      (buildLevels n a (MIN_PREFETCH_SIZE * 2 ^ k)).size = MIN_PREFETCH_SIZE * 2 ^ k := by
  induction n generalizing k a with
  | zero =>
    obtain rfl : k = 0 := by omega
    exact ⟨rfl, rfl, rfl⟩
  | succ n ih =>
    cases k with
    | zero => exact ⟨rfl, rfl, rfl⟩
    | succ k =>
      have hne : MIN_PREFETCH_SIZE * 2 ^ (k + 1) ≠ MIN_PREFETCH_SIZE := by
        have hpow := Nat.one_le_two_pow (n := k)
        simp only [MIN_PREFETCH_SIZE, pow_succ]
        omega
      have hhalf : MIN_PREFETCH_SIZE * 2 ^ (k + 1) / 2 = MIN_PREFETCH_SIZE * 2 ^ k := by
        simp only [MIN_PREFETCH_SIZE, pow_succ]
        omega
      obtain ⟨hlt, hla, hls⟩ := ih (Nat.le_of_succ_le_succ h) a
      obtain ⟨hrt, hra, hrs⟩ := ih (Nat.le_of_succ_le_succ h) (a + MIN_PREFETCH_SIZE * 2 ^ k)
      simp only [buildLevels, hne, if_false, hhalf]
      refine ⟨⟨hla, ?_, ?_, hlt, hrt⟩, rfl, rfl⟩
      · rw [hra, hls]
      · rw [hls, hrs, pow_succ]
        ring

/-- The trees of `build_lp_tree` are tiled. -/
theorem tiled_build_lp_tree (a k : Nat) :
    (build_lp_tree a (MIN_PREFETCH_SIZE * 2 ^ k)).Tiled := by
  have hk : k ≤ (MIN_PREFETCH_SIZE * 2 ^ k).log2 := by
    have hpos : MIN_PREFETCH_SIZE * 2 ^ k ≠ 0 := by
      have hpow := Nat.one_le_two_pow (n := k)
      simp only [MIN_PREFETCH_SIZE]
      omega
    rw [Nat.le_log2 hpos]
    exact Nat.le_mul_of_pos_left _ (by decide)
  exact (tiled_buildLevels hk a).1

theorem covers_iff (t : LpTree) (a : Nat) : t.covers a = true ↔ t.addr ≤ a ∧ a < t.addr + t.size := by
  simp [covers]

/-- What the left child does not cover is for the right one. -/
theorem Tiled.covers_right {d : LpData} {l r : LpTree} (h : (node d l r).Tiled) {a : Nat}
    (ha : (node d l r).covers a = true) (hl : ¬ l.covers a = true) : r.covers a = true := by
  obtain ⟨hla, hra, hs, _, _⟩ := h
  have haddr : (node d l r).addr = d.addr := rfl
  have hsize : (node d l r).size = d.size := rfl
  rw [covers_iff, haddr, hsize] at ha
  rw [covers_iff] at hl ⊢
  omega

/-- The basic block of an address lies in the tree and has the address. -/
theorem Tiled.block_bounds {t : LpTree} (h : t.Tiled) {a : Nat} (ha : t.covers a = true) :
    t.addr ≤ (t.basicBlock a).addr ∧
      (t.basicBlock a).addr + MIN_PREFETCH_SIZE ≤ t.addr + t.size ∧
      (t.basicBlock a).addr ≤ a ∧ a < (t.basicBlock a).addr + MIN_PREFETCH_SIZE := by
  induction t with
  | leaf d =>
    have hs : d.size = MIN_PREFETCH_SIZE := h
    rw [covers_iff] at ha
    simp only [addr, size, data, basicBlock, hs] at ha ⊢
    omega
  | node d l r ihl ihr =>
    have hright := h.covers_right ha
    obtain ⟨hla, hra, hs, hl, hr⟩ := h
    have haddr : (node d l r).addr = d.addr := rfl
    have hsize : (node d l r).size = d.size := rfl
    rw [haddr, hsize]
    by_cases hc : l.covers a = true
    · have h1 := ihl hl hc
      simp only [basicBlock, hc, if_true]
      omega
    · have h1 := ihr hr (hright hc)
      simp only [basicBlock, hc, Bool.false_eq_true, if_false]
      omega

/-- A change at the end of the path to `a` is a change of the block of `a`. -/
theorem Tiled.basicBlock_alterPath {t : LpTree} (h : t.Tiled) {f g : LpData → LpData}
    (hf : Stays f) (hg : Stays g) {a b : Nat} (ha : t.covers a = true) (hb : t.covers b = true) :
    (t.alterPath f g a).basicBlock b =
      if (t.basicBlock b).addr = (t.basicBlock a).addr then g (t.basicBlock b)
      else t.basicBlock b := by
  induction t with
  | leaf d => simp [alterPath, basicBlock]
  | node d l r ihl ihr =>
    have hra := h.covers_right ha
    have hrb := h.covers_right hb
    obtain ⟨hlad, hrad, hs, hl, hr⟩ := h
    by_cases hca : l.covers a = true
    · have hcov : (l.alterPath f g a).covers b = l.covers b :=
        covers_of_shape (shape_alterPath hf hg a l) b
      simp only [alterPath, basicBlock, hca, if_true, hcov]
      by_cases hcb : l.covers b = true
      · simp only [hcb, if_true]
        exact ihl hl hca hcb
      · -- the two blocks are on different sides
        have h1 := hl.block_bounds hca
        have h2 := hr.block_bounds (hrb hcb)
        have hpos : 0 < MIN_PREFETCH_SIZE := by decide
        simp only [hcb, Bool.false_eq_true, if_false]
        rw [if_neg (by omega)]
    · simp only [alterPath, basicBlock, hca, Bool.false_eq_true, if_false]
      by_cases hcb : l.covers b = true
      · have h1 := hl.block_bounds hcb
        have h2 := hr.block_bounds (hra hca)
        have hpos : 0 < MIN_PREFETCH_SIZE := by decide
        simp only [hcb, if_true]
        rw [if_neg (by omega)]
      · simp only [hcb, Bool.false_eq_true, if_false]
        exact ihr hr (hra hca) (hrb hcb)

theorem basicBlock_reset_access_counter (t : LpTree) (a : Nat) :
    t.traverse_and_reset_access_counter.basicBlock a = LpData.halveAccesses (t.basicBlock a) := by
  induction t with
  | leaf d => rfl
  | node d l r ihl ihr =>
    simp only [traverse_and_reset_access_counter, basicBlock,
      covers_of_shape (shape_reset_access_counter l) a]
    split
    · exact ihl
    · exact ihr

/-- The addresses of the leaves, one block behind the other. -/
theorem Tiled.leaves_addr {t : LpTree} (h : t.Tiled) :
    ∃ n, t.size = n * MIN_PREFETCH_SIZE ∧
      t.leaves.map LpData.addr = (List.range n).map (fun i => t.addr + i * MIN_PREFETCH_SIZE) := by
  induction t with
  | leaf d =>
    have hs : d.size = MIN_PREFETCH_SIZE := h
    exact ⟨1, by simpa [size, data] using hs, by simp [leaves, addr, data]⟩
  | node d l r ihl ihr =>
    obtain ⟨hla, hra, hs, hl, hr⟩ := h
    obtain ⟨n, hn, hln⟩ := ihl hl
    obtain ⟨m, hm, hrm⟩ := ihr hr
    refine ⟨n + m, ?_, ?_⟩
    · have hsize : (node d l r).size = d.size := rfl
      rw [hsize, hs, hn, hm, Nat.add_mul]
    · have haddr : (node d l r).addr = d.addr := rfl
      rw [leaves, List.map_append, hln, hrm, List.range_add, List.map_append, List.map_map, haddr,
        hla, hra, hn]
      congr 1
      apply List.map_congr_left
      intro i _
      simp only [Function.comp]
      ring

/-- A block is the block of its own address. -/
theorem Tiled.basicBlock_block {t : LpTree} (h : t.Tiled) {a : Nat} (ha : t.covers a = true) :
    t.covers (t.basicBlock a).addr = true ∧
      t.basicBlock (t.basicBlock a).addr = t.basicBlock a := by
  have hpos : 0 < MIN_PREFETCH_SIZE := by decide
  have hin : ∀ {u : LpTree}, u.Tiled → u.covers a = true →
      u.covers (u.basicBlock a).addr = true := by
    intro u hu hua
    have hb := hu.block_bounds hua
    rw [covers_iff]
    omega
  refine ⟨hin h ha, ?_⟩
  induction t with
  | leaf d => rfl
  | node d l r ihl ihr =>
    have hright := h.covers_right ha
    obtain ⟨hla, hra, hs, hl, hr⟩ := h
    by_cases hc : l.covers a = true
    · have hself := hin hl hc
      simp only [basicBlock, hc, if_true, hself]
      exact ihl hl hc
    · have hb := hr.block_bounds (hright hc)
      have hout : ¬ l.covers (r.basicBlock a).addr = true := by
        rw [covers_iff]
        omega
      simp only [basicBlock, hc, Bool.false_eq_true, if_false, hout]
      exact ihr hr (hright hc)

theorem basicBlock_mem_leaves (t : LpTree) (a : Nat) : t.basicBlock a ∈ t.leaves := by
  induction t with
  | leaf d => simp [basicBlock, leaves]
  | node d l r ihl ihr =>
    simp only [basicBlock, leaves, List.mem_append]
    split
    · exact Or.inl ihl
    · exact Or.inr ihr

theorem tiled_of_shape {t u : LpTree} (h : t.shape = u.shape) (ht : t.Tiled) : u.Tiled := by
  induction t generalizing u with
  | leaf d =>
    cases u with
    | leaf e =>
      simp only [shape, leaf.injEq, LpData.mk.injEq] at h
      have hs : d.size = MIN_PREFETCH_SIZE := ht
      exact h.2.1.symm.trans hs
    | node e l r => cases h
  | node d l r ihl ihr =>
    cases u with
    | leaf e => cases h
    | node e l' r' =>
      obtain ⟨hl, hr, hs, htl, htr⟩ := ht
      simp only [shape, node.injEq, LpData.mk.injEq] at h
      obtain ⟨⟨hd, hds, _⟩, hsl, hsr⟩ := h
      refine ⟨?_, ?_, ?_, ihl hsl htl, ihr hsr htr⟩
      · rw [← addr_of_shape hsl, ← hd, hl]
      · rw [← addr_of_shape hsr, ← size_of_shape hsl, ← hd, hr]
      · rw [← hds, ← size_of_shape hsl, ← size_of_shape hsr, hs]

end LpTree

/-! ## The blocks of all trees -/

namespace Forest

open LpTree

/-- Trees of side-by-side blocks that share no address. -/
structure Laid (ts : Forest) : Prop where
  tiled : ∀ t ∈ ts, t.Tiled
  apart : ts.Pairwise (fun t u => t.addr + t.size ≤ u.addr ∨ u.addr + u.size ≤ t.addr)

/-- A tree has the address. -/
def covers (ts : Forest) (a : Nat) : Prop := ∃ t ∈ ts, t.covers a = true

theorem Laid.tail {t : LpTree} {ts : Forest} (h : Laid (t :: ts)) : Laid ts :=
  ⟨fun u hu => h.tiled u (List.mem_cons_of_mem _ hu), (List.pairwise_cons.mp h.apart).2⟩

theorem Laid.head {t : LpTree} {ts : Forest} (h : Laid (t :: ts)) {u : LpTree} (hu : u ∈ ts)
    {a : Nat} (ha : u.covers a = true) : ¬ t.covers a = true := by
  have hapart := (List.pairwise_cons.mp h.apart).1 u hu
  rw [covers_iff] at ha ⊢
  omega

/-- The tree of an address is the one that has it. -/
theorem Laid.get_lp_node {ts : Forest} (h : Laid ts) {t : LpTree} (ht : t ∈ ts) {a : Nat}
    (ha : t.covers a = true) : get_lp_node ts a = some t := by
  induction ts with
  | nil => simp at ht
  | cons u us ih =>
    rcases List.mem_cons.mp ht with rfl | ht
    · simp [Forest.get_lp_node, ha]
    · have hu := h.head ht ha
      have htail := ih h.tail ht
      simp only [Forest.get_lp_node] at htail
      simp [Forest.get_lp_node, hu, htail]

theorem Laid.leafOf {ts : Forest} (h : Laid ts) {t : LpTree} (ht : t ∈ ts) {a : Nat}
    (ha : t.covers a = true) : leafOf ts a = t.basicBlock a := by
  simp [Forest.leafOf, h.get_lp_node ht ha]

theorem laid_of_shapes {ts us : Forest} (h : shapes ts = shapes us) (ht : Laid ts) : Laid us := by
  induction ts generalizing us with
  | nil =>
    cases us with
    | nil => exact ht
    | cons u us => cases h
  | cons t ts ih =>
    cases us with
    | nil => cases h
    | cons u us =>
      simp only [shapes, List.map_cons, List.cons.injEq] at h
      have htail := ih h.2 ht.tail
      refine ⟨?_, List.pairwise_cons.mpr ⟨?_, htail.apart⟩⟩
      · intro x hx
        rcases List.mem_cons.mp hx with rfl | hx
        · exact tiled_of_shape h.1 (ht.tiled t List.mem_cons_self)
        · exact htail.tiled x hx
      · intro x hx
        have hshape : x.shape ∈ ts.map LpTree.shape := by
          rw [h.2]
          exact List.mem_map_of_mem hx
        obtain ⟨y, hy, hyx⟩ := List.mem_map.mp hshape
        have hapart := (List.pairwise_cons.mp ht.apart).1 y hy
        rwa [addr_of_shape h.1, size_of_shape h.1, addr_of_shape hyx, size_of_shape hyx] at hapart

theorem covers_of_shapes {ts us : Forest} (h : shapes ts = shapes us) {a : Nat}
    (ha : covers ts a) : covers us a := by
  obtain ⟨t, ht, hta⟩ := ha
  have hshape : t.shape ∈ us.map LpTree.shape := by
    have hin : t.shape ∈ shapes ts := List.mem_map_of_mem ht
    rwa [h] at hin
  obtain ⟨u, hu, hut⟩ := List.mem_map.mp hshape
  exact ⟨u, hu, by rwa [LpTree.covers_of_shape hut]⟩

theorem Laid.modifyTree_eq_map {ts : Forest} (h : Laid ts) (f : LpTree → LpTree) (a : Nat) :
    modifyTree f a ts = ts.map (fun t => if t.covers a then f t else t) := by
  induction ts with
  | nil => rfl
  | cons t ts ih =>
    by_cases ht : t.covers a = true
    · have hothers : ∀ u ∈ ts, (if u.covers a then f u else u) = u := by
        intro u hu
        by_cases hc : u.covers a = true
        · exact absurd ht (h.head hu hc)
        · simp [hc]
      simp only [modifyTree, ht, if_true, List.map_cons]
      rw [List.map_congr_left hothers, List.map_id']
    · simp [modifyTree, ht, ih h.tail]

/-- A change at the end of the path to `a` is a change of the block of `a`. -/
theorem Laid.leafOf_modifyTree {ts : Forest} (h : Laid ts) {f g : LpData → LpData} (hf : Stays f)
    (hg : Stays g) {a b : Nat} (ha : covers ts a) (hb : covers ts b) :
    Forest.leafOf (modifyTree (fun t => t.alterPath f g a) a ts) b =
      if (Forest.leafOf ts b).addr = (Forest.leafOf ts a).addr then g (Forest.leafOf ts b)
      else Forest.leafOf ts b := by
  obtain ⟨t, ht, hta⟩ := ha
  obtain ⟨u, hu, hub⟩ := hb
  have hlaid : Laid (modifyTree (fun t => t.alterPath f g a) a ts) :=
    laid_of_shapes (shapes_modifyTree (shape_alterPath hf hg a) a ts).symm h
  rw [h.leafOf ht hta, h.leafOf hu hub]
  by_cases hua : u.covers a = true
  · have hut : t = u := by
      have h1 := h.get_lp_node ht hta
      rw [h.get_lp_node hu hua] at h1
      exact (Option.some.inj h1).symm
    subst hut
    have hin : t.alterPath f g a ∈ modifyTree (fun t => t.alterPath f g a) a ts := by
      rw [h.modifyTree_eq_map]
      exact List.mem_map.mpr ⟨t, ht, by simp [hta]⟩
    have hcov : (t.alterPath f g a).covers b = true := by
      rwa [LpTree.covers_of_shape (shape_alterPath hf hg a t)]
    rw [hlaid.leafOf hin hcov]
    exact (h.tiled t ht).basicBlock_alterPath hf hg hta hub
  · have hin : u ∈ modifyTree (fun t => t.alterPath f g a) a ts := by
      rw [h.modifyTree_eq_map]
      exact List.mem_map.mpr ⟨u, hu, by simp [hua]⟩
    rw [hlaid.leafOf hin hub]
    -- the block of `b` is in another tree than `a`
    have h1 := (h.tiled u hu).block_bounds hub
    have h2 := (h.tiled t ht).block_bounds hta
    rw [covers_iff] at hua
    rw [if_neg (by omega)]

theorem leafOf_reset {ts : Forest} {a : Nat} (ha : covers ts a) :
    leafOf (reset_bb_access_counter ts) a = LpData.halveAccesses (leafOf ts a) := by
  obtain ⟨t, ht, hta⟩ := ha
  have hfind : (get_lp_node (reset_bb_access_counter ts) a) =
      (get_lp_node ts a).map traverse_and_reset_access_counter := by
    unfold get_lp_node reset_bb_access_counter
    rw [List.find?_map]
    congr 2
    funext u
    exact LpTree.covers_of_shape (shape_reset_access_counter u) a
  cases hg : get_lp_node ts a with
  | none =>
    have hnone := List.find?_eq_none.mp hg t ht
    exact absurd hta hnone
  | some u =>
    simp only [leafOf, hfind, hg, Option.map_some, Option.elim_some]
    exact basicBlock_reset_access_counter u a

/-! ## The counters that the words stand for -/

end Forest

/-- What a basic block counts. -/
structure BlockCounters where
  accesses : Nat
  trips : Nat
  deriving DecidableEq

/-- The counters of the blocks, by their addresses. -/
abbrev CounterTable := Nat → BlockCounters

namespace CounterTable

/-- The 27-bit limit. -/
def ACCESS_LIMIT : Nat := 2 ^ 27 - 1

/-- The 6-bit limit. -/
def TRIP_LIMIT : Nat := 2 ^ 6 - 1

def halveAccesses (s : CounterTable) : CounterTable :=
  fun b => { s b with accesses := (s b).accesses / 2 }

def halveTrips (s : CounterTable) : CounterTable :=
  fun b => { s b with trips := (s b).trips / 2 }

/-- One more access; at the limit all blocks halve their accesses first. -/
def countAccess (s : CounterTable) (b : Nat) : CounterTable :=
  let s := if (s b).accesses = ACCESS_LIMIT then s.halveAccesses else s
  fun x => if x = b then { s x with accesses := (s x).accesses + 1 } else s x

/-- One more round trip; at the limit all blocks halve their round trips first. -/
def countTrip (s : CounterTable) (b : Nat) : CounterTable :=
  let s := if (s b).trips = TRIP_LIMIT then s.halveTrips else s
  fun x => if x = b then { s x with trips := (s x).trips + 1 } else s x

end CounterTable

/-- A call that counts. The root of a tree is given by an address in it. -/
inductive CountCall
  | inc_bb_access_counter (addr : Nat)
  | inc_bb_round_trip (root : Nat)
  deriving DecidableEq

namespace Forest

open LpTree

/-- The addresses of the blocks in the tree of an address. -/
def treeBlocks (ts : Forest) (a : Nat) : List Nat :=
  (get_lp_node ts a).elim [] fun t =>
    (List.range (t.size / MIN_PREFETCH_SIZE)).map (fun i => t.addr + i * MIN_PREFETCH_SIZE)

def call (ts : Forest) : CountCall → Forest
  | .inc_bb_access_counter a => inc_bb_access_counter ts a
  | .inc_bb_round_trip a => inc_bb_round_trip ts a

/-- The same call on a pair of counters for each block. -/
def count (ts : Forest) (s : CounterTable) : CountCall → CounterTable
  | .inc_bb_access_counter a => s.countAccess (get_basic_block ts a)
  | .inc_bb_round_trip a => (treeBlocks ts a).foldl CounterTable.countTrip s

/-- The counters that the words of the trees hold. -/
def counters (ts : Forest) : CounterTable :=
  fun b => ⟨get_bb_access_counter ts b, get_bb_round_trip ts b⟩

/-- The words have room for the call: an access that reaches the limit finds no
round trip in its word, and no block of the tree has 31 round trips. -/
def callFits (ts : Forest) : CountCall → Bool
  | .inc_bb_access_counter a =>
    get_bb_access_counter ts a != CounterTable.ACCESS_LIMIT || get_bb_round_trip ts a == 0
  | .inc_bb_round_trip a => (treeBlocks ts a).all fun b => decide (get_bb_round_trip ts b < 31)

/-- Each call fits the words that it finds. -/
def callsFit (ts : Forest) : List CountCall → Bool
  | [] => true
  | c :: cs => callFits ts c && callsFit (call ts c) cs

/-- The word of each block holds its two counters. -/
def Refines (ts : Forest) (s : CounterTable) : Prop :=
  ∀ a, covers ts a →
    LpData.accesses (leafOf ts a) = (s (get_basic_block ts a)).accesses ∧
      LpData.trips (leafOf ts a) = (s (get_basic_block ts a)).trips

/-! ## What the lookups read -/

theorem get_basic_block_eq (ts : Forest) (a : Nat) :
    get_basic_block ts a = (leafOf ts a).addr := by
  unfold get_basic_block leafOf
  cases get_lp_node ts a <;> rfl

theorem get_bb_access_counter_eq (ts : Forest) (a : Nat) :
    get_bb_access_counter ts a = LpData.accesses (leafOf ts a) := by
  unfold get_bb_access_counter leafOf
  cases get_lp_node ts a with
  | none => rfl
  | some t => exact access_word.access_field _

theorem get_bb_round_trip_eq (ts : Forest) (a : Nat) :
    get_bb_round_trip ts a = LpData.trips (leafOf ts a) := by
  unfold get_bb_round_trip leafOf
  cases get_lp_node ts a with
  | none => simp [LpData.trips, access_word.trips]
  | some t => exact access_word.trip_field _

theorem Laid.leafOf_block {ts : Forest} (h : Laid ts) {a : Nat} (ha : covers ts a) :
    covers ts (Forest.leafOf ts a).addr ∧
      Forest.leafOf ts (Forest.leafOf ts a).addr = Forest.leafOf ts a := by
  obtain ⟨t, ht, hta⟩ := ha
  obtain ⟨hcov, hblock⟩ := (h.tiled t ht).basicBlock_block hta
  rw [h.leafOf ht hta]
  refine ⟨⟨t, ht, hcov⟩, ?_⟩
  rw [h.leafOf ht hcov, hblock]

/-- The tree of an address, if it has one. -/
theorem get_lp_node_cases (ts : Forest) (a : Nat) :
    get_lp_node ts a = none ∨ ∃ t ∈ ts, get_lp_node ts a = some t := by
  cases hg : get_lp_node ts a with
  | none => exact Or.inl rfl
  | some t => exact Or.inr ⟨t, List.mem_of_find?_eq_some hg, rfl⟩

/-- The blocks of a tree are the leaves that `inc_bb_round_trip` visits. -/
theorem Laid.leaves_treeBlocks {ts : Forest} (h : Laid ts) (a : Nat) :
    ((Forest.get_lp_node ts a).elim [] leaves).map LpData.addr = Forest.treeBlocks ts a := by
  unfold Forest.treeBlocks
  rcases get_lp_node_cases ts a with hg | ⟨t, ht, hg⟩
  · simp [hg]
  · obtain ⟨n, hn, hleaves⟩ := (h.tiled t ht).leaves_addr
    have hpos : 0 < MIN_PREFETCH_SIZE := by decide
    simp only [hg, Option.elim_some, hleaves, hn, Nat.mul_div_cancel _ hpos]

/-- The blocks of a tree are blocks of the trees, each its own. -/
theorem Laid.treeBlocks {ts : Forest} (h : Laid ts) (a : Nat) :
    (Forest.treeBlocks ts a).Nodup ∧
      ∀ b ∈ Forest.treeBlocks ts a, covers ts b ∧ get_basic_block ts b = b := by
  have hpos : 0 < MIN_PREFETCH_SIZE := by decide
  constructor
  · unfold Forest.treeBlocks
    rcases get_lp_node_cases ts a with hg | ⟨t, _, hg⟩
    · simp [hg]
    · simp only [hg, Option.elim_some]
      apply List.Nodup.map _ List.nodup_range
      intro i j hij
      have hmul : i * MIN_PREFETCH_SIZE = j * MIN_PREFETCH_SIZE := by
        simpa using hij
      exact Nat.eq_of_mul_eq_mul_right hpos hmul
  · rw [← h.leaves_treeBlocks]
    intro b hb
    rcases get_lp_node_cases ts a with hg | ⟨t, ht, hg⟩
    · simp [hg] at hb
    · obtain ⟨n, hn, hleaves⟩ := (h.tiled t ht).leaves_addr
      simp only [hg, Option.elim_some] at hb
      have hb' := hb
      rw [hleaves] at hb'
      obtain ⟨i, hi, rfl⟩ := List.mem_map.mp hb'
      have hcov : t.covers (t.addr + i * MIN_PREFETCH_SIZE) = true := by
        have hlt := (Nat.mul_lt_mul_right hpos).mpr (List.mem_range.mp hi)
        rw [covers_iff]
        omega
      refine ⟨⟨t, ht, hcov⟩, ?_⟩
      rw [get_basic_block_eq, h.leafOf ht hcov]
      -- the block of the address is a leaf less than one block away
      have hbounds := (h.tiled t ht).block_bounds hcov
      have hleaf : (t.basicBlock (t.addr + i * MIN_PREFETCH_SIZE)).addr ∈
          t.leaves.map LpData.addr := List.mem_map_of_mem (basicBlock_mem_leaves t _)
      rw [hleaves] at hleaf
      obtain ⟨j, _, hj⟩ := List.mem_map.mp hleaf
      rw [← hj] at hbounds ⊢
      simp only [MIN_PREFETCH_SIZE] at hbounds ⊢
      omega

/-! ## One call -/

section call

variable {ts : Forest} {s : CounterTable}

theorem refines_counters (h : Laid ts) : Refines ts (counters ts) := by
  intro a ha
  have hblock := (h.leafOf_block ha).2
  simp only [counters, get_bb_access_counter_eq, get_bb_round_trip_eq, get_basic_block_eq, hblock,
    and_self]

/-- A change of one block, in its word and in its counters. -/
theorem Refines.alter (h : Refines ts s) (hl : Laid ts) {g : LpData → LpData} (hg : Stays g)
    {a : Nat} (ha : covers ts a) {f : BlockCounters → BlockCounters}
    (hfg : LpData.accesses (g (leafOf ts a)) = (f (s (get_basic_block ts a))).accesses ∧
      LpData.trips (g (leafOf ts a)) = (f (s (get_basic_block ts a))).trips) :
    Refines (modifyTree (fun t => t.alterPath id g a) a ts)
      (fun x => if x = get_basic_block ts a then f (s x) else s x) := by
  intro b hb
  have hshapes := shapes_modifyTree (shape_alterPath stays_id hg a) a ts
  have hb' := covers_of_shapes hshapes hb
  rw [get_basic_block_of_shapes hshapes, hl.leafOf_modifyTree stays_id hg ha hb']
  by_cases hab : (leafOf ts b).addr = (leafOf ts a).addr
  · have hsame : leafOf ts b = leafOf ts a := by
      rw [← (hl.leafOf_block hb').2, hab, (hl.leafOf_block ha).2]
    have hblock : get_basic_block ts b = get_basic_block ts a := by
      rw [get_basic_block_eq, get_basic_block_eq, hab]
    rw [if_pos hab, hblock, hsame]
    simpa using hfg
  · have hblock : get_basic_block ts b ≠ get_basic_block ts a := by
      rwa [get_basic_block_eq, get_basic_block_eq]
    rw [if_neg hab]
    simpa [hblock] using h b hb'

theorem shapes_reset (ts : Forest) : shapes (reset_bb_access_counter ts) = shapes ts :=
  shapes_map shape_reset_access_counter ts

theorem Refines.halveAccesses (h : Refines ts s) :
    Refines (reset_bb_access_counter ts) s.halveAccesses := by
  intro a ha
  have hshapes := shapes_reset ts
  have ha' := covers_of_shapes hshapes ha
  have hread := h a ha'
  have hhalf := LpData.halveAccesses_fields (leafOf ts a)
  rw [leafOf_reset ha', get_basic_block_of_shapes hshapes, hhalf.1, hhalf.2, hread.1, hread.2]
  exact ⟨rfl, rfl⟩

/-- Inner nodes that count do not change the blocks. -/
theorem leafOf_inner (hl : Laid ts) {f : LpData → LpData} (hf : Stays f) {a b : Nat}
    (ha : covers ts a) (hb : covers ts b) :
    leafOf (modifyTree (fun t => t.alterPath f id a) a ts) b = leafOf ts b := by
  rw [hl.leafOf_modifyTree hf stays_id ha hb]
  split <;> rfl

theorem Refines.inner (h : Refines ts s) (hl : Laid ts) {f : LpData → LpData} (hf : Stays f)
    {a : Nat} (ha : covers ts a) :
    Refines (modifyTree (fun t => t.alterPath f id a) a ts) s := by
  intro b hb
  have hshapes := shapes_modifyTree (shape_alterPath hf stays_id a) a ts
  have hb' := covers_of_shapes hshapes hb
  rw [leafOf_inner hl hf ha hb', get_basic_block_of_shapes hshapes]
  exact h b hb'

/-- One more access below the limit. -/
theorem Refines.countAccess (h : Refines ts s) (hl : Laid ts) {a : Nat} (ha : covers ts a)
    (hlt : LpData.accesses (leafOf ts a) < CounterTable.ACCESS_LIMIT) :
    Refines (modifyTree (fun t => t.alterPath id LpData.countAccess a) a ts)
      (fun x => if x = get_basic_block ts a then { s x with accesses := (s x).accesses + 1 }
        else s x) := by
  have hread := h a ha
  have hfields := LpData.countAccess_fields hlt
  apply h.alter hl stays_countAccess ha (f := fun c => { c with accesses := c.accesses + 1 })
  rw [hfields.1, hfields.2, hread.1, hread.2]
  exact ⟨rfl, rfl⟩

theorem Refines.inc_bb_access_counter (h : Refines ts s) (hl : Laid ts) {a : Nat}
    (ha : covers ts a) (hfit : callFits ts (.inc_bb_access_counter a) = true) :
    Refines (Forest.inc_bb_access_counter ts a) (s.countAccess (get_basic_block ts a)) := by
  have hf := stays_countAccess
  have hshapes := shapes_modifyTree (shape_alterPath hf stays_id a) a ts
  have hinner := h.inner hl hf ha
  have hleaf := leafOf_inner hl hf ha ha
  have hlaid := laid_of_shapes hshapes.symm hl
  have hcov := covers_of_shapes hshapes.symm ha
  have hread := h a ha
  have hblock := get_basic_block_of_shapes hshapes a
  simp only [callFits, get_bb_access_counter_eq, get_bb_round_trip_eq, Bool.or_eq_true, bne_iff_ne,
    beq_iff_eq] at hfit
  unfold Forest.inc_bb_access_counter CounterTable.countAccess
  revert hinner hleaf hlaid hcov hblock
  generalize modifyTree (fun t => t.alterPath LpData.countAccess id a) a ts = us
  intro hinner hleaf hlaid hcov hblock
  simp only [hleaf]
  by_cases hlim : LpData.accesses (leafOf ts a) = CounterTable.ACCESS_LIMIT
  · have htrips := hfit.resolve_left (fun h => h hlim)
    have hword : (leafOf ts a).access_counter = ACCESS_MASK :=
      (access_word.word_eq_mask _).mpr ⟨hlim, htrips⟩
    have hcov' := covers_of_shapes (shapes_reset us).symm hcov
    have hlaid' := laid_of_shapes (shapes_reset us).symm hlaid
    have hhalf := (LpData.halveAccesses_fields (leafOf us a)).1
    rw [← leafOf_reset hcov, hleaf, hlim] at hhalf
    have hcount := hinner.halveAccesses.countAccess hlaid' hcov' (by rw [hhalf]; decide)
    rw [get_basic_block_of_shapes (shapes_reset us), hblock] at hcount
    rw [if_pos hword, if_pos (hread.1.symm.trans hlim)]
    exact hcount
  · have hword : ¬ (leafOf ts a).access_counter = ACCESS_MASK :=
      fun h => hlim ((access_word.word_eq_mask _).mp h).1
    have hmod : LpData.accesses (leafOf ts a) < 2 ^ 27 := Nat.mod_lt _ (by decide)
    have hlt : LpData.accesses (leafOf us a) < CounterTable.ACCESS_LIMIT := by
      rw [hleaf]
      unfold CounterTable.ACCESS_LIMIT at hlim ⊢
      omega
    have hcount := hinner.countAccess hlaid hcov hlt
    rw [hblock] at hcount
    rw [if_neg hword, if_neg (fun h => hlim (hread.1.trans h))]
    exact hcount

/-- No word holds 63 round trips, so that the test for them never succeeds. -/
theorem incRoundTripLeaf_eq (ts : Forest) (a : Nat) :
    incRoundTripLeaf ts a = modifyTree (fun t => t.alterPath id LpData.countTrip a) a ts := by
  have hne : ¬ LpData.round_trip (leafOf ts a) = 63#32 := by
    intro h
    have htrips := LpData.round_trip_toNat (leafOf ts a)
    have hlt : LpData.trips (leafOf ts a) < 32 := access_word.trips_lt _
    rw [h] at htrips
    have h63 : (63#32).toNat = 63 := by decide
    omega
  unfold incRoundTripLeaf
  rw [if_neg hne]

theorem Refines.incRoundTripLeaf (h : Refines ts s) (hl : Laid ts) {a : Nat} (ha : covers ts a)
    (hlt : LpData.trips (leafOf ts a) < 31) :
    Refines (Forest.incRoundTripLeaf ts a) (s.countTrip (get_basic_block ts a)) := by
  have hread := h a ha
  have hfields := LpData.countTrip_fields hlt
  have hlim : ¬ (s (get_basic_block ts a)).trips = CounterTable.TRIP_LIMIT := by
    rw [← hread.2]
    unfold CounterTable.TRIP_LIMIT
    omega
  unfold CounterTable.countTrip
  rw [incRoundTripLeaf_eq, if_neg hlim]
  apply h.alter hl stays_countTrip ha (f := fun c => { c with trips := c.trips + 1 })
  rw [hfields.1, hfields.2, hread.1, hread.2]
  exact ⟨rfl, rfl⟩

/-- The round trips of a list of blocks, one after the other. -/
theorem Refines.incRoundTripLeaves {bs : List Nat} (h : Refines ts s) (hl : Laid ts)
    (hnodup : bs.Nodup) (hown : ∀ b ∈ bs, covers ts b ∧ get_basic_block ts b = b)
    (hlt : ∀ b ∈ bs, LpData.trips (leafOf ts b) < 31) :
    Refines (bs.foldl Forest.incRoundTripLeaf ts) (bs.foldl CounterTable.countTrip s) := by
  induction bs generalizing ts s with
  | nil => exact h
  | cons b bs ih =>
    obtain ⟨hcov, hblock⟩ := hown b List.mem_cons_self
    have hshapes := shapes_incRoundTripLeaf ts b
    have hstep := h.incRoundTripLeaf hl hcov (hlt b List.mem_cons_self)
    rw [hblock] at hstep
    apply ih hstep (laid_of_shapes hshapes.symm hl) (List.nodup_cons.mp hnodup).2
    · intro c hc
      obtain ⟨hcovc, hblockc⟩ := hown c (List.mem_cons_of_mem _ hc)
      refine ⟨covers_of_shapes hshapes.symm hcovc, ?_⟩
      rw [get_basic_block_of_shapes hshapes, hblockc]
    · intro c hc
      obtain ⟨hcovc, hblockc⟩ := hown c (List.mem_cons_of_mem _ hc)
      have hne : c ≠ b := by
        rintro rfl
        exact (List.nodup_cons.mp hnodup).1 hc
      rw [get_basic_block_eq] at hblock hblockc
      rw [incRoundTripLeaf_eq, hl.leafOf_modifyTree stays_id stays_countTrip hcov hcovc, hblock,
        hblockc, if_neg hne]
      exact hlt c (List.mem_cons_of_mem _ hc)

theorem Refines.inc_bb_round_trip (h : Refines ts s) (hl : Laid ts) {a : Nat}
    (hfit : callFits ts (.inc_bb_round_trip a) = true) :
    Refines (Forest.inc_bb_round_trip ts a) (count ts s (.inc_bb_round_trip a)) := by
  obtain ⟨hnodup, hown⟩ := hl.treeBlocks a
  have hleaves := hl.leaves_treeBlocks a
  simp only [callFits, List.all_eq_true, decide_eq_true_eq, get_bb_round_trip_eq] at hfit
  have hrun := h.incRoundTripLeaves hl hnodup hown hfit
  have hcount : count ts s (.inc_bb_round_trip a) =
      (Forest.treeBlocks ts a).foldl CounterTable.countTrip s := rfl
  rw [hcount]
  rw [← hleaves, List.foldl_map] at hrun
  rw [← hleaves]
  exact hrun

/-- One call that fits. -/
theorem Refines.call (h : Refines ts s) (hl : Laid ts) {c : CountCall}
    (hcov : ∀ a, c = .inc_bb_access_counter a → covers ts a) (hfit : callFits ts c = true) :
    Refines (Forest.call ts c) (count ts s c) := by
  cases c with
  | inc_bb_access_counter a => exact h.inc_bb_access_counter hl (hcov a rfl) hfit
  | inc_bb_round_trip a => exact h.inc_bb_round_trip hl hfit

theorem shapes_call (ts : Forest) (c : CountCall) : shapes (call ts c) = shapes ts := by
  cases c with
  | inc_bb_access_counter a => exact shapes_inc_bb_access_counter ts a
  | inc_bb_round_trip a => exact shapes_inc_bb_round_trip ts a

/-- The blocks that a call counts for do not depend on the words. -/
theorem count_of_shapes {us : Forest} (h : shapes ts = shapes us) (s : CounterTable) (c : CountCall) :
    count ts s c = count us s c := by
  cases c with
  | inc_bb_access_counter a => simp only [count, get_basic_block_of_shapes h]
  | inc_bb_round_trip a =>
    have hblocks : treeBlocks ts a = treeBlocks us a := by
      apply elim_of_shapes h
      intro t u htu
      rw [addr_of_shape htu, size_of_shape htu]
    simp only [count, hblocks]

/-- A sequence of calls that fit. -/
theorem Refines.calls {us : Forest} {cs : List CountCall} (h : Refines us s) (hl : Laid ts)
    (hus : shapes us = shapes ts) (hcov : ∀ a, .inc_bb_access_counter a ∈ cs → covers ts a)
    (hfit : callsFit us cs = true) :
    Refines (cs.foldl Forest.call us) (cs.foldl (count ts) s) ∧
      shapes (cs.foldl Forest.call us) = shapes ts := by
  induction cs generalizing us s with
  | nil => exact ⟨h, hus⟩
  | cons c cs ih =>
    simp only [callsFit, Bool.and_eq_true] at hfit
    have hstep : Refines (Forest.call us c) (count us s c) := by
      apply h.call (laid_of_shapes hus.symm hl) _ hfit.1
      rintro a rfl
      exact covers_of_shapes hus.symm (hcov a List.mem_cons_self)
    rw [count_of_shapes hus] at hstep
    apply ih hstep
    · rw [shapes_call, hus]
    · intro a ha
      exact hcov a (List.mem_cons_of_mem _ ha)
    · exact hfit.2

end call

/-! ## Every sequence of calls -/

/-- Calls whose words have room for them keep the two counters of every block
apart: after them the words read what the counters count from the same start. -/
theorem access_words_refine_counters {ts : Forest} {cs : List CountCall} (hl : Laid ts)
    (hcov : ∀ a, .inc_bb_access_counter a ∈ cs → covers ts a) (hfit : callsFit ts cs = true)
    {a : Nat} (ha : covers ts a) :
    get_bb_access_counter (cs.foldl call ts) a =
        (cs.foldl (count ts) (counters ts) (get_basic_block ts a)).accesses ∧
      get_bb_round_trip (cs.foldl call ts) a =
        (cs.foldl (count ts) (counters ts) (get_basic_block ts a)).trips := by
  obtain ⟨href, hshapes⟩ := (refines_counters hl).calls hl rfl hcov hfit
  have hread := href a (covers_of_shapes hshapes.symm ha)
  rw [get_bb_access_counter_eq, get_bb_round_trip_eq, ← get_basic_block_of_shapes hshapes]
  exact hread

/-- A tree of two blocks and a tree of one. -/
def twoTrees : Forest :=
  [build_lp_tree 0 (MIN_PREFETCH_SIZE * 2), build_lp_tree (2 ^ 20) MIN_PREFETCH_SIZE]

theorem laid_twoTrees : Laid twoTrees := by
  refine ⟨?_, by decide⟩
  intro t ht
  simp only [twoTrees, List.mem_cons, List.not_mem_nil, or_false] at ht
  rcases ht with rfl | rfl
  · exact tiled_build_lp_tree 0 1
  · exact tiled_build_lp_tree (2 ^ 20) 0

/-- An access to the second block, a round trip of its tree and another access. -/
def mixedCalls : List CountCall :=
  [.inc_bb_access_counter 70000, .inc_bb_round_trip 0, .inc_bb_access_counter 65536]

theorem access_words_refine_counters_of_two_trees :
    get_bb_access_counter (mixedCalls.foldl call twoTrees) 70000 = 2 ∧
      get_bb_round_trip (mixedCalls.foldl call twoTrees) 70000 = 1 := by
  have hcov : ∀ a, a < MIN_PREFETCH_SIZE * 2 → covers twoTrees a := by
    intro a ha
    refine ⟨_, List.mem_cons_self, ?_⟩
    rw [covers_iff]
    exact ⟨Nat.zero_le a, by rwa [Nat.add_comm]⟩
  have hcalls : ∀ a, .inc_bb_access_counter a ∈ mixedCalls → covers twoTrees a := by
    intro a ha
    apply hcov
    simp only [mixedCalls, List.mem_cons, CountCall.inc_bb_access_counter.injEq, reduceCtorEq,
      List.not_mem_nil, or_false, false_or] at ha
    simp only [MIN_PREFETCH_SIZE]
    omega
  have h := access_words_refine_counters laid_twoTrees hcalls (by decide) (hcov 70000 (by decide))
  rw [h.1, h.2]
  decide

/-- The words do not refine the counters in every sequence of calls: the 32nd
round trip of a block takes its count back to zero. -/
theorem thirty_two_round_trips_read_as_zero :
    ¬ ∀ (ts : Forest) (cs : List CountCall), Laid ts →
      (∀ a, .inc_bb_access_counter a ∈ cs → covers ts a) → ∀ a, covers ts a →
        get_bb_round_trip (cs.foldl call ts) a =
          (cs.foldl (count ts) (counters ts) (get_basic_block ts a)).trips := by
  intro hall
  have hlaid : Laid [build_lp_tree 0 MIN_PREFETCH_SIZE] := by
    refine ⟨?_, by decide⟩
    intro t ht
    rw [List.mem_singleton.mp ht]
    exact tiled_build_lp_tree 0 0
  have h := hall [build_lp_tree 0 MIN_PREFETCH_SIZE] (List.replicate 32 (.inc_bb_round_trip 0)) hlaid
    (by simp) 0 ⟨_, List.mem_cons_self, by decide⟩
  revert h
  decide

end Forest

end gpgpu_sim_uvm
