-- The valid sizes of the large-page trees over whole runs. As long as every
-- call of `update_basic_block` finds room in its basic block, each node counts
-- what its children count, and no node counts more than its size.
import GpgpuSimUvm.TreeShape
import GpgpuSimUvm.Frames

namespace gpgpu_sim_uvm

open monitor

namespace LpTree

/-! ## Well-formed trees -/

/-- Sizes and counts are those of the children; a leaf is one basic block. -/
def WellFormed : LpTree → Prop
  | leaf d => d.size = MIN_PREFETCH_SIZE ∧ d.valid_size ≤ d.size
  | node d l r =>
    d.size = l.size + r.size ∧ d.valid_size = l.valid_size + r.valid_size ∧
      l.WellFormed ∧ r.WellFormed

/-- No node counts more than its size, and an inner node counts what its
children count. -/
def Sound : LpTree → Prop
  | leaf d => d.valid_size ≤ d.size
  | node d l r =>
    d.valid_size ≤ d.size ∧ d.valid_size = l.valid_size + r.valid_size ∧ l.Sound ∧ r.Sound

instance decidableSound : (t : LpTree) → Decidable t.Sound
  | leaf d => inferInstanceAs (Decidable (d.valid_size ≤ d.size))
  | node d l r =>
    have := decidableSound l
    have := decidableSound r
    inferInstanceAs (Decidable
      (d.valid_size ≤ d.size ∧ d.valid_size = l.valid_size + r.valid_size ∧ l.Sound ∧ r.Sound))

@[simp] theorem valid_size_leaf (d : LpData) : (leaf d).valid_size = d.valid_size := rfl
@[simp] theorem valid_size_node (d : LpData) (l r : LpTree) :
    (node d l r).valid_size = d.valid_size := rfl
@[simp] theorem size_leaf (d : LpData) : (leaf d).size = d.size := rfl
@[simp] theorem size_node (d : LpData) (l r : LpTree) : (node d l r).size = d.size := rfl

theorem WellFormed.valid_le {t : LpTree} (h : t.WellFormed) : t.valid_size ≤ t.size := by
  induction t with
  | leaf d => exact h.2
  | node d l r ihl ihr =>
    obtain ⟨hs, hv, hl, hr⟩ := h
    have := ihl hl
    have := ihr hr
    simp only [valid_size_node, size_node]
    omega

theorem WellFormed.sound {t : LpTree} (h : t.WellFormed) : t.Sound := by
  induction t with
  | leaf d => exact h.2
  | node d l r ihl ihr => exact ⟨h.valid_le, h.2.1, ihl h.2.2.1, ihr h.2.2.2⟩

/-- A basic block never has more room than its tree. -/
theorem WellFormed.block_bounds {t : LpTree} (h : t.WellFormed) (a : Nat) :
    (t.basicBlock a).valid_size ≤ t.valid_size ∧
      t.valid_size + (t.basicBlock a).size ≤ t.size + (t.basicBlock a).valid_size := by
  induction t with
  | leaf d => simp [basicBlock, Nat.add_comm]
  | node d l r ihl ihr =>
    obtain ⟨hs, hv, hl, hr⟩ := h
    have hvl := hl.valid_le
    have hvr := hr.valid_le
    simp only [basicBlock, valid_size_node, size_node]
    split
    · have := ihl hl
      omega
    · have := ihr hr
      omega

/-! ## Updates of one basic block -/

/-- The block has room for the bytes, or has them to give. -/
def Fits (leaf : LpData) (s : Nat) (prefetch : Bool) : Prop :=
  if prefetch then leaf.valid_size + s ≤ leaf.size else s ≤ leaf.valid_size

instance (leaf : LpData) (s : Nat) (p : Bool) : Decidable (Fits leaf s p) := by
  unfold Fits
  infer_instance

/-- A count goes from `v` to `v'` by the bytes that come or go. -/
def Moved (s : Nat) (prefetch : Bool) (v v' : Nat) : Prop :=
  if prefetch then v' = v + s else v' + s = v

theorem moved_update {d : LpData} {s : Nat} {p : Bool} (h : Fits d s p)
    (hv : d.valid_size ≤ d.size) (hb : d.size < SIZE_T) :
    Moved s p d.valid_size (LpData.update d s p).valid_size := by
  cases p with
  | true =>
    simp only [Fits, if_true] at h
    simp only [Moved, LpData.update, if_true]
    split
    · exact Nat.mod_eq_of_lt (by omega)
    · omega
  | false =>
    simp only [Fits, Bool.false_eq_true, if_false] at h
    simp only [Moved, LpData.update, Bool.false_eq_true, if_false]
    split
    · simp only [sub_size_t]
      rw [Nat.sub_add_comm h, Nat.add_mod_right, Nat.mod_eq_of_lt (by omega)]
      omega
    · omega

/-- What fits into a basic block fits into every node above it. -/
theorem WellFormed.fits_root {t : LpTree} {s a : Nat} {p : Bool} (h : t.WellFormed)
    (hfit : Fits (t.basicBlock a) s p) : Fits t.data s p := by
  have hbounds := h.block_bounds a
  cases p with
  | true =>
    simp only [Fits, if_true] at hfit ⊢
    change t.valid_size + s ≤ t.size
    omega
  | false =>
    simp only [Fits, Bool.false_eq_true, if_false] at hfit ⊢
    change s ≤ t.valid_size
    omega

theorem moved_update_basic_block {t : LpTree} {s a : Nat} {p : Bool} (h : t.WellFormed)
    (hb : t.size < SIZE_T) (hfit : Fits (t.basicBlock a) s p) :
    Moved s p t.valid_size (t.update_basic_block a s p).valid_size := by
  have hroot := moved_update (h.fits_root hfit) h.valid_le hb
  cases t with
  | leaf d => exact hroot
  | node d l r =>
    simp only [update_basic_block]
    split <;> exact hroot

@[simp] theorem size_update_basic_block (t : LpTree) (a s : Nat) (p : Bool) :
    (t.update_basic_block a s p).size = t.size :=
  size_of_shape (shape_update_basic_block t a s p)

/-- The sum of a node follows the child that changes. -/
theorem moved_sum {s v v' l l' r : Nat} {p : Bool} (hv : v = l + r) (hm : Moved s p v v')
    (hl : Moved s p l l') : v' = l' + r := by
  cases p <;> simp only [Moved, if_true, Bool.false_eq_true, if_false] at hm hl <;> omega

theorem wellFormed_update_basic_block {t : LpTree} {s a : Nat} {p : Bool} (h : t.WellFormed)
    (hb : t.size < SIZE_T) (hfit : Fits (t.basicBlock a) s p) :
    (t.update_basic_block a s p).WellFormed := by
  induction t with
  | leaf d =>
    refine ⟨?_, ?_⟩
    · rw [LpData.update_size]
      exact h.1
    · have hm := moved_update (d := d) hfit h.2 hb
      have hle := h.2
      rw [LpData.update_size]
      cases p <;> simp only [Moved, Fits, basicBlock, if_true, Bool.false_eq_true, if_false] at hm hfit <;>
        omega
  | node d l r ihl ihr =>
    have hroot := moved_update (h.fits_root hfit) h.valid_le hb
    obtain ⟨hs, hv, hl, hr⟩ := h
    have hbl : l.size < SIZE_T := by
      simp only [size_node] at hb
      omega
    have hbr : r.size < SIZE_T := by
      simp only [size_node] at hb
      omega
    simp only [basicBlock] at hfit
    simp only [update_basic_block]
    split at hfit
    · rename_i hc
      simp only [hc, if_true]
      refine ⟨?_, ?_, ihl hl hbl hfit, hr⟩
      · rw [LpData.update_size, size_update_basic_block]
        exact hs
      · exact moved_sum hv hroot (moved_update_basic_block hl hbl hfit)
    · rename_i hc
      simp only [hc, Bool.false_eq_true, if_false]
      refine ⟨?_, ?_, hl, ihr hr hbr hfit⟩
      · rw [LpData.update_size, size_update_basic_block]
        exact hs
      · rw [Nat.add_comm] at hv ⊢
        exact moved_sum hv hroot (moved_update_basic_block hr hbr hfit)

/-! ## The other operations -/

theorem wellFormed_evict_whole_tree {t : LpTree} (h : t.WellFormed) :
    t.evict_whole_tree.WellFormed ∧ t.evict_whole_tree.valid_size = 0 := by
  induction t with
  | leaf d => exact ⟨⟨h.1, Nat.zero_le _⟩, rfl⟩
  | node d l r ihl ihr =>
    obtain ⟨hs, hv, hl, hr⟩ := h
    refine ⟨⟨?_, ?_, (ihl hl).1, (ihr hr).1⟩, rfl⟩
    · rw [size_of_shape (shape_evict_whole_tree l), size_of_shape (shape_evict_whole_tree r)]
      exact hs
    · rw [(ihl hl).2, (ihr hr).2]

theorem wellFormed_reset_lp_tree_node {t : LpTree} (h : t.WellFormed) :
    t.reset_lp_tree_node.WellFormed ∧ t.reset_lp_tree_node.valid_size = 0 := by
  induction t with
  | leaf d => exact ⟨⟨h.1, Nat.zero_le _⟩, rfl⟩
  | node d l r ihl ihr =>
    obtain ⟨hs, hv, hl, hr⟩ := h
    refine ⟨⟨?_, ?_, (ihl hl).1, (ihr hr).1⟩, rfl⟩
    · rw [size_of_shape (shape_reset_lp_tree_node l), size_of_shape (shape_reset_lp_tree_node r)]
      exact hs
    · rw [(ihl hl).2, (ihr hr).2]

/-- A node that takes the sum of two well-formed children is well formed. -/
theorem wellFormed_sumNode {d : LpData} {l r : LpTree} (hs : d.size = l.size + r.size)
    (hb : d.size < SIZE_T) (hl : l.WellFormed) (hr : r.WellFormed) :
    (sumNode d l r).WellFormed := by
  have hvl := hl.valid_le
  have hvr := hr.valid_le
  exact ⟨hs, Nat.mod_eq_of_lt (by omega), hl, hr⟩

theorem wellFormed_fill_lp_tree {t : LpTree} (h : t.WellFormed) (hb : t.size < SIZE_T)
    (bs : BlockSet) : (t.fill_lp_tree bs).1.WellFormed := by
  induction t generalizing bs with
  | leaf d =>
    simp only [fill_lp_tree]
    split
    · exact ⟨h.1, h.1.symm.le⟩
    · exact h
  | node d l r ihl ihr =>
    obtain ⟨hs, -, hl, hr⟩ := h
    simp only [size_node] at hb
    simp only [fill_lp_tree]
    refine wellFormed_sumNode ?_ hb (ihl hl (by omega) _) (ihr hr (by omega) _)
    rw [size_of_shape (shape_fill_lp_tree l _), size_of_shape (shape_fill_lp_tree r _)]
    exact hs

theorem wellFormed_remove_lp_tree (ev : Nat → Bool) {t : LpTree} (h : t.WellFormed)
    (hb : t.size < SIZE_T) (bs : BlockSet) : (t.remove_lp_tree ev bs).1.WellFormed := by
  induction t generalizing bs with
  | leaf d =>
    simp only [remove_lp_tree]
    split
    · exact ⟨h.1, Nat.zero_le _⟩
    · exact h
  | node d l r ihl ihr =>
    obtain ⟨hs, -, hl, hr⟩ := h
    simp only [size_node] at hb
    simp only [remove_lp_tree]
    refine wellFormed_sumNode ?_ hb (ihl hl (by omega) _) (ihr hr (by omega) _)
    rw [size_of_shape (shape_remove_lp_tree ev l _), size_of_shape (shape_remove_lp_tree ev r _)]
    exact hs

theorem wellFormed_traverse_and_fill {t : LpTree} (h : t.WellFormed) (hb : t.size < SIZE_T)
    (bs : BlockSet) : (t.traverse_and_fill_lp_tree bs).1.WellFormed := by
  induction t generalizing bs with
  | leaf d => exact h
  | node d l r ihl ihr =>
    obtain ⟨hs, -, hl, hr⟩ := h
    simp only [size_node] at hb
    simp only [traverse_and_fill_lp_tree]
    have hsum : ∀ bs bs', (sumNode d (l.traverse_and_fill_lp_tree bs).1
        (r.traverse_and_fill_lp_tree bs').1).WellFormed := by
      intro bs bs'
      refine wellFormed_sumNode ?_ hb (ihl hl (by omega) _) (ihr hr (by omega) _)
      rw [size_of_shape (shape_traverse_and_fill_lp_tree l _),
        size_of_shape (shape_traverse_and_fill_lp_tree r _)]
      exact hs
    split
    · exact wellFormed_fill_lp_tree (hsum _ _) hb _
    · exact hsum _ _

theorem wellFormed_traverse_and_remove (ev : Nat → Bool) {t : LpTree} (h : t.WellFormed)
    (hb : t.size < SIZE_T) (bs : BlockSet) :
    (t.traverse_and_remove_lp_tree ev bs).1.WellFormed := by
  induction t generalizing bs with
  | leaf d => exact h
  | node d l r ihl ihr =>
    obtain ⟨hs, -, hl, hr⟩ := h
    simp only [size_node] at hb
    simp only [traverse_and_remove_lp_tree]
    have hsum : ∀ bs bs', (sumNode d (l.traverse_and_remove_lp_tree ev bs).1
        (r.traverse_and_remove_lp_tree ev bs').1).WellFormed := by
      intro bs bs'
      refine wellFormed_sumNode ?_ hb (ihl hl (by omega) _) (ihr hr (by omega) _)
      rw [size_of_shape (shape_traverse_and_remove_lp_tree ev l _),
        size_of_shape (shape_traverse_and_remove_lp_tree ev r _)]
      exact hs
    split
    · exact wellFormed_remove_lp_tree ev (hsum _ _) hb _
    · exact hsum _ _

/-- An update of the counters of a path leaves the valid sizes alone. -/
def KeepsCount (f : LpData → LpData) : Prop := ∀ d, (f d).valid_size = d.valid_size

theorem wellFormed_alterPath {f g : LpData → LpData} (hf : Stays f) (hg : Stays g)
    (hf' : KeepsCount f) (hg' : KeepsCount g) {t : LpTree} (h : t.WellFormed) (a : Nat) :
    (t.alterPath f g a).WellFormed ∧ (t.alterPath f g a).valid_size = t.valid_size := by
  induction t with
  | leaf d =>
    refine ⟨⟨?_, ?_⟩, hg' d⟩
    · rw [(hg d).2]
      exact h.1
    · rw [(hg d).2, hg' d]
      exact h.2
  | node d l r ihl ihr =>
    obtain ⟨hs, hv, hl, hr⟩ := h
    simp only [alterPath]
    split
    · refine ⟨⟨?_, ?_, (ihl hl).1, hr⟩, hf' d⟩
      · rw [(hf d).2, size_of_shape (shape_alterPath hf hg a l)]
        exact hs
      · rw [hf' d, (ihl hl).2]
        exact hv
    · refine ⟨⟨?_, ?_, hl, (ihr hr).1⟩, hf' d⟩
      · rw [(hf d).2, size_of_shape (shape_alterPath hf hg a r)]
        exact hs
      · rw [hf' d, (ihr hr).2]
        exact hv

theorem wellFormed_reset_access_counter {t : LpTree} (h : t.WellFormed) :
    t.traverse_and_reset_access_counter.WellFormed ∧
      t.traverse_and_reset_access_counter.valid_size = t.valid_size := by
  induction t with
  | leaf d => exact ⟨h, rfl⟩
  | node d l r ihl ihr =>
    obtain ⟨hs, hv, hl, hr⟩ := h
    refine ⟨⟨?_, ?_, (ihl hl).1, (ihr hr).1⟩, rfl⟩
    · rw [size_of_shape (shape_reset_access_counter l), size_of_shape (shape_reset_access_counter r)]
      exact hs
    · rw [(ihl hl).2, (ihr hr).2]
      exact hv

theorem wellFormed_reset_round_trip {t : LpTree} (h : t.WellFormed) :
    t.traverse_and_reset_round_trip.WellFormed := by
  cases t with
  | leaf d => exact h
  | node d l r =>
    obtain ⟨hs, hv, hl, hr⟩ := h
    refine ⟨?_, ?_, (wellFormed_reset_access_counter hl).1, (wellFormed_reset_access_counter hr).1⟩
    · rw [size_of_shape (shape_reset_access_counter l), size_of_shape (shape_reset_access_counter r)]
      exact hs
    · rw [(wellFormed_reset_access_counter hl).2, (wellFormed_reset_access_counter hr).2]
      exact hv

/-! ## Construction -/

theorem wellFormed_buildLevels {k n : Nat} (h : k ≤ n) (a : Nat) :
    (buildLevels n a (MIN_PREFETCH_SIZE * 2 ^ k)).WellFormed ∧
      (buildLevels n a (MIN_PREFETCH_SIZE * 2 ^ k)).size = MIN_PREFETCH_SIZE * 2 ^ k ∧
      (buildLevels n a (MIN_PREFETCH_SIZE * 2 ^ k)).valid_size = 0 := by
  induction n generalizing k a with
  | zero =>
    obtain rfl : k = 0 := by omega
    exact ⟨⟨rfl, Nat.zero_le _⟩, rfl, rfl⟩
  | succ n ih =>
    cases k with
    | zero => exact ⟨⟨rfl, Nat.zero_le _⟩, rfl, rfl⟩
    | succ k =>
      have hne : MIN_PREFETCH_SIZE * 2 ^ (k + 1) ≠ MIN_PREFETCH_SIZE := by
        have := Nat.one_le_two_pow (n := k)
        simp only [MIN_PREFETCH_SIZE, pow_succ]
        omega
      have hhalf : MIN_PREFETCH_SIZE * 2 ^ (k + 1) / 2 = MIN_PREFETCH_SIZE * 2 ^ k := by
        simp only [MIN_PREFETCH_SIZE, pow_succ]
        omega
      have hl := ih (Nat.le_of_succ_le_succ h) a
      have hr := ih (Nat.le_of_succ_le_succ h) (a + MIN_PREFETCH_SIZE * 2 ^ k)
      simp only [buildLevels, hne, if_false, hhalf]
      refine ⟨⟨?_, ?_, hl.1, hr.1⟩, rfl, rfl⟩
      · rw [hl.2.1, hr.2.1, pow_succ]
        ring
      · rw [hl.2.2, hr.2.2]

/-- A tree of 64KB times a power of two starts empty and well formed. -/
theorem wellFormed_build_lp_tree (a k : Nat) :
    (build_lp_tree a (MIN_PREFETCH_SIZE * 2 ^ k)).WellFormed ∧
      (build_lp_tree a (MIN_PREFETCH_SIZE * 2 ^ k)).size = MIN_PREFETCH_SIZE * 2 ^ k := by
  have hk : k ≤ (MIN_PREFETCH_SIZE * 2 ^ k).log2 := by
    have hpos : MIN_PREFETCH_SIZE * 2 ^ k ≠ 0 := by
      have := Nat.one_le_two_pow (n := k)
      simp only [MIN_PREFETCH_SIZE]
      omega
    rw [Nat.le_log2 hpos]
    exact Nat.le_mul_of_pos_left _ (by decide)
  exact ⟨(wellFormed_buildLevels hk a).1, (wellFormed_buildLevels hk a).2.1⟩

end LpTree

/-! ## All trees of a state -/

/-- Every tree is well formed and spans 2MB at most. -/
def TreesOk (ts : Forest) : Prop := ∀ t ∈ ts, t.WellFormed ∧ t.size ≤ MAX_PREFETCH_SIZE

namespace Forest

open LpTree

theorem mem_modifyTree {f : LpTree → LpTree} {a : Nat} {ts : Forest} {u : LpTree}
    (h : u ∈ modifyTree f a ts) : u ∈ ts ∨ ∃ t, get_lp_node ts a = some t ∧ u = f t := by
  induction ts with
  | nil => exact Or.inl h
  | cons t ts ih =>
    unfold modifyTree at h
    simp only [get_lp_node, List.find?_cons]
    split at h
    · rename_i hc
      rcases List.mem_cons.mp h with rfl | h
      · exact Or.inr ⟨t, by simp [hc], rfl⟩
      · exact Or.inl (List.mem_cons_of_mem _ h)
    · rename_i hc
      rcases List.mem_cons.mp h with rfl | h
      · exact Or.inl List.mem_cons_self
      · rcases ih h with h | ⟨t', ht', rfl⟩
        · exact Or.inl (List.mem_cons_of_mem _ h)
        · exact Or.inr ⟨t', by simpa [hc, get_lp_node] using ht', rfl⟩

theorem mem_of_get_lp_node {ts : Forest} {a : Nat} {t : LpTree} (h : get_lp_node ts a = some t) :
    t ∈ ts :=
  List.mem_of_find?_eq_some h

end Forest

open LpTree in
/-- A change of one tree that keeps its shape and leaves it well formed. -/
theorem treesOk_modifyTree {f : LpTree → LpTree} {a : Nat} {ts : Forest} (h : TreesOk ts)
    (hshape : ∀ t, (f t).shape = t.shape)
    (hf : ∀ t, Forest.get_lp_node ts a = some t → t.WellFormed → t.size < SIZE_T →
      (f t).WellFormed) : TreesOk (Forest.modifyTree f a ts) := by
  intro u hu
  rcases Forest.mem_modifyTree hu with hu | ⟨t, ht, rfl⟩
  · exact h u hu
  · obtain ⟨hwf, hsize⟩ := h t (Forest.mem_of_get_lp_node ht)
    refine ⟨hf t ht hwf (Nat.lt_of_le_of_lt hsize (by decide)), ?_⟩
    rw [size_of_shape (hshape t)]
    exact hsize

theorem treesOk_map {f : LpTree → LpTree} {ts : Forest} (h : TreesOk ts)
    (hshape : ∀ t, (f t).shape = t.shape) (hf : ∀ t, t.WellFormed → (f t).WellFormed) :
    TreesOk (ts.map f) := by
  intro u hu
  obtain ⟨t, ht, rfl⟩ := List.mem_map.mp hu
  refine ⟨hf t (h t ht).1, ?_⟩
  rw [LpTree.size_of_shape (hshape t)]
  exact (h t ht).2

theorem treesOk_alterPath {f g : LpData → LpData} (hf : LpTree.Stays f) (hg : LpTree.Stays g)
    (hf' : LpTree.KeepsCount f) (hg' : LpTree.KeepsCount g) {ts : Forest} (h : TreesOk ts)
    (a : Nat) : TreesOk (Forest.modifyTree (fun t => t.alterPath f g a) a ts) :=
  treesOk_modifyTree h (LpTree.shape_alterPath hf hg a)
    fun _ _ hwf _ => (LpTree.wellFormed_alterPath hf hg hf' hg' hwf a).1

theorem treesOk_update_access_type {ts : Forest} (h : TreesOk ts) (a type : Nat) :
    TreesOk (Forest.update_access_type ts a type) :=
  treesOk_alterPath (LpTree.stays_markType type) (LpTree.stays_markType type) (fun _ => rfl)
    (fun _ => rfl) h a

theorem treesOk_inc_bb_access_counter {ts : Forest} (h : TreesOk ts) (a : Nat) :
    TreesOk (Forest.inc_bb_access_counter ts a) := by
  have hup := treesOk_alterPath LpTree.stays_countAccess LpTree.stays_id (fun _ => rfl)
    (fun _ => rfl) h a
  refine treesOk_alterPath LpTree.stays_id LpTree.stays_countAccess (fun _ => rfl) (fun _ => rfl)
    ?_ a
  split
  · exact treesOk_map hup LpTree.shape_reset_access_counter
      fun _ hwf => (LpTree.wellFormed_reset_access_counter hwf).1
  · exact hup

theorem treesOk_inc_bb_round_trip {ts : Forest} (h : TreesOk ts) (a : Nat) :
    TreesOk (Forest.inc_bb_round_trip ts a) := by
  unfold Forest.inc_bb_round_trip
  induction (Forest.get_lp_node ts a).elim [] LpTree.leaves generalizing ts with
  | nil => exact h
  | cons d ds ih =>
    refine ih (treesOk_alterPath LpTree.stays_id LpTree.stays_countTrip (fun _ => rfl)
      (fun _ => rfl) ?_ d.addr)
    split
    · exact treesOk_map h LpTree.shape_reset_round_trip
        fun _ => LpTree.wellFormed_reset_round_trip
    · exact h

/-! ## Steps -/

/-- The condition of the law: the block that a call of `update_basic_block`
ends in has room for the bytes, or has them to give. -/
def Event.blockFits : Event → Bool
  | .block_updated leaf size prefetch => decide (LpTree.Fits leaf size prefetch)
  | _ => true

theorem leafOf_eq {ts : Forest} {a : Nat} {t : LpTree} (h : Forest.get_lp_node ts a = some t) :
    Forest.leafOf ts a = t.basicBlock a := by
  unfold Forest.leafOf
  rw [h]
  rfl

theorem treesOk_updateBlock {g : Gpu} {a s : Nat} {p : Bool} (h : TreesOk g.large_page_info)
    (hfit : LpTree.Fits (Forest.leafOf g.large_page_info a) s p) :
    TreesOk (updateBlock g a s p).large_page_info := by
  refine treesOk_modifyTree h (fun t => LpTree.shape_update_basic_block t a s p) ?_
  intro t ht hwf hb
  rw [leafOf_eq ht] at hfit
  exact LpTree.wellFormed_update_basic_block hwf hb hfit

variable (cfg : Config)

/-- The watch and the invariant of this module, over one step. -/
abbrev TreesFollow (g g' : Gpu) : Prop :=
  monitor.Follows (Watched Event.blockFits) (fun g => TreesOk g.large_page_info) g g'

theorem updateBlock_treesFollow (g : Gpu) (a s : Nat) (p : Bool) :
    TreesFollow g (updateBlock g a s p) :=
  (updateBlock_grows g a s p).follows
    fun h hw => treesOk_updateBlock h (of_decide_eq_true (hw.events _ List.mem_cons_self))

theorem reclaimPage_treesFollow (g : Gpu) (p : Nat) : TreesFollow g (reclaimPage cfg g p) := by
  have hmark : TreesFollow g (markReclaimed g p) := Grows.unnoticed (.of_same rfl rfl) id
  exact (hmark.trans (updateBlock_treesFollow _ _ _ _)).trans
    ((refresh_valid_pages_grows cfg _ _).unnoticed id)

theorem check_write_stage_queue_treesFollow (g : Gpu) (p : Nat) :
    TreesFollow g (check_write_stage_queue cfg g p) := by
  unfold check_write_stage_queue
  split
  · exact monitor.Follows.refl g
  · rename_i t _
    refine (monitor.Follows.foldl t.page_list (fun q _ g => reclaimPage_treesFollow cfg g q) g).trans ?_
    exact Grows.unnoticed (.of_same rfl rfl) id

theorem treesOk_evictPage {g : Gpu} {candidates : List EvictionT} (h : TreesOk g.large_page_info)
    (hfit : ∀ e ∈ (evictPage cfg g candidates).event, e.blockFits = true) :
    TreesOk (evictPage cfg g candidates).trees := by
  revert hfit
  simp only [evictPage]
  split
  · exact fun _ => h
  · exact fun _ => h
  · exact fun hfit => treesOk_updateBlock h (of_decide_eq_true (hfit _ List.mem_cons_self))

theorem treesOk_evictTree {g : Gpu} {candidates : List EvictionT} (h : TreesOk g.large_page_info) :
    TreesOk (evictTree cfg g candidates).trees := by
  simp only [evictTree]
  split
  · exact h
  · exact h
  · exact treesOk_modifyTree h LpTree.shape_evict_whole_tree
      fun _ _ hwf _ => (LpTree.wellFormed_evict_whole_tree hwf).1

theorem treesOk_evictBlock {g : Gpu} {candidates : List EvictionT} (h : TreesOk g.large_page_info)
    (hfit : ∀ e ∈ (evictBlock cfg g candidates).event, e.blockFits = true) :
    TreesOk (evictBlock cfg g candidates).trees := by
  revert hfit
  simp only [evictBlock]
  split
  · exact fun _ => h
  · exact fun _ => h
  · exact fun hfit => treesOk_updateBlock h (of_decide_eq_true (hfit _ List.mem_cons_self))

theorem treesOk_evictBlocksOfTree {g : Gpu} {candidates : List EvictionT}
    (h : TreesOk g.large_page_info)
    (hfit : ∀ e ∈ (evictBlocksOfTree cfg g candidates).event, e.blockFits = true) :
    TreesOk (evictBlocksOfTree cfg g candidates).trees := by
  revert hfit
  simp only [evictBlocksOfTree]
  split
  · exact fun _ => h
  · exact fun _ => h
  · intro hfit
    refine treesOk_modifyTree (treesOk_updateBlock h (of_decide_eq_true (hfit _ List.mem_cons_self))) ?_ ?_
    · exact fun t => LpTree.shape_traverse_and_remove_lp_tree _ t _
    · exact fun t _ hwf hb => LpTree.wellFormed_traverse_and_remove _ hwf hb _

/-- Whatever the victims are, the trees behind them are fine if the calls of
`update_basic_block` among their events fit. -/
theorem treesOk_chooseVictims {g : Gpu} {vp : List EvictionT} (h : TreesOk g.large_page_info)
    (hfit : ∀ e ∈ (chooseVictims cfg g vp).event, e.blockFits = true) :
    TreesOk (chooseVictims cfg g vp).trees := by
  revert hfit
  simp only [chooseVictims]
  split_ifs
  · exact treesOk_evictPage cfg h
  · exact fun _ => treesOk_evictTree cfg h
  · exact fun _ => h
  · exact treesOk_evictPage cfg h
  · exact treesOk_evictBlock cfg h
  · exact treesOk_evictBlocksOfTree cfg h

theorem eviction_check_treesFollow (g : Gpu) : TreesFollow g (eviction_check cfg g) := by
  simp only [eviction_check]
  split
  · have hdetect : TreesFollow g ((detectPattern cfg g).log (.evicting (unguarded cfg g))) := by
      refine ((detectPattern_grows cfg g).trans (log_grows _ _)).unnoticed ?_
      unfold detectPattern
      split <;> exact id
    refine hdetect.trans (monitor.Follows.trans ?_
      (monitor.Follows.foldl _ (fun r _ g => (stageEviction_grows cfg g r).unnoticed id) _))
    refine (takeVictims_grows _ _ _).follows fun h hw => treesOk_chooseVictims cfg h ?_
    exact fun e he => hw.events e (List.mem_append_left _ he)
  · exact monitor.Follows.refl g

theorem write_back_schedule_treesFollow (g : Gpu) : TreesFollow g (write_back_schedule cfg g) := by
  refine (write_back_schedule_grows cfg g).unnoticed ?_
  unfold write_back_schedule
  split
  · exact fun h => treesOk_inc_bb_round_trip h _
  · exact id

theorem walkFetch_treesFollow (g : Gpu) (mf : MemFetch) : TreesFollow g (walkFetch cfg g mf) := by
  have hpop : TreesFollow g (popWalk cfg g mf) := (popWalk_grows cfg g mf).unnoticed id
  unfold walkFetch
  split
  · exact (hpop.trans (check_write_stage_queue_treesFollow cfg _ _)).trans
      ((replay_grows cfg _ mf).unnoticed id)
  · refine hpop.trans ((fileFetch_grows cfg _ mf _).unnoticed ?_)
    rw [fileFetch_frame]
    exact id

theorem drawIfRandom_treesFollow (g : Gpu) (temp : List Nat) (p : Nat) :
    TreesFollow g (drawIfRandom cfg g temp p).1 := by
  unfold drawIfRandom
  split
  · rename_i t _ _
    have hcall : ∀ q, TreesFollow g (callRand cfg g t q) :=
      fun q => Grows.unnoticed (.of_update [] _ rfl rfl) id
    simp only [drawRandom]
    split
    · exact ((hcall _).trans ((log_grows _ _).unnoticed id)).trans (updateBlock_treesFollow _ _ _ _)
    · exact hcall _
  · exact monitor.Follows.refl g

theorem prefetchGroup_treesFollow (s : Gpu × Turn) (group : Nat × List Nat) :
    TreesFollow s.1 (prefetchGroup cfg s group).1 := by
  have hfaults : TreesFollow s.1 (scheduleFaults s.1 group.2).1 := by
    unfold scheduleFaults
    exact monitor.Follows.foldl_fst group.2 (fun a _ s => updateBlock_treesFollow s.1 a _ true)
      (s.1, (StdMap.empty : BlockSet))
  have hfill : TreesFollow (scheduleFaults s.1 group.2).1
      (fillTree (scheduleFaults s.1 group.2).1 group.1 (scheduleFaults s.1 group.2).2).1 := by
    refine (fillTree_grows _ _ _).unnoticed fun h => ?_
    simp only [fillTree]
    split
    · exact treesOk_modifyTree h (fun t => LpTree.shape_traverse_and_fill_lp_tree t _)
        fun t _ hwf hb => LpTree.wellFormed_traverse_and_fill hwf hb _
    · exact h
  exact (hfaults.trans hfill).trans (monitor.Follows.foldl_fst _
    (fun bb _ s => (collectBlock_grows cfg s bb).unnoticed id) (_, _, []))

theorem do_hardware_prefetch_treesFollow (g : Gpu) :
    TreesFollow g (do_hardware_prefetch cfg g) := by
  have hchoose : TreesFollow g (chooseMigrations cfg g).1 := by
    unfold chooseMigrations
    split
    · refine monitor.Follows.foldl_fst _ ?_ (g, ({} : Turn))
      exact fun p _ s => (updateBlock_treesFollow _ _ _ _).trans (drawIfRandom_treesFollow cfg _ _ p)
    · refine monitor.Follows.foldl_fst _ ?_ (g, ({} : Turn))
      exact fun group _ s => prefetchGroup_treesFollow cfg s group
  have hstage : TreesFollow (chooseMigrations cfg g).1
      (stageTurn cfg (chooseMigrations cfg g).1 (chooseMigrations cfg g).2) := by
    refine (stageTurn_grows cfg _ _).unnoticed fun h => ?_
    rw [stageTurn_frame]
    exact h
  simp only [do_hardware_prefetch]
  split
  · exact monitor.Follows.refl g
  · refine (hchoose.trans hstage).trans (monitor.Follows.trans ?_
      ((noteOversubscription_grows cfg _ _).unnoticed fun h => ?_))
    · exact Grows.unnoticed (.of_same rfl rfl) id
    · rw [noteOversubscription_frame]
      exact h

theorem selectChunk_treesFollow (n : Nat) (g : Gpu) (q : PrefetchReq) :
    TreesFollow g (selectChunk cfg n g q).1 := by
  induction n generalizing g q with
  | zero => exact monitor.Follows.refl g
  | succ n ih =>
    have hreq : TreesFollow g (g.require (is_mapped g (cfg.get_page_num q.cur_addr))) :=
      (require_grows _ _).unnoticed id
    have hcheck := check_write_stage_queue_treesFollow cfg
      (g.require (is_mapped g (cfg.get_page_num q.cur_addr))) (cfg.get_page_num q.cur_addr)
    simp only [selectChunk]
    split_ifs
    · exact hreq.trans hcheck
    · exact (hreq.trans hcheck).trans (ih _ _)
    · exact hreq.trans hcheck
    · exact (hreq.trans ((takePage_grows _ _ _).unnoticed id)).trans (ih _ _)
    · exact hreq.trans ((takePage_grows _ _ _).unnoticed id)

theorem user_prefetch_treesFollow (g : Gpu) : TreesFollow g (user_prefetch cfg g) := by
  unfold user_prefetch
  split
  · exact monitor.Follows.refl g
  · rename_i q rest _
    have hreplay : TreesFollow g (replayChunk cfg g q).1 := by
      refine (replayChunk_grows cfg g q).unnoticed fun h => ?_
      rw [replayChunk_frame]
      exact h
    split
    · dsimp only
      split
      · refine hreplay.trans (Grows.unnoticed ?_ id)
        exact .of_same rfl rfl
      · have hselect := selectChunk_treesFollow cfg (pages_left cfg (replayChunk cfg g q).2)
          (replayChunk cfg g q).1 (replayChunk cfg g q).2
        refine (hreplay.trans hselect).trans ?_
        exact Grows.unnoticed (.of_same rfl rfl) id
    · exact monitor.Follows.refl g

theorem gmmu_cycle_treesFollow (g : Gpu) : TreesFollow g (gmmu_cycle cfg g) := by
  refine gmmu_cycle_follows cfg (eviction_check_treesFollow cfg)
    (fun g => (write_back_done_grows cfg g).unnoticed id) (write_back_schedule_treesFollow cfg)
    (fun g => (read_done_grows cfg g).unnoticed fun h => ?_)
    (fun g => (read_schedule_grows cfg g).unnoticed fun h => ?_)
    (page_table_walk_follows cfg (walkFetch_treesFollow cfg)) (do_hardware_prefetch_treesFollow cfg)
    (fun g => (fetch_from_clusters_grows cfg g).unnoticed fun h => ?_)
    (user_prefetch_treesFollow cfg) g
  · rw [read_done_frame]
    exact h
  · rw [read_schedule_frame]
    exact h
  · rw [fetch_from_clusters_frame]
    exact h

theorem tlbHit_treesFollow (g : Gpu) (sid : Nat) (a : MemAccess) :
    TreesFollow g (tlbHit cfg g sid a) := by
  refine (check_write_stage_queue_treesFollow cfg g (cfg.get_page_num a.addr)).trans ?_
  refine monitor.Follows.trans ?_ ((refresh_valid_pages_grows cfg _ _).unnoticed id)
  exact (useTlbEntry_grows cfg _ sid a).unnoticed id

theorem access_cycle_treesFollow (g : Gpu) (sid : Nat) :
    TreesFollow g (access_cycle cfg g sid).1 := by
  unfold access_cycle
  split
  · exact monitor.Follows.refl g
  · rename_i w _
    split
    · exact monitor.Follows.refl g
    · rename_i a rest _
      have hmeet : TreesFollow g (meetAccesses cfg g sid a rest) :=
        (meetAccesses_grows cfg g sid a rest).unnoticed id
      split
      · exact hmeet
      · have hnote : TreesFollow (meetAccesses cfg g sid a rest)
            (noteAccess cfg (meetAccesses cfg g sid a rest) a rest) :=
          (noteAccess_grows cfg _ a rest).unnoticed fun h =>
            treesOk_inc_bb_access_counter (treesOk_update_access_type h _ _) _
        refine (hmeet.trans hnote).trans ?_
        unfold farFetch
        split
        · exact tlbHit_treesFollow cfg _ sid a
        · exact Grows.unnoticed (.of_same rfl rfl) id

theorem ldst_cycle_treesFollow (g : Gpu) (sid : Nat) (p : Port) :
    TreesFollow g (ldst_cycle cfg g sid p) := by
  refine ldst_cycle_follows cfg (access_cycle_treesFollow cfg)
    (fun g sid p => (memory_cycle_grows cfg g sid p).unnoticed fun h => ?_)
    (fun g sid => (retire_grows g sid).unnoticed id) g sid p
  rw [memory_cycle_frame]
  exact h

/-! ## Allocations -/

theorem doubleUntil_eq (r n k : Nat) :
    ∃ j ≤ n, doubleUntil r n (MIN_PREFETCH_SIZE * 2 ^ k) = MIN_PREFETCH_SIZE * 2 ^ (k + j) := by
  induction n generalizing k with
  | zero => exact ⟨0, le_rfl, rfl⟩
  | succ n ih =>
    unfold doubleUntil
    split
    · obtain ⟨j, hj, he⟩ := ih (k + 1)
      refine ⟨j + 1, by omega, ?_⟩
      rw [Nat.mul_assoc, ← pow_succ, he]
      congr 2
      omega
    · exact ⟨0, by omega, rfl⟩

/-- A rounded size is whole large pages, and then 64KB times a power of two. -/
theorem roundedSize_mod (size : Nat) :
    roundedSize size % MAX_PREFETCH_SIZE = 0 ∨
      ∃ k < 5, roundedSize size % MAX_PREFETCH_SIZE = MIN_PREFETCH_SIZE * 2 ^ k := by
  have hwraps : MAX_PREFETCH_SIZE ∣ SIZE_T := by
    simp only [MAX_PREFETCH_SIZE, SIZE_T]
    decide
  simp only [roundedSize]
  rw [Nat.mod_mod_of_dvd _ hwraps]
  split
  · left
    simp
  · obtain ⟨j, hj, he⟩ := doubleUntil_eq
      (size - size / MAX_PREFETCH_SIZE * MAX_PREFETCH_SIZE) 5 0
    rw [pow_zero, Nat.mul_one, Nat.zero_add] at he
    rw [he, Nat.mul_add_mod_self_right]
    interval_cases j
    · exact Or.inr ⟨0, by decide, by decide⟩
    · exact Or.inr ⟨1, by decide, by decide⟩
    · exact Or.inr ⟨2, by decide, by decide⟩
    · exact Or.inr ⟨3, by decide, by decide⟩
    · exact Or.inr ⟨4, by decide, by decide⟩
    · exact Or.inl (by decide)

/-- Each tree of an allocation is 64KB times a power of two, up to 2MB. -/
theorem mem_largePages {addr size : Nat} {r : Nat × Nat} (h : r ∈ largePages addr (roundedSize size)) :
    ∃ k ≤ 5, r.2 = MIN_PREFETCH_SIZE * 2 ^ k := by
  simp only [largePages] at h
  rcases List.mem_append.mp h with h | h
  · obtain ⟨i, -, rfl⟩ := List.mem_map.mp h
    exact ⟨5, le_rfl, rfl⟩
  · split at h
    · cases h
    · rename_i hne
      obtain ⟨k, hk, he⟩ := (roundedSize_mod size).resolve_left hne
      rw [List.mem_singleton.mp h]
      exact ⟨k, by omega, he⟩

theorem cudaMallocManaged_treesFollow (g : Gpu) (cpu size : Nat) :
    TreesFollow g (cudaMallocManaged cfg g cpu size) := by
  refine (cudaMallocManaged_grows cfg g cpu size).unnoticed fun h => ?_
  intro t ht
  rcases List.mem_append.mp ht with ht | ht
  · exact h t ht
  · obtain ⟨r, hr, rfl⟩ := List.mem_map.mp ht
    obtain ⟨k, hk, hsize⟩ := mem_largePages hr
    rw [hsize]
    obtain ⟨hwf, hs⟩ := LpTree.wellFormed_build_lp_tree r.1 k
    refine ⟨hwf, ?_⟩
    rw [hs]
    calc MIN_PREFETCH_SIZE * 2 ^ k ≤ MIN_PREFETCH_SIZE * 2 ^ 5 :=
          Nat.mul_le_mul_left _ (Nat.pow_le_pow_right (by decide) hk)
      _ = MAX_PREFETCH_SIZE := by decide

theorem perform_treesFollow (g : Gpu) (a : Action) : TreesFollow g (perform cfg g a) := by
  cases a with
  | cudaMallocManaged cpu size => exact cudaMallocManaged_treesFollow cfg g cpu size
  | cudaMalloc size => exact Grows.unnoticed (.of_same rfl rfl) id
  | host_write a v => exact (host_write_grows g a v).unnoticed id
  | cudaSetupArgument p =>
    refine (cudaSetupArgument_grows g p).unnoticed fun h => ?_
    rw [cudaSetupArgument_frame]
    exact h
  | cudaMemPrefetchAsync p n s =>
    refine (cudaMemPrefetchAsync_grows cfg g p n s).unnoticed fun h => ?_
    rw [cudaMemPrefetchAsync_frame]
    exact h
  | activate_prefetch a n s => exact (activate_prefetch_grows g a n s).unnoticed id
  | log_kernel_start k => exact Grows.unnoticed (.of_same rfl rfl) id
  | log_kernel_finish k => exact Grows.unnoticed (.of_same rfl rfl) id
  | cudaDeviceSynchronize =>
    exact (cudaDeviceSynchronize_grows cfg g).unnoticed fun h =>
      treesOk_map h LpTree.shape_reset_lp_tree_node
        fun _ hwf => (LpTree.wellFormed_reset_lp_tree_node hwf).1
  | issue sid w bytes => exact Grows.unnoticed (.of_same rfl rfl) id
  | dispatch sid k => exact Grows.unnoticed (.of_same rfl rfl) id
  | ldst_cycle sid p => exact ldst_cycle_treesFollow cfg g sid p
  | icnt_cycle c =>
    refine (icnt_cycle_grows cfg g c).unnoticed fun h => ?_
    rw [icnt_cycle_frame]
    exact h
  | do_atomic sid k bytes => exact (do_atomic_grows cfg g bytes).unnoticed id
  | answer sid k how =>
    refine (answer_grows cfg g sid k how).unnoticed fun h => ?_
    rw [answer_frame]
    exact h
  | gmmu_cycle => exact gmmu_cycle_treesFollow cfg g
  | tick => exact Grows.unnoticed (.of_same rfl rfl) id

/-! ## The law of the trees -/

/-- In every run whose calls of `update_basic_block` all find room, every node
counts what its children count and never more than its size. -/
theorem the_trees_stay_sound {g : Gpu} (hr : Reachable cfg g)
    (hfit : g.history.all Event.blockFits = true) : ∀ t ∈ g.large_page_info, t.Sound := by
  have hok : TreesOk g.large_page_info :=
    invariant_of_steps cfg (fun g => TreesOk g.large_page_info)
      (fun t ht => absurd ht List.not_mem_nil)
      (fun g a _ => perform_treesFollow cfg g a) hr hfit
  exact fun t ht => (hok t ht).1.sound

/-- A run that meets the condition: a page of a fresh allocation is loaded. -/
def oneFault : List Action :=
  [.cudaMallocManaged 65536 131072, .cudaSetupArgument 65536] ++
    loadOn 0 [pageAccess 0 .GLOBAL_ACC_R 1] ++ deviceCycles 4

theorem the_trees_stay_sound_behind_one_fault :
    (run smallConfig (boot smallConfig) oneFault).isSome ∧
      ∀ t ∈ (stateAfter smallConfig oneFault).large_page_info, t.Sound :=
  ⟨by decide +kernel,
    the_trees_stay_sound smallConfig (reachable_stateAfter smallConfig oneFault)
      (by decide +kernel)⟩

/-- Two pages of one basic block fault in the same cycle. -/
def twoFaultsOfOneBlock : List Action :=
  [.cudaMallocManaged 65536 131072, .cudaSetupArgument 65536] ++
    loadOn 0 [pageAccess 0 .GLOBAL_ACC_R 1] ++ loadOn 1 [pageAccess 1 .GLOBAL_ACC_R 2] ++
    deviceCycles 2

/-- Under the sequential prefetcher the second fault finds its basic block full
and leaves it alone, but counts 64KB more for the tree above it. -/
theorem two_faults_of_one_block_unbalance_a_tree :
    ¬ ∀ (cfg : Config) (g : Gpu), Reachable cfg g → ∀ t ∈ g.large_page_info, t.Sound := by
  intro h
  have hrun := h { smallConfig with hardware_prefetch := .SEQUENTIAL_LOCAL } _
    (reachable_stateAfter _ twoFaultsOfOneBlock)
  revert hrun
  decide +kernel

end gpgpu_sim_uvm
