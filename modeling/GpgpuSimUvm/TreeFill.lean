-- The tree prefetcher: `traverse_and_fill_lp_tree` fills a tree by the rule of majorities,
-- up to the least set of blocks that the rule leaves alone.
import GpgpuSimUvm.AccessWords
import GpgpuSimUvm.MajorityTrees

namespace gpgpu_sim_uvm

namespace LpTree

open majority_trees

/-! ## The blocks of a tree -/

/-- The tree of the block addresses. -/
def blocks : LpTree → LeafTree Nat
  | leaf d => .leaf d.addr
  | node _ l r => .node l.blocks r.blocks

/-- The addresses of the blocks that are not empty. -/
def validBlocks : LpTree → Finset Nat
  | leaf d => if d.valid_size = 0 then ∅ else {d.addr}
  | node _ l r => l.validBlocks ∪ r.validBlocks

theorem validBlocks_subset (t : LpTree) : t.validBlocks ⊆ t.blocks.leafSet := by
  induction t with
  | leaf d =>
    rw [validBlocks]
    split_ifs
    · exact Finset.empty_subset _
    · exact Finset.Subset.refl _
  | node d l r ihl ihr => exact Finset.union_subset_union ihl ihr

theorem Tiled.of_shape {t u : LpTree} (h : t.shape = u.shape) (ht : t.Tiled) : u.Tiled := by
  induction t generalizing u with
  | leaf d =>
    cases u with
    | leaf e =>
      have hsize := size_of_shape h
      exact hsize.symm.trans ht
    | node e l r => cases h
  | node d l r ihl ihr =>
    cases u with
    | leaf e => cases h
    | node e l' r' =>
      have haddr : d.addr = e.addr := addr_of_shape h
      have hsize : d.size = e.size := size_of_shape h
      simp only [shape, node.injEq] at h
      obtain ⟨hl, hr, hs, htl, htr⟩ := ht
      have hal := addr_of_shape h.2.1
      have har := addr_of_shape h.2.2
      have hsl := size_of_shape h.2.1
      have hsr := size_of_shape h.2.2
      exact ⟨by omega, by omega, by omega, ihl h.2.1 htl, ihr h.2.2 htr⟩

theorem blocks_of_shape {t u : LpTree} (h : t.shape = u.shape) : t.blocks = u.blocks := by
  induction t generalizing u with
  | leaf d =>
    cases u with
    | leaf e => exact congrArg LeafTree.leaf (addr_of_shape h)
    | node e l r => cases h
  | node d l r ihl ihr =>
    cases u with
    | leaf e => cases h
    | node e l' r' =>
      simp only [shape, node.injEq] at h
      rw [blocks, blocks, ihl h.2.1, ihr h.2.2]

theorem Tiled.leafSet_bounds {t : LpTree} (h : t.Tiled) {a : Nat} (ha : a ∈ t.blocks.leafSet) :
    t.addr ≤ a ∧ a < t.addr + t.size := by
  induction t with
  | leaf d =>
    have hs : (leaf d).size = MIN_PREFETCH_SIZE := h
    have hpos : 0 < MIN_PREFETCH_SIZE := by decide
    rw [Finset.mem_singleton.mp ha, hs]
    exact ⟨le_refl _, Nat.lt_add_of_pos_right hpos⟩
  | node d l r ihl ihr =>
    obtain ⟨hl, hr, hs, htl, htr⟩ := h
    have haddr : (node d l r).addr = d.addr := rfl
    have hsize : (node d l r).size = d.size := rfl
    rcases Finset.mem_union.mp ha with ha | ha
    · have hin := ihl htl ha
      omega
    · have hin := ihr htr ha
      omega

theorem Tiled.disjoint {d : LpData} {l r : LpTree} (h : (node d l r).Tiled) :
    Disjoint l.blocks.leafSet r.blocks.leafSet := by
  rw [Finset.disjoint_left]
  intro a hal har
  obtain ⟨hl, hr, hs, htl, htr⟩ := h
  have h1 := htl.leafSet_bounds hal
  have h2 := htr.leafSet_bounds har
  omega

theorem Tiled.separate {t : LpTree} (h : t.Tiled) : t.blocks.Separate := by
  induction t with
  | leaf d => trivial
  | node d l r ihl ihr => exact ⟨h.disjoint, ihl h.2.2.2.1, ihr h.2.2.2.2⟩

theorem Tiled.size_eq {t : LpTree} (h : t.Tiled) :
    t.size = t.blocks.leafSet.card * MIN_PREFETCH_SIZE := by
  induction t with
  | leaf d =>
    have hs : (leaf d).size = MIN_PREFETCH_SIZE := h
    rw [hs, blocks, LeafTree.leafSet, Finset.card_singleton, Nat.one_mul]
  | node d l r ihl ihr =>
    have hdisjoint := h.disjoint
    obtain ⟨hl, hr, hs, htl, htr⟩ := h
    have hsize : (node d l r).size = d.size := rfl
    rw [hsize, hs, ihl htl, ihr htr, blocks, LeafTree.leafSet,
      Finset.card_union_of_disjoint hdisjoint, Nat.add_mul]

/-- The valid blocks of a node, seen from its left side and from its right one. -/
theorem Tiled.sides {d : LpData} {l r : LpTree} (h : (node d l r).Tiled) {V W : Finset Nat}
    (hV : V ⊆ l.blocks.leafSet) (hW : W ⊆ r.blocks.leafSet) :
    l.blocks.leafSet ∩ (V ∪ W) = l.blocks.leafSet ∩ V ∧
      r.blocks.leafSet ∩ (V ∪ W) = r.blocks.leafSet ∩ W := by
  have hlW : l.blocks.leafSet ∩ W = ∅ :=
    Finset.disjoint_iff_inter_eq_empty.mp (Finset.disjoint_of_subset_right hW h.disjoint)
  have hrV : r.blocks.leafSet ∩ V = ∅ :=
    Finset.disjoint_iff_inter_eq_empty.mp (Finset.disjoint_of_subset_right hV h.disjoint.symm)
  refine ⟨?_, ?_⟩
  · rw [Finset.inter_union_distrib_left, hlW, Finset.union_empty]
  · rw [Finset.inter_union_distrib_left, hrV, Finset.empty_union]

/-! ## Counting -/

/-- Every block is empty or full. -/
def Binary (t : LpTree) : Prop :=
  ∀ d ∈ t.leaves, d.valid_size = 0 ∨ d.valid_size = MIN_PREFETCH_SIZE

/-- Every inner node counts what its children count. -/
def Counts : LpTree → Prop
  | leaf _ => True
  | node d l r => d.valid_size = l.valid_size + r.valid_size ∧ l.Counts ∧ r.Counts

/-- Every inner node is at most half full, or full. -/
def HalfOrFull : LpTree → Prop
  | leaf _ => True
  | node d l r =>
    (d.valid_size ≤ d.size / 2 ∨ d.valid_size = d.size) ∧ l.HalfOrFull ∧ r.HalfOrFull

theorem binary_node {d : LpData} {l r : LpTree} : (node d l r).Binary ↔ l.Binary ∧ r.Binary := by
  simp only [Binary, leaves, List.mem_append, or_imp, forall_and]

theorem Counts.valid_size_eq {t : LpTree} (h : t.Counts) (ht : t.Tiled) (hb : t.Binary) :
    t.valid_size = t.validBlocks.card * MIN_PREFETCH_SIZE := by
  induction t with
  | leaf d =>
    have hvalid : (leaf d).valid_size = d.valid_size := rfl
    rw [validBlocks, hvalid]
    rcases hb d (List.mem_singleton.mpr rfl) with hzero | hfull
    · rw [if_pos hzero, hzero, Finset.card_empty, Nat.zero_mul]
    · have hne : d.valid_size ≠ 0 := by
        rw [hfull]
        decide
      rw [if_neg hne, hfull, Finset.card_singleton, Nat.one_mul]
  | node d l r ihl ihr =>
    have hdisjoint := Finset.disjoint_of_subset_left (validBlocks_subset l)
      (Finset.disjoint_of_subset_right (validBlocks_subset r) ht.disjoint)
    obtain ⟨hbl, hbr⟩ := binary_node.mp hb
    have hvalid : (node d l r).valid_size = d.valid_size := rfl
    rw [hvalid, h.1, ihl h.2.1 ht.2.2.2.1 hbl, ihr h.2.2 ht.2.2.2.2 hbr, validBlocks,
      Finset.card_union_of_disjoint hdisjoint, Nat.add_mul]

/-- A tree whose valid blocks are settled is half full at most, or full, at every node. -/
theorem Counts.halfOrFull {t : LpTree} (h : t.Counts) (ht : t.Tiled) (hb : t.Binary)
    (hs : t.blocks.Settled t.validBlocks) : t.HalfOrFull := by
  induction t with
  | leaf d => trivial
  | node d l r ihl ihr =>
    have hvalid := h.valid_size_eq ht hb
    have hsize := ht.size_eq
    obtain ⟨hsl, hsr⟩ := ht.sides (validBlocks_subset l) (validBlocks_subset r)
    obtain ⟨hbl, hbr⟩ := binary_node.mp hb
    obtain ⟨hhalf, hl, hr⟩ := hs
    refine ⟨?_, ihl h.2.1 ht.2.2.2.1 hbl ((LeafTree.settled_congr hsl).mp hl),
      ihr h.2.2 ht.2.2.2.2 hbr ((LeafTree.settled_congr hsr).mp hr)⟩
    have hinter : (l.blocks.leafSet ∪ r.blocks.leafSet) ∩ (node d l r).validBlocks =
        (node d l r).validBlocks := Finset.inter_eq_right.mpr (validBlocks_subset (node d l r))
    have hd : (node d l r).valid_size = d.valid_size := rfl
    have hds : (node d l r).size = d.size := rfl
    rw [hd] at hvalid
    rw [hds] at hsize
    rcases hhalf with hhalf | hall
    · left
      rw [hinter] at hhalf
      have hmul := Nat.mul_le_mul_right MIN_PREFETCH_SIZE hhalf
      have hleaf : (node d l r).blocks.leafSet = l.blocks.leafSet ∪ r.blocks.leafSet := rfl
      rw [← hleaf, ← hsize, Nat.mul_assoc, ← hvalid] at hmul
      omega
    · right
      have heq : (node d l r).validBlocks = (node d l r).blocks.leafSet :=
        Finset.Subset.antisymm (validBlocks_subset _) hall
      rw [hvalid, heq, hsize]

/-! ## One filled tree -/

/-- A leaf stays, or goes from empty to full. -/
def LeafFilled (d d' : LpData) : Prop :=
  d' = d ∨ d.valid_size = 0 ∧ d' = { d with valid_size := MIN_PREFETCH_SIZE }

/-- What a filling of a tree makes: `V` is what is valid behind it. -/
structure Fills (t : LpTree) (bs : BlockSet) (V : Finset Nat) (r : LpTree × BlockSet) : Prop where
  counts : r.1.Counts
  binary : r.1.Binary
  leaves : List.Forall₂ LeafFilled t.leaves r.1.leaves
  valid : r.1.validBlocks = V
  added : ∀ a, r.2.contains a = true ↔ bs.contains a = true ∨ a ∈ V \ t.validBlocks

theorem LeafFilled.trans {d e f : LpData} (h : LeafFilled d e) (h' : LeafFilled e f) :
    LeafFilled d f := by
  rcases h with rfl | ⟨hzero, rfl⟩
  · exact h'
  · rcases h' with rfl | ⟨hempty, -⟩
    · exact Or.inr ⟨hzero, rfl⟩
    · simp [MIN_PREFETCH_SIZE] at hempty

theorem forall₂_trans {as bs cs : List LpData} (h : List.Forall₂ LeafFilled as bs)
    (h' : List.Forall₂ LeafFilled bs cs) : List.Forall₂ LeafFilled as cs := by
  induction h generalizing cs with
  | nil => exact h'
  | cons hd _ ih =>
    cases h' with
    | cons hd' htl' => exact .cons (hd.trans hd') (ih htl')

/-- The sum of a node is the sum of its children, as long as it is no larger than the node. -/
theorem sumNode_eq {d : LpData} {l r : LpTree} (h : l.valid_size + r.valid_size < SIZE_T) :
    sumNode d l r = node { d with valid_size := l.valid_size + r.valid_size } l r := by
  rw [sumNode, Nat.mod_eq_of_lt h]

theorem Counts.valid_size_le {t : LpTree} (h : t.Counts) (ht : t.Tiled) (hb : t.Binary) :
    t.valid_size ≤ t.size := by
  rw [h.valid_size_eq ht hb, ht.size_eq]
  exact Nat.mul_le_mul_right _ (Finset.card_le_card (validBlocks_subset t))

/-- Two filled children make a filled node. -/
theorem fills_sumNode {d : LpData} {l r : LpTree} (ht : (node d l r).Tiled)
    (hsize : d.size < SIZE_T) {bs : BlockSet} {V W : Finset Nat} {l' r' : LpTree × BlockSet}
    (hlt : l.shape = l'.1.shape) (hrt : r.shape = r'.1.shape) (hl : Fills l bs V l')
    (hr : Fills r l'.2 W r') :
    Fills (node d l r) bs (V ∪ W) (sumNode d l'.1 r'.1, r'.2) ∧
      (sumNode d l'.1 r'.1).valid_size = (V ∪ W).card * MIN_PREFETCH_SIZE := by
  have hltiled := Tiled.of_shape hlt ht.2.2.2.1
  have hrtiled := Tiled.of_shape hrt ht.2.2.2.2
  have hle := hl.counts.valid_size_le hltiled hl.binary
  have hre := hr.counts.valid_size_le hrtiled hr.binary
  have hsum : l'.1.valid_size + r'.1.valid_size < SIZE_T := by
    have hs := ht.2.2.1
    rw [← size_of_shape hlt] at hle
    rw [← size_of_shape hrt] at hre
    omega
  have hV : V ⊆ l.blocks.leafSet := by
    rw [← hl.valid, blocks_of_shape hlt]
    exact validBlocks_subset _
  have hW : W ⊆ r.blocks.leafSet := by
    rw [← hr.valid, blocks_of_shape hrt]
    exact validBlocks_subset _
  have hVW : Disjoint V W :=
    Finset.disjoint_of_subset_left hV (Finset.disjoint_of_subset_right hW ht.disjoint)
  rw [sumNode_eq hsum]
  refine ⟨⟨⟨rfl, hl.counts, hr.counts⟩, binary_node.mpr ⟨hl.binary, hr.binary⟩, ?_, ?_, ?_⟩, ?_⟩
  · exact List.rel_append hl.leaves hr.leaves
  · rw [validBlocks, hl.valid, hr.valid]
  · intro a
    have hal : a ∈ V → a ∉ r.validBlocks := fun h hmem =>
      Finset.disjoint_left.mp ht.disjoint (hV h) (validBlocks_subset r hmem)
    have har : a ∈ W → a ∉ l.validBlocks := fun h hmem =>
      Finset.disjoint_left.mp ht.disjoint (validBlocks_subset l hmem) (hW h)
    rw [hr.added, hl.added]
    simp only [validBlocks, Finset.mem_sdiff, Finset.mem_union]
    tauto
  · change l'.1.valid_size + r'.1.valid_size = _
    rw [hl.counts.valid_size_eq hltiled hl.binary, hr.counts.valid_size_eq hrtiled hr.binary,
      hl.valid, hr.valid, Finset.card_union_of_disjoint hVW, Nat.add_mul]

/-- A second filling goes on where the first ended. -/
theorem Fills.trans {t : LpTree} {bs : BlockSet} {V W : Finset Nat} {r r' : LpTree × BlockSet}
    (h : Fills t bs V r) (h' : Fills r.1 r.2 W r') (hV : t.validBlocks ⊆ V) (hVW : V ⊆ W) :
    Fills t bs W r' := by
  refine ⟨h'.counts, h'.binary, forall₂_trans h.leaves h'.leaves, h'.valid, ?_⟩
  intro a
  have hmem : a ∈ t.validBlocks → a ∈ V := fun ha => hV ha
  have hsub : a ∈ V → a ∈ W := fun ha => hVW ha
  rw [h'.added, h.added, h.valid]
  simp only [Finset.mem_sdiff]
  tauto

/-! ## The two traversals -/

/-- `fill_lp_tree` fills every block. -/
theorem fills_fill_lp_tree {t : LpTree} (ht : t.Tiled) (hb : t.Binary) (hsize : t.size < SIZE_T)
    (bs : BlockSet) : Fills t bs t.blocks.leafSet (t.fill_lp_tree bs) := by
  induction t generalizing bs with
  | leaf d =>
    rw [fill_lp_tree]
    by_cases hzero : d.valid_size = 0
    · rw [if_pos hzero]
      refine ⟨trivial, ?_, .cons (Or.inr ⟨hzero, rfl⟩) .nil, ?_, ?_⟩
      · simp [Binary, leaves]
      · simp [validBlocks, blocks, LeafTree.leafSet, MIN_PREFETCH_SIZE]
      · intro a
        simp only [StdMap.contains_alter, Bool.or_eq_true, decide_eq_true_eq]
        simp [validBlocks, hzero, blocks, LeafTree.leafSet, or_comm]
    · rw [if_neg hzero]
      refine ⟨trivial, hb, .cons (Or.inl rfl) .nil, ?_, ?_⟩
      · simp [validBlocks, hzero, blocks, LeafTree.leafSet]
      · intro a
        simp [validBlocks, hzero, blocks, LeafTree.leafSet]
  | node d l r ihl ihr =>
    have hs := ht.2.2.1
    have hds : (node d l r).size = d.size := rfl
    rw [hds] at hsize
    obtain ⟨hbl, hbr⟩ := binary_node.mp hb
    have hl := ihl ht.2.2.2.1 hbl (by omega) bs
    have hr := ihr ht.2.2.2.2 hbr (by omega) (l.fill_lp_tree bs).2
    exact (fills_sumNode ht hsize (shape_fill_lp_tree l _).symm (shape_fill_lp_tree r _).symm
      hl hr).1

/-- `traverse_and_fill_lp_tree` expands the valid blocks by the rule of majorities. -/
theorem fills_traverse {t : LpTree} (ht : t.Tiled) (hb : t.Binary) (hsize : t.size < SIZE_T)
    (bs : BlockSet) :
    Fills t bs (t.blocks.expand t.validBlocks) (t.traverse_and_fill_lp_tree bs) := by
  induction t generalizing bs with
  | leaf d =>
    refine ⟨trivial, hb, .cons (Or.inl rfl) .nil, ?_, ?_⟩
    · exact (Finset.inter_eq_right.mpr (validBlocks_subset (leaf d))).symm
    · intro a
      rw [blocks, LeafTree.expand]
      simp only [Finset.mem_sdiff, Finset.mem_inter, traverse_and_fill_lp_tree]
      tauto
  | node d l r ihl ihr =>
    have hs := ht.2.2.1
    have hds : (node d l r).size = d.size := rfl
    rw [hds] at hsize
    obtain ⟨hbl, hbr⟩ := binary_node.mp hb
    have hlshape := (shape_traverse_and_fill_lp_tree l bs).symm
    have hrshape := (shape_traverse_and_fill_lp_tree r (l.traverse_and_fill_lp_tree bs).2).symm
    obtain ⟨hfills, hvalid⟩ := fills_sumNode ht hsize hlshape hrshape
      (ihl ht.2.2.2.1 hbl (by omega) bs)
      (ihr ht.2.2.2.2 hbr (by omega) (l.traverse_and_fill_lp_tree bs).2)
    obtain ⟨hsl, hsr⟩ := ht.sides (validBlocks_subset l) (validBlocks_subset r)
    have hsize' := ht.size_eq
    rw [hds] at hsize'
    rw [traverse_and_fill_lp_tree]
    simp only [blocks, LeafTree.expand, validBlocks, LeafTree.expand_congr hsl,
      LeafTree.expand_congr hsr]
    -- the test of the code against the rule
    have hleaf : (node d l r).blocks.leafSet = l.blocks.leafSet ∪ r.blocks.leafSet := rfl
    rw [hleaf] at hsize'
    have hpos : 0 < MIN_PREFETCH_SIZE := by decide
    generalize hW : l.blocks.expand l.validBlocks ∪ r.blocks.expand r.validBlocks = W at *
    have hsub : W ⊆ l.blocks.leafSet ∪ r.blocks.leafSet := by
      rw [← hW]
      exact Finset.union_subset_union (LeafTree.expand_subset _ _) (LeafTree.expand_subset _ _)
    have hcard := Finset.card_le_card hsub
    by_cases hmany : (l.blocks.leafSet ∪ r.blocks.leafSet).card < 2 * W.card
    · rw [if_pos hmany]
      have hhalf : d.size / 2 < W.card * MIN_PREFETCH_SIZE := by
        have hmul := Nat.mul_lt_mul_of_pos_right hmany hpos
        rw [← hsize', Nat.mul_assoc] at hmul
        omega
      split_ifs with htest
      · have hshape : (node d l r).shape = (sumNode d (l.traverse_and_fill_lp_tree bs).1
            (r.traverse_and_fill_lp_tree (l.traverse_and_fill_lp_tree bs).2).1).shape := by
          simp [shape, sumNode, hlshape, hrshape]
        have hrest := fills_fill_lp_tree (Tiled.of_shape hshape ht) hfills.binary
          (by rw [← size_of_shape hshape]; exact hsize)
          (r.traverse_and_fill_lp_tree (l.traverse_and_fill_lp_tree bs).2).2
        rw [← blocks_of_shape hshape] at hrest
        refine hfills.trans hrest ?_ hsub
        rw [validBlocks, ← hW]
        have hlsub : l.validBlocks ⊆ l.blocks.expand l.validBlocks := by
          have hle := LeafTree.subset_expand l.validBlocks l.blocks
          rwa [Finset.inter_eq_right.mpr (validBlocks_subset l)] at hle
        have hrsub : r.validBlocks ⊆ r.blocks.expand r.validBlocks := by
          have hle := LeafTree.subset_expand r.validBlocks r.blocks
          rwa [Finset.inter_eq_right.mpr (validBlocks_subset r)] at hle
        exact Finset.union_subset_union hlsub hrsub
      · have hfull : W = l.blocks.leafSet ∪ r.blocks.leafSet := by
          apply Finset.eq_of_subset_of_card_le hsub
          rw [hvalid] at htest
          have heq : W.card * MIN_PREFETCH_SIZE = d.size := by omega
          rw [hsize'] at heq
          exact Nat.le_of_eq (Nat.eq_of_mul_eq_mul_right hpos heq).symm
        rw [← hfull]
        exact hfills
    · rw [if_neg hmany]
      have hhalf : ¬ d.size / 2 < W.card * MIN_PREFETCH_SIZE := by
        have hmul := Nat.mul_le_mul_right MIN_PREFETCH_SIZE (Nat.le_of_not_lt hmany)
        rw [← hsize', Nat.mul_assoc] at hmul
        omega
      rw [if_neg (by rw [hvalid]; exact fun h => hhalf h.2)]
      exact hfills

/-- A tree that is half full at most, or full, at every node is left alone. -/
theorem traverse_of_halfOrFull {t : LpTree} (h : t.Counts) (hh : t.HalfOrFull) (ht : t.Tiled)
    (hb : t.Binary) (hsize : t.size < SIZE_T) (bs : BlockSet) :
    t.traverse_and_fill_lp_tree bs = (t, bs) := by
  induction t generalizing bs with
  | leaf d => rfl
  | node d l r ihl ihr =>
    have hle := h.valid_size_le ht hb
    have hs := ht.2.2.1
    have hds : (node d l r).size = d.size := rfl
    have hdv : (node d l r).valid_size = d.valid_size := rfl
    rw [hds] at hsize hle
    rw [hdv] at hle
    obtain ⟨hbl, hbr⟩ := binary_node.mp hb
    have hsum : sumNode d l r = node d l r := by
      have hvalid := h.1
      rw [sumNode_eq (by omega), ← hvalid]
    rw [traverse_and_fill_lp_tree]
    simp only [ihl h.2.1 hh.2.1 ht.2.2.2.1 hbl (by omega),
      ihr h.2.2 hh.2.2 ht.2.2.2.2 hbr (by omega), hsum]
    have htest : ¬ (d.valid_size ≠ d.size ∧ d.valid_size > d.size / 2) := by
      have hhalf := hh.1
      omega
    exact if_neg htest

/-! ## The least closed fill -/

theorem build_lp_tree_size (a s : Nat) : (build_lp_tree a s).size = s := by
  rw [build_lp_tree]
  cases s.log2 with
  | zero => rfl
  | succ levels =>
    rw [buildLevels]
    split_ifs <;> rfl

/-- What the prefetcher leaves of a tree and of the scheduled blocks. -/
structure LeastFill (t : LpTree) (bs : BlockSet) (r : LpTree × BlockSet) : Prop where
  shape : r.1.shape = t.shape
  counts : r.1.Counts
  half_or_full : r.1.HalfOrFull
  leaves : List.Forall₂ LeafFilled t.leaves r.1.leaves
  added : ∀ a, r.2.contains a = true ↔
    bs.contains a = true ∨ a ∈ r.1.validBlocks \ t.validBlocks
  least : IsLeast {V | t.validBlocks ⊆ V ∧ t.blocks.Settled V} r.1.validBlocks
  again : ∀ bs, r.1.traverse_and_fill_lp_tree bs = (r.1, bs)

/-- The tree prefetcher computes the least closed fill of every tree of blocks that are empty
or full. -/
theorem tree_prefetch_is_least {a k : Nat} {t : LpTree} (bs : BlockSet)
    (hbuilt : t.shape = (build_lp_tree a (MIN_PREFETCH_SIZE * 2 ^ k)).shape)
    (hsize : MIN_PREFETCH_SIZE * 2 ^ k < SIZE_T) (hb : t.Binary) :
    LeastFill t bs (t.traverse_and_fill_lp_tree bs) := by
  have ht : t.Tiled := Tiled.of_shape hbuilt.symm (tiled_build_lp_tree a k)
  have hts : t.size < SIZE_T := by
    rw [size_of_shape hbuilt, build_lp_tree_size]
    exact hsize
  have hfills := fills_traverse ht hb hts bs
  have hshape := shape_traverse_and_fill_lp_tree t bs
  have htiled := Tiled.of_shape hshape.symm ht
  have hsettled : (t.traverse_and_fill_lp_tree bs).1.blocks.Settled
      (t.traverse_and_fill_lp_tree bs).1.validBlocks := by
    rw [hfills.valid, blocks_of_shape hshape]
    exact LeafTree.settled_expand _ ht.separate
  have hhalf := hfills.counts.halfOrFull htiled hfills.binary hsettled
  refine ⟨hshape, hfills.counts, hhalf, hfills.leaves, ?_, ?_, ?_⟩
  · rw [hfills.valid]
    exact hfills.added
  · rw [hfills.valid]
    have hleast := LeafTree.isLeast_expand t.validBlocks ht.separate
    rwa [Finset.inter_eq_right.mpr (validBlocks_subset t)] at hleast
  · apply traverse_of_halfOrFull hfills.counts hhalf htiled hfills.binary
    rw [size_of_shape hshape]
    exact hts

/-- A tree of four blocks with three of them valid. -/
def threeOfFour : LpTree :=
  node { addr := 0, size := 262144 }
    (node { addr := 0, size := 131072 } (leaf { addr := 0, size := 65536, valid_size := 65536 })
      (leaf { addr := 65536, size := 65536, valid_size := 65536 }))
    (node { addr := 131072, size := 131072 }
      (leaf { addr := 131072, size := 65536, valid_size := 65536 })
      (leaf { addr := 196608, size := 65536 }))

theorem three_of_four_is_least :
    LeastFill threeOfFour .empty (threeOfFour.traverse_and_fill_lp_tree .empty) := by
  apply tree_prefetch_is_least .empty (a := 0) (k := 2)
  · decide +kernel
  · simp [MIN_PREFETCH_SIZE, SIZE_T]
  · simp [Binary, leaves, threeOfFour, MIN_PREFETCH_SIZE]

end LpTree

end gpgpu_sim_uvm
