-- The tree eviction: `traverse_and_remove_lp_tree` gives up full evictable blocks only, and
-- every such block below a node that is less than half full.
import GpgpuSimUvm.TreeFill

namespace gpgpu_sim_uvm

namespace LpTree

/-! ## Cleared leaves -/

/-- A block that can be given up: it is full, and it passes the test. -/
def Removable (evictable : Nat → Bool) (d : LpData) : Prop :=
  d.valid_size = MIN_PREFETCH_SIZE ∧ evictable d.addr = true

/-- A leaf stays, or is given up. -/
def LeafRemoved (evictable : Nat → Bool) (d d' : LpData) : Prop :=
  d' = d ∨ Removable evictable d ∧ d' = { d with valid_size := 0 }

/-- The addresses of the leaves that changed. -/
def cleared (ds es : List LpData) : List Nat :=
  ((ds.zip es).filter fun p => p.1 ≠ p.2).map fun p => p.1.addr

theorem mem_cleared_cons {d e : LpData} {ds es : List LpData} {a : Nat} :
    a ∈ cleared (d :: ds) (e :: es) ↔ d ≠ e ∧ d.addr = a ∨ a ∈ cleared ds es := by
  rw [cleared, List.zip_cons_cons, List.filter_cons]
  by_cases h : d = e
  · simp [h, cleared]
  · have hhead : decide ((d, e).1 ≠ (d, e).2) = true := decide_eq_true h
    rw [if_pos hhead, List.map_cons, List.mem_cons, ← cleared, eq_comm, and_iff_right h]

theorem mem_cleared_append {ds es ds' es' : List LpData} (h : ds.length = es.length) {a : Nat} :
    a ∈ cleared (ds ++ ds') (es ++ es') ↔ a ∈ cleared ds es ∨ a ∈ cleared ds' es' := by
  simp only [cleared, List.zip_append h, List.filter_append, List.map_append, List.mem_append]

variable {ev : Nat → Bool}

theorem not_removable_empty (d : LpData) : ¬ Removable ev { d with valid_size := 0 } := by
  simp [Removable, MIN_PREFETCH_SIZE]

theorem cleared_ne {d : LpData} (h : Removable ev d) : d ≠ { d with valid_size := 0 } := by
  intro heq
  have hvalid := congrArg LpData.valid_size heq
  rw [h.1] at hvalid
  simp [MIN_PREFETCH_SIZE] at hvalid

theorem LeafRemoved.trans {d e f : LpData} (h : LeafRemoved ev d e) (h' : LeafRemoved ev e f) :
    LeafRemoved ev d f := by
  rcases h with rfl | ⟨hfull, rfl⟩
  · exact h'
  · rcases h' with rfl | ⟨hagain, -⟩
    · exact Or.inr ⟨hfull, rfl⟩
    · exact absurd hagain (not_removable_empty d)

/-- A leaf of two runs changed in one of them. -/
theorem LeafRemoved.changed_iff {d e f : LpData} (h : LeafRemoved ev d e)
    (h' : LeafRemoved ev e f) (a : Nat) :
    d ≠ f ∧ d.addr = a ↔ d ≠ e ∧ d.addr = a ∨ e ≠ f ∧ e.addr = a := by
  rcases h with rfl | ⟨hfull, rfl⟩
  · simp
  · rcases h' with rfl | ⟨hagain, -⟩
    · simp
    · exact absurd hagain (not_removable_empty d)

theorem forall₂_removed_trans {as bs cs : List LpData} (h : List.Forall₂ (LeafRemoved ev) as bs)
    (h' : List.Forall₂ (LeafRemoved ev) bs cs) :
    List.Forall₂ (LeafRemoved ev) as cs ∧
      ∀ a, a ∈ cleared as cs ↔ a ∈ cleared as bs ∨ a ∈ cleared bs cs := by
  induction h generalizing cs with
  | nil =>
    cases h'
    exact ⟨.nil, fun a => by simp⟩
  | cons hd _ ih =>
    cases h' with
    | cons hd' htl' =>
      obtain ⟨hall, hmem⟩ := ih htl'
      refine ⟨.cons (hd.trans hd') hall, fun a => ?_⟩
      rw [mem_cleared_cons, mem_cleared_cons, mem_cleared_cons, hmem, hd.changed_iff hd']
      tauto

/-! ## One removal -/

/-- The bytes of the leaves. -/
def total (t : LpTree) : Nat := (t.leaves.map LpData.valid_size).sum

theorem total_node (d : LpData) (l r : LpTree) : (node d l r).total = l.total + r.total := by
  rw [total, leaves, List.map_append, List.sum_append, total, total]

theorem Counts.valid_size_eq_total {t : LpTree} (h : t.Counts) : t.valid_size = t.total := by
  induction t with
  | leaf d =>
    rw [total, leaves]
    simp [valid_size, data]
  | node d l r ihl ihr =>
    rw [total_node, ← ihl h.2.1, ← ihr h.2.2]
    exact h.1

/-- What a removal makes of a tree and of the scheduled blocks. -/
structure Removes (ev : Nat → Bool) (t : LpTree) (bs : BlockSet) (r : LpTree × BlockSet) :
    Prop where
  counts : r.1.Counts
  total_le : r.1.total ≤ t.total
  leaves : List.Forall₂ (LeafRemoved ev) t.leaves r.1.leaves
  added : ∀ a, r.2.contains a = true ↔ bs.contains a = true ∨ a ∈ cleared t.leaves r.1.leaves

theorem removes_self {d : LpData} (bs : BlockSet) : Removes ev (leaf d) bs (leaf d, bs) := by
  refine ⟨trivial, le_refl _, .cons (Or.inl rfl) .nil, fun a => ?_⟩
  simp [LpTree.leaves, cleared]

theorem removes_sumNode {d : LpData} {l r : LpTree} {bs : BlockSet} {l' r' : LpTree × BlockSet}
    (hl : Removes ev l bs l') (hr : Removes ev r l'.2 r')
    (hsize : (node d l r).total < SIZE_T) :
    Removes ev (node d l r) bs (sumNode d l'.1 r'.1, r'.2) := by
  have hvl := hl.counts.valid_size_eq_total
  have hvr := hr.counts.valid_size_eq_total
  have hle := hl.total_le
  have hre := hr.total_le
  rw [total_node] at hsize
  have hsum : l'.1.valid_size + r'.1.valid_size < SIZE_T := by omega
  rw [sumNode_eq hsum]
  refine ⟨⟨rfl, hl.counts, hr.counts⟩, ?_, List.rel_append hl.leaves hr.leaves, fun a => ?_⟩
  · rw [total_node, total_node]
    exact Nat.add_le_add hle hre
  · rw [hr.added, hl.added, LpTree.leaves, LpTree.leaves, mem_cleared_append hl.leaves.length_eq]
    tauto

theorem Removes.trans {t : LpTree} {bs : BlockSet} {r r' : LpTree × BlockSet}
    (h : Removes ev t bs r) (h' : Removes ev r.1 r.2 r') : Removes ev t bs r' := by
  obtain ⟨hall, hmem⟩ := forall₂_removed_trans h.leaves h'.leaves
  refine ⟨h'.counts, le_trans h'.total_le h.total_le, hall, fun a => ?_⟩
  rw [h'.added, h.added, hmem]
  tauto

/-! ## The two traversals -/

/-- `remove_lp_tree` leaves no full evictable block. -/
theorem removes_remove_lp_tree {t : LpTree} (hsize : t.total < SIZE_T) (bs : BlockSet) :
    Removes ev t bs (t.remove_lp_tree ev bs) ∧
      ∀ e ∈ (t.remove_lp_tree ev bs).1.leaves, ¬ Removable ev e := by
  induction t generalizing bs with
  | leaf d =>
    rw [remove_lp_tree]
    by_cases hfull : d.valid_size = MIN_PREFETCH_SIZE ∧ ev d.addr = true
    · rw [if_pos hfull]
      refine ⟨⟨trivial, ?_, .cons (Or.inr ⟨hfull, rfl⟩) .nil, fun a => ?_⟩, ?_⟩
      · simp [total, LpTree.leaves]
      · rw [StdMap.contains_alter, LpTree.leaves, LpTree.leaves, mem_cleared_cons]
        have hremovable : Removable ev d := hfull
        have hne := cleared_ne hremovable
        simp only [hne, ne_eq, not_false_eq_true, true_and, Bool.or_eq_true, decide_eq_true_eq]
        simp [cleared, or_comm, eq_comm (a := a)]
      · intro e he
        rw [List.mem_singleton.mp he]
        exact not_removable_empty d
    · rw [if_neg hfull]
      refine ⟨removes_self bs, ?_⟩
      intro e he
      rw [List.mem_singleton.mp he]
      exact hfull
  | node d l r ihl ihr =>
    have hnode := hsize
    rw [total_node] at hsize
    obtain ⟨hl, hnol⟩ := ihl (by omega) bs
    obtain ⟨hr, hnor⟩ := ihr (by omega) (l.remove_lp_tree ev bs).2
    refine ⟨removes_sumNode hl hr hnode, ?_⟩
    intro e he
    rcases List.mem_append.mp he with he | he
    · exact hnol e he
    · exact hnor e he

/-- Below every node that is less than half full, and not empty, no block can be given up. -/
def Exhausted (ev : Nat → Bool) : LpTree → Prop
  | leaf _ => True
  | node d l r =>
    (0 < d.valid_size → d.valid_size < d.size / 2 → ∀ e ∈ (node d l r).leaves, ¬ Removable ev e) ∧
      l.Exhausted ev ∧ r.Exhausted ev

theorem exhausted_of_none {t : LpTree} (h : ∀ e ∈ t.leaves, ¬ Removable ev e) :
    t.Exhausted ev := by
  induction t with
  | leaf d => trivial
  | node d l r ihl ihr =>
    refine ⟨fun _ _ => h, ihl ?_, ihr ?_⟩
    · exact fun e he => h e (List.mem_append_left _ he)
    · exact fun e he => h e (List.mem_append_right _ he)

/-- A removal at a node settles the nodes below it, those that passed their test included. -/
theorem removes_traverse {t : LpTree} (hsize : t.total < SIZE_T) (bs : BlockSet) :
    Removes ev t bs (t.traverse_and_remove_lp_tree ev bs) ∧
      (t.traverse_and_remove_lp_tree ev bs).1.Exhausted ev := by
  induction t generalizing bs with
  | leaf d => exact ⟨removes_self bs, trivial⟩
  | node d l r ihl ihr =>
    have hnode := hsize
    rw [total_node] at hsize
    obtain ⟨hl, hel⟩ := ihl (by omega) bs
    obtain ⟨hr, her⟩ := ihr (by omega) (l.traverse_and_remove_lp_tree ev bs).2
    have hboth := removes_sumNode hl hr hnode
    rw [traverse_and_remove_lp_tree]
    simp only
    split_ifs with htest
    · have hless := lt_of_le_of_lt hboth.total_le hnode
      obtain ⟨hrest, hnone⟩ := removes_remove_lp_tree hless
        (r.traverse_and_remove_lp_tree ev (l.traverse_and_remove_lp_tree ev bs).2).2
      exact ⟨hboth.trans hrest, exhausted_of_none hnone⟩
    · refine ⟨hboth, ?_, hel, her⟩
      intro hpos hhalf
      exact absurd ⟨Nat.ne_of_gt hpos, hhalf⟩ htest

/-! ## What the threshold asks for -/

/-- What the eviction leaves of a tree and of the scheduled blocks. -/
structure ThresholdRemoval (ev : Nat → Bool) (t : LpTree) (bs : BlockSet)
    (r : LpTree × BlockSet) : Prop where
  shape : r.1.shape = t.shape
  leaves : List.Forall₂ (LeafRemoved ev) t.leaves r.1.leaves
  added : ∀ a, r.2.contains a = true ↔ bs.contains a = true ∨ a ∈ cleared t.leaves r.1.leaves
  counts : r.1.Counts
  exhausted : r.1.Exhausted ev

/-- The tree eviction removes what the threshold asks for, from every tree whose nodes count
what their children count. -/
theorem tree_eviction_removes (ev : Nat → Bool) {t : LpTree} (bs : BlockSet) (h : t.Counts)
    (hsize : t.valid_size < SIZE_T) :
    ThresholdRemoval ev t bs (t.traverse_and_remove_lp_tree ev bs) := by
  rw [h.valid_size_eq_total] at hsize
  obtain ⟨hremoves, hexhausted⟩ : Removes ev t bs (t.traverse_and_remove_lp_tree ev bs) ∧
      (t.traverse_and_remove_lp_tree ev bs).1.Exhausted ev := removes_traverse hsize bs
  exact ⟨shape_traverse_and_remove_lp_tree ev t bs, hremoves.leaves, hremoves.added,
    hremoves.counts, hexhausted⟩

/-- One full block in a tree of four. -/
def oneOfFour : LpTree :=
  node { addr := 0, size := 262144, valid_size := 65536 }
    (node { addr := 0, size := 131072, valid_size := 65536 }
      (leaf { addr := 0, size := 65536, valid_size := 65536 }) (leaf { addr := 65536, size := 65536 }))
    (node { addr := 131072, size := 131072 } (leaf { addr := 131072, size := 65536 })
      (leaf { addr := 196608, size := 65536 }))

theorem one_of_four_is_removed :
    ThresholdRemoval (fun _ => true) oneOfFour .empty
      (oneOfFour.traverse_and_remove_lp_tree (fun _ => true) .empty) := by
  apply tree_eviction_removes
  · simp [Counts, oneOfFour, valid_size, data]
  · simp [oneOfFour, valid_size, data, SIZE_T]

end LpTree

end gpgpu_sim_uvm
