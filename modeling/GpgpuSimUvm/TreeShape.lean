-- The shape of the large-page trees: which addresses their nodes stand for.
-- No operation changes it, so that what `build_lp_tree` made stays true.
import GpgpuSimUvm.LpTree

namespace gpgpu_sim_uvm

namespace LpTree

/-! ## Shapes -/

/-- The tree with nothing but its addresses and sizes. -/
def shape : LpTree → LpTree
  | leaf d => leaf { addr := d.addr, size := d.size }
  | node d l r => node { addr := d.addr, size := d.size } l.shape r.shape

@[simp] theorem shape_addr (t : LpTree) : t.shape.addr = t.addr := by cases t <;> rfl

@[simp] theorem shape_size (t : LpTree) : t.shape.size = t.size := by cases t <;> rfl

theorem addr_of_shape {t u : LpTree} (h : t.shape = u.shape) : t.addr = u.addr := by
  rw [← shape_addr t, h, shape_addr]

theorem size_of_shape {t u : LpTree} (h : t.shape = u.shape) : t.size = u.size := by
  rw [← shape_size t, h, shape_size]

theorem covers_of_shape {t u : LpTree} (h : t.shape = u.shape) (a : Nat) :
    t.covers a = u.covers a := by
  unfold covers
  rw [addr_of_shape h, size_of_shape h]

@[simp] theorem LpData.update_addr (d : LpData) (s : Nat) (p : Bool) :
    (LpData.update d s p).addr = d.addr := by
  unfold LpData.update
  split_ifs <;> rfl

@[simp] theorem LpData.update_size (d : LpData) (s : Nat) (p : Bool) :
    (LpData.update d s p).size = d.size := by
  unfold LpData.update
  split_ifs <;> rfl

theorem shape_update_basic_block (t : LpTree) (a s : Nat) (p : Bool) :
    (t.update_basic_block a s p).shape = t.shape := by
  induction t with
  | leaf d => simp [update_basic_block, shape]
  | node d l r ihl ihr =>
    simp only [update_basic_block]
    split
    · simp [shape, ihl]
    · simp [shape, ihr]

/-- An update of a node that does not move it. -/
def Stays (f : LpData → LpData) : Prop := ∀ d, (f d).addr = d.addr ∧ (f d).size = d.size

theorem stays_id : Stays id := fun _ => ⟨rfl, rfl⟩
theorem stays_markType (type : Nat) : Stays (LpData.markType type) := fun _ => ⟨rfl, rfl⟩
theorem stays_countAccess : Stays LpData.countAccess := fun _ => ⟨rfl, rfl⟩
theorem stays_countTrip : Stays LpData.countTrip := fun _ => ⟨rfl, rfl⟩

theorem shape_alterPath {f g : LpData → LpData} (hf : Stays f) (hg : Stays g) (a : Nat)
    (t : LpTree) : (t.alterPath f g a).shape = t.shape := by
  induction t with
  | leaf d => simp [alterPath, shape, (hg d).1, (hg d).2]
  | node d l r ihl ihr =>
    simp only [alterPath]
    split
    · simp [shape, ihl, (hf d).1, (hf d).2]
    · simp [shape, ihr, (hf d).1, (hf d).2]

theorem shape_evict_whole_tree (t : LpTree) : t.evict_whole_tree.shape = t.shape := by
  induction t with
  | leaf d => rfl
  | node d l r ihl ihr => simp [evict_whole_tree, shape, ihl, ihr]

theorem shape_fill_lp_tree (t : LpTree) (bs : BlockSet) :
    (t.fill_lp_tree bs).1.shape = t.shape := by
  induction t generalizing bs with
  | leaf d =>
    simp only [fill_lp_tree]
    split <;> rfl
  | node d l r ihl ihr => simp [fill_lp_tree, sumNode, shape, ihl, ihr]

theorem shape_remove_lp_tree (ev : Nat → Bool) (t : LpTree) (bs : BlockSet) :
    (t.remove_lp_tree ev bs).1.shape = t.shape := by
  induction t generalizing bs with
  | leaf d =>
    simp only [remove_lp_tree]
    split <;> rfl
  | node d l r ihl ihr => simp [remove_lp_tree, sumNode, shape, ihl, ihr]

theorem shape_traverse_and_fill_lp_tree (t : LpTree) (bs : BlockSet) :
    (t.traverse_and_fill_lp_tree bs).1.shape = t.shape := by
  induction t generalizing bs with
  | leaf d => rfl
  | node d l r ihl ihr =>
    simp only [traverse_and_fill_lp_tree]
    split
    · rw [shape_fill_lp_tree]
      simp [sumNode, shape, ihl, ihr]
    · simp [sumNode, shape, ihl, ihr]

theorem shape_traverse_and_remove_lp_tree (ev : Nat → Bool) (t : LpTree) (bs : BlockSet) :
    (t.traverse_and_remove_lp_tree ev bs).1.shape = t.shape := by
  induction t generalizing bs with
  | leaf d => rfl
  | node d l r ihl ihr =>
    simp only [traverse_and_remove_lp_tree]
    split
    · rw [shape_remove_lp_tree]
      simp [sumNode, shape, ihl, ihr]
    · simp [sumNode, shape, ihl, ihr]

theorem shape_reset_lp_tree_node (t : LpTree) : t.reset_lp_tree_node.shape = t.shape := by
  induction t with
  | leaf d => rfl
  | node d l r ihl ihr => simp [reset_lp_tree_node, shape, ihl, ihr]

theorem shape_reset_access_counter (t : LpTree) :
    t.traverse_and_reset_access_counter.shape = t.shape := by
  induction t with
  | leaf d => rfl
  | node d l r ihl ihr => simp [traverse_and_reset_access_counter, shape, ihl, ihr]

theorem shape_reset_round_trip (t : LpTree) :
    t.traverse_and_reset_round_trip.shape = t.shape := by
  cases t with
  | leaf d => rfl
  | node d l r => simp [traverse_and_reset_round_trip, shape, shape_reset_access_counter]

end LpTree

/-! ## Shapes of a whole list of trees -/

namespace Forest

open LpTree

/-- The shapes of all trees, in their order. -/
def shapes (ts : Forest) : Forest := ts.map LpTree.shape

theorem shapes_modifyTree {f : LpTree → LpTree} (hf : ∀ t, (f t).shape = t.shape) (a : Nat)
    (ts : Forest) : shapes (modifyTree f a ts) = shapes ts := by
  induction ts with
  | nil => rfl
  | cons t ts ih =>
    unfold modifyTree
    split
    · simp [shapes, hf]
    · simp only [shapes, List.map_cons]
      exact congrArg _ ih

theorem shapes_map {f : LpTree → LpTree} (hf : ∀ t, (f t).shape = t.shape) (ts : Forest) :
    shapes (ts.map f) = shapes ts := by
  simp only [shapes, List.map_map]
  exact List.map_congr_left fun t _ => hf t

theorem shapes_update_access_type (ts : Forest) (a type : Nat) :
    shapes (update_access_type ts a type) = shapes ts :=
  shapes_modifyTree (shape_alterPath (stays_markType type) (stays_markType type) a) a ts

theorem shapes_inc_bb_access_counter (ts : Forest) (a : Nat) :
    shapes (inc_bb_access_counter ts a) = shapes ts := by
  simp only [inc_bb_access_counter]
  rw [shapes_modifyTree (shape_alterPath stays_id stays_countAccess a)]
  split
  · rw [reset_bb_access_counter, shapes_map shape_reset_access_counter]
    exact shapes_modifyTree (shape_alterPath stays_countAccess stays_id a) a ts
  · exact shapes_modifyTree (shape_alterPath stays_countAccess stays_id a) a ts

theorem shapes_incRoundTripLeaf (ts : Forest) (a : Nat) :
    shapes (incRoundTripLeaf ts a) = shapes ts := by
  unfold incRoundTripLeaf
  rw [shapes_modifyTree (shape_alterPath stays_id stays_countTrip a)]
  split
  · exact shapes_map shape_reset_round_trip ts
  · rfl

theorem shapes_inc_bb_round_trip (ts : Forest) (a : Nat) :
    shapes (inc_bb_round_trip ts a) = shapes ts := by
  unfold inc_bb_round_trip
  induction (get_lp_node ts a).elim [] leaves generalizing ts with
  | nil => rfl
  | cons d ds ih => rw [List.foldl_cons, ih, shapes_incRoundTripLeaf]

/-! ## What depends on the shapes only -/

theorem find_of_shapes {ts us : Forest} (h : shapes ts = shapes us) (a : Nat) :
    (get_lp_node ts a).map LpTree.shape = (get_lp_node us a).map LpTree.shape := by
  induction ts generalizing us with
  | nil =>
    cases us with
    | nil => rfl
    | cons u us => cases h
  | cons t ts ih =>
    cases us with
    | nil => cases h
    | cons u us =>
      simp only [shapes, List.map_cons, List.cons.injEq] at h
      simp only [get_lp_node, List.find?_cons, covers_of_shape h.1]
      split
      · simp [h.1]
      · exact ih h.2

theorem isNone_of_shapes {ts us : Forest} (h : shapes ts = shapes us) (a : Nat) :
    (get_lp_node ts a).isNone = (get_lp_node us a).isNone := by
  have hmap := congrArg Option.isNone (find_of_shapes h a)
  simpa using hmap

/-- What a lookup reads of a tree, if it reads its shape only. -/
theorem elim_of_shapes {B : Type} {ts us : Forest} (h : shapes ts = shapes us) (a : Nat) (b : B)
    {f : LpTree → B} (hf : ∀ t u, t.shape = u.shape → f t = f u) :
    (get_lp_node ts a).elim b f = (get_lp_node us a).elim b f := by
  have hmap := find_of_shapes h a
  cases ht : get_lp_node ts a with
  | none =>
    rw [ht, Option.map_none] at hmap
    rw [Option.map_eq_none_iff.mp hmap.symm]
  | some t =>
    rw [ht, Option.map_some] at hmap
    obtain ⟨u, hu, htu⟩ := Option.map_eq_some_iff.mp hmap.symm
    rw [hu]
    exact hf t u htu.symm

theorem rootAddr_of_shapes {ts us : Forest} (h : shapes ts = shapes us) (a : Nat) :
    rootAddr ts a = rootAddr us a :=
  elim_of_shapes h a a fun _ _ => addr_of_shape

theorem rootSize_of_shapes {ts us : Forest} (h : shapes ts = shapes us) (a : Nat) :
    rootSize ts a = rootSize us a :=
  elim_of_shapes h a 0 fun _ _ => size_of_shape

end Forest

namespace LpTree

theorem basicBlock_of_shape {t u : LpTree} (h : t.shape = u.shape) (a : Nat) :
    (t.basicBlock a).addr = (u.basicBlock a).addr ∧ (t.basicBlock a).size = (u.basicBlock a).size := by
  induction t generalizing u with
  | leaf d =>
    cases u with
    | leaf e =>
      simp only [shape, leaf.injEq, LpData.mk.injEq] at h
      exact ⟨h.1, h.2.1⟩
    | node e l r => cases h
  | node d l r ihl ihr =>
    cases u with
    | leaf e => cases h
    | node e l' r' =>
      simp only [shape, node.injEq] at h
      simp only [basicBlock, covers_of_shape h.2.1]
      split
      · exact ihl h.2.1
      · exact ihr h.2.2

end LpTree

theorem Forest.get_basic_block_of_shapes {ts us : Forest} (h : shapes ts = shapes us) (a : Nat) :
    get_basic_block ts a = get_basic_block us a :=
  elim_of_shapes h a a fun _ _ hs => (LpTree.basicBlock_of_shape hs a).1

end gpgpu_sim_uvm
