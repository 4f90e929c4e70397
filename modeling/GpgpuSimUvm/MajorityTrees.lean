-- Binary trees with marked leaves, and the rule that a node with more than half of its
-- leaves marked has all of them marked. The marks that the rule adds are the fewest.
import Mathlib.Data.Finset.Card
import Mathlib.Order.Bounds.Basic
import Mathlib.Tactic

namespace majority_trees

inductive LeafTree (A : Type)
  | leaf (a : A)
  | node (l r : LeafTree A)

namespace LeafTree

variable {A : Type} [DecidableEq A]

def leafSet : LeafTree A → Finset A
  | leaf a => {a}
  | node l r => l.leafSet ∪ r.leafSet

/-- No leaf stands on both sides of a node. -/
def Separate : LeafTree A → Prop
  | leaf _ => True
  | node l r => Disjoint l.leafSet r.leafSet ∧ l.Separate ∧ r.Separate

/-- Each inner node has at most half of its leaves marked, or all. -/
def Settled (V : Finset A) : LeafTree A → Prop
  | leaf _ => True
  | node l r =>
    (2 * ((l.leafSet ∪ r.leafSet) ∩ V).card ≤ (l.leafSet ∪ r.leafSet).card ∨
      l.leafSet ∪ r.leafSet ⊆ V) ∧ l.Settled V ∧ r.Settled V

/-- The marks below a node once both sides are settled, and all leaves if they are more than
half. -/
def expand (V : Finset A) : LeafTree A → Finset A
  | leaf a => {a} ∩ V
  | node l r =>
    if (l.leafSet ∪ r.leafSet).card < 2 * (l.expand V ∪ r.expand V).card then
      l.leafSet ∪ r.leafSet
    else l.expand V ∪ r.expand V

variable {V W : Finset A}

theorem expand_subset (V : Finset A) (t : LeafTree A) : t.expand V ⊆ t.leafSet := by
  induction t with
  | leaf a => exact Finset.inter_subset_left
  | node l r ihl ihr =>
    rw [expand]
    split_ifs
    · exact Finset.Subset.refl _
    · exact Finset.union_subset_union ihl ihr

theorem subset_expand (V : Finset A) (t : LeafTree A) : t.leafSet ∩ V ⊆ t.expand V := by
  induction t with
  | leaf a => exact Finset.Subset.refl _
  | node l r ihl ihr =>
    rw [expand]
    split_ifs
    · exact Finset.inter_subset_left
    · rw [leafSet, Finset.union_inter_distrib_right]
      exact Finset.union_subset_union ihl ihr

/-- Marks elsewhere do not matter. -/
theorem settled_congr {t : LeafTree A} (h : t.leafSet ∩ V = t.leafSet ∩ W) :
    t.Settled V ↔ t.Settled W := by
  induction t with
  | leaf a => exact Iff.rfl
  | node l r ihl ihr =>
    have hside : ∀ s ⊆ l.leafSet ∪ r.leafSet, s ∩ V = s ∩ W := by
      intro s hs
      rw [← Finset.inter_eq_left.mpr hs, Finset.inter_assoc, Finset.inter_assoc]
      exact congrArg (s ∩ ·) h
    have hl := hside l.leafSet Finset.subset_union_left
    have hr := hside r.leafSet Finset.subset_union_right
    have hall : l.leafSet ∪ r.leafSet ⊆ V ↔ l.leafSet ∪ r.leafSet ⊆ W := by
      rw [← Finset.inter_eq_left, ← Finset.inter_eq_left]
      exact Eq.congr_left h
    rw [leafSet] at h
    rw [Settled, Settled, ihl hl, ihr hr, hall, h]

theorem expand_congr {t : LeafTree A} (h : t.leafSet ∩ V = t.leafSet ∩ W) :
    t.expand V = t.expand W := by
  induction t with
  | leaf a => exact h
  | node l r ihl ihr =>
    have hside : ∀ s ⊆ l.leafSet ∪ r.leafSet, s ∩ V = s ∩ W := by
      intro s hs
      rw [← Finset.inter_eq_left.mpr hs, Finset.inter_assoc, Finset.inter_assoc]
      exact congrArg (s ∩ ·) h
    rw [expand, expand, ihl (hside _ Finset.subset_union_left),
      ihr (hside _ Finset.subset_union_right)]

theorem settled_of_subset {t : LeafTree A} (h : t.leafSet ⊆ V) : t.Settled V := by
  induction t with
  | leaf a => trivial
  | node l r ihl ihr =>
    rw [leafSet] at h
    have hl : l.leafSet ⊆ V := fun _ ha => h (Finset.mem_union_left _ ha)
    have hr : r.leafSet ⊆ V := fun _ ha => h (Finset.mem_union_right _ ha)
    exact ⟨Or.inr h, ihl hl, ihr hr⟩

/-- The marks of a node, seen from one side. -/
theorem inter_union_expand {l r : LeafTree A} (h : Disjoint l.leafSet r.leafSet) :
    l.leafSet ∩ (l.expand V ∪ r.expand V) = l.leafSet ∩ l.expand V := by
  have hr : l.leafSet ∩ r.expand V = ∅ := by
    apply Finset.disjoint_iff_inter_eq_empty.mp
    exact Finset.disjoint_of_subset_right (expand_subset V r) h
  rw [Finset.inter_union_distrib_left, hr, Finset.union_empty]

theorem settled_expand (V : Finset A) {t : LeafTree A} (h : t.Separate) :
    t.Settled (t.expand V) := by
  induction t with
  | leaf a => trivial
  | node l r ihl ihr =>
    obtain ⟨hdisjoint, hl, hr⟩ := h
    by_cases hmany : (l.leafSet ∪ r.leafSet).card < 2 * (l.expand V ∪ r.expand V).card
    · rw [expand, if_pos hmany]
      exact settled_of_subset (Finset.Subset.refl _)
    · rw [expand, if_neg hmany]
      have hmarks : (l.leafSet ∪ r.leafSet) ∩ (l.expand V ∪ r.expand V) =
          l.expand V ∪ r.expand V :=
        Finset.inter_eq_right.mpr
          (Finset.union_subset_union (expand_subset V l) (expand_subset V r))
      refine ⟨Or.inl ?_, ?_, ?_⟩
      · rw [hmarks]
        omega
      · rw [settled_congr (inter_union_expand hdisjoint)]
        exact ihl hl
      · rw [Finset.union_comm, settled_congr (inter_union_expand hdisjoint.symm)]
        exact ihr hr

/-- Settled marks that contain `V` contain its expansion. -/
theorem expand_subset_of_settled {t : LeafTree A} (hV : t.leafSet ∩ V ⊆ W) (h : t.Settled W) :
    t.expand V ⊆ W := by
  induction t with
  | leaf a => exact hV
  | node l r ihl ihr =>
    obtain ⟨hhalf, hl, hr⟩ := h
    have hVl : l.leafSet ∩ V ⊆ W := fun _ ha =>
      hV (Finset.inter_subset_inter_right Finset.subset_union_left ha)
    have hVr : r.leafSet ∩ V ⊆ W := fun _ ha =>
      hV (Finset.inter_subset_inter_right Finset.subset_union_right ha)
    have hboth : l.expand V ∪ r.expand V ⊆ W := Finset.union_subset (ihl hVl hl) (ihr hVr hr)
    rw [expand]
    split_ifs with hmany
    · rcases hhalf with hhalf | hall
      · have hsub : l.expand V ∪ r.expand V ⊆ (l.leafSet ∪ r.leafSet) ∩ W :=
          Finset.subset_inter
            (Finset.union_subset_union (expand_subset V l) (expand_subset V r)) hboth
        have hcard := Finset.card_le_card hsub
        omega
      · exact hall
    · exact hboth

theorem isLeast_expand (V : Finset A) {t : LeafTree A} (h : t.Separate) :
    IsLeast {W | t.leafSet ∩ V ⊆ W ∧ t.Settled W} (t.expand V) :=
  ⟨⟨subset_expand V t, settled_expand V h⟩, fun _ hW => expand_subset_of_settled hW.1 hW.2⟩

end LeafTree

end majority_trees
