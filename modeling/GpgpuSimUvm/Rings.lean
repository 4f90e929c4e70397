-- Ring buffers: a queue in the cells of an array, from a tail that moves up as the
-- elements leave, around the end of the array.
import Mathlib.Data.List.GetD
import Mathlib.Data.Nat.ModEq
import Mathlib.Logic.Function.Basic

namespace rings

variable {T : Type} {data : Nat → Option T} {size tail : Nat} {l : List T} {x y : T}

/-- The cells from the tail on hold the list. -/
def Holds (data : Nat → Option T) (size tail : Nat) (l : List T) : Prop :=
  ∀ i < l.length, data ((tail + i) % size) = l[i]?

/-- What is in the cells from the tail on. -/
def cells (data : Nat → Option T) (size tail num : Nat) : List T :=
  (List.range num).filterMap fun i => data ((tail + i) % size)

/-! ## Cells -/

theorem cell_inj {i j : Nat} (hi : i < size) (hj : j < size)
    (h : (tail + i) % size = (tail + j) % size) : i = j := by
  have hmod : i ≡ j [MOD size] := Nat.ModEq.add_left_cancel' tail h
  exact hmod.eq_of_lt_of_lt hi hj

theorem cell_succ (i : Nat) : ((tail + 1) % size + i) % size = (tail + (i + 1)) % size := by
  rw [Nat.mod_add_mod, Nat.add_assoc, Nat.add_comm 1 i]

/-! ## What the cells hold -/

theorem Holds.nil : Holds data size tail [] := fun _ hi => absurd hi (Nat.not_lt_zero _)

theorem Holds.get (h : Holds data size tail l) {i : Nat} (hi : l[i]? = some x) :
    data ((tail + i) % size) = some x :=
  (h i (List.getElem?_eq_some_iff.mp hi).1).trans hi

theorem Holds.pop (h : Holds data size tail (x :: l)) : Holds data size ((tail + 1) % size) l := by
  intro i hi
  rw [cell_succ]
  exact h (i + 1) (by simpa using hi)

theorem cells_of_holds (h : Holds data size tail l) : cells data size tail l.length = l := by
  induction l generalizing tail with
  | nil => rfl
  | cons x l ih =>
    have hrest := ih h.pop
    unfold cells at hrest ⊢
    simp only [cell_succ] at hrest
    have hfirst := h.get (i := 0) rfl
    rw [List.length_cons, List.range_succ_eq_map, List.filterMap_cons, hfirst, List.filterMap_map]
    exact congrArg (x :: ·) hrest

/-- An element that is written behind the last one comes last. -/
theorem Holds.push (h : Holds data size tail l) (hroom : l.length < size) :
    Holds (Function.update data ((tail + l.length) % size) (some x)) size tail (l ++ [x]) := by
  intro i hi
  have hle : i ≤ l.length := by simpa [Nat.lt_succ_iff] using hi
  rcases Nat.lt_or_eq_of_le hle with hlt | rfl
  · have hne : (tail + i) % size ≠ (tail + l.length) % size :=
      fun hcell => absurd (cell_inj (by omega) hroom hcell) (by omega)
    rw [Function.update_of_ne hne, h i hlt, List.getElem?_append_left hlt]
  · rw [Function.update_self, List.getElem?_concat_length]

/-- A cell that is written anew changes its own element. -/
theorem Holds.set (h : Holds data size tail l) (hfits : l.length ≤ size) {k : Nat}
    (hk : k < l.length) :
    Holds (Function.update data ((tail + k) % size) (some y)) size tail (l.set k y) := by
  intro i hi
  rw [List.length_set] at hi
  rcases eq_or_ne i k with rfl | hne
  · rw [Function.update_self, List.getElem?_set_self hi]
  · have hcell : (tail + i) % size ≠ (tail + k) % size :=
      fun hcell => hne (cell_inj (by omega) (by omega) hcell)
    rw [Function.update_of_ne hcell, h i hi, List.getElem?_set_ne hne.symm]

end rings
