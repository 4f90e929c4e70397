-- Pieces that tile a range: each one starts where the one before it ends, so that every
-- number of the range lies in exactly one of them.
import Mathlib.Data.List.Basic
import Mathlib.Tactic.Common

namespace tiling

/-- The pieces, given by start and size, fill the range from `lo` to `hi`. -/
def Tiles : Nat → List (Nat × Nat) → Nat → Prop
  | lo, [], hi => lo = hi
  | lo, p :: ps, hi => p.1 = lo ∧ Tiles (lo + p.2) ps hi

/-- A number lies in a piece. -/
def within (a : Nat) (p : Nat × Nat) : Bool := decide (p.1 ≤ a ∧ a < p.1 + p.2)

variable {lo mid hi a : Nat} {ps qs : List (Nat × Nat)}

theorem Tiles.append (h : Tiles lo ps mid) (h' : Tiles mid qs hi) : Tiles lo (ps ++ qs) hi := by
  induction ps generalizing lo with
  | nil =>
    obtain rfl : lo = mid := h
    exact h'
  | cons p ps ih => exact ⟨h.1, ih h.2⟩

theorem tiles_singleton (a s : Nat) : Tiles a [(a, s)] (a + s) := ⟨rfl, rfl⟩

theorem Tiles.le (h : Tiles lo ps hi) : lo ≤ hi := by
  induction ps generalizing lo with
  | nil => exact Nat.le_of_eq h
  | cons p ps ih =>
    have := ih h.2
    omega

/-- Each piece lies in the range. -/
theorem Tiles.bounds (h : Tiles lo ps hi) {p : Nat × Nat} (hp : p ∈ ps) :
    lo ≤ p.1 ∧ p.1 + p.2 ≤ hi := by
  induction ps generalizing lo with
  | nil => simp at hp
  | cons q ps ih =>
    obtain ⟨hq, hrest⟩ := h
    rcases List.mem_cons.mp hp with rfl | hp
    · have := hrest.le
      omega
    · have := ih hrest hp
      omega

/-- A number outside the range lies in no piece. -/
theorem Tiles.filter_outside (h : Tiles lo ps hi) (ha : a < lo ∨ hi ≤ a) :
    ps.filter (within a) = [] := by
  refine List.filter_eq_nil_iff.mpr fun p hp => ?_
  have := h.bounds hp
  simp only [within, decide_eq_true_eq]
  omega

/-- A number of the range lies in exactly one piece. -/
theorem Tiles.filter_within (h : Tiles lo ps hi) (hlo : lo ≤ a) (hhi : a < hi) :
    ∃ p ∈ ps, ps.filter (within a) = [p] ∧ p.1 ≤ a ∧ a < p.1 + p.2 := by
  induction ps generalizing lo with
  | nil =>
    obtain rfl : lo = hi := h
    omega
  | cons p ps ih =>
    obtain ⟨rfl, hrest⟩ := h
    by_cases hfirst : a < p.1 + p.2
    · refine ⟨p, List.mem_cons_self, ?_, hlo, hfirst⟩
      rw [List.filter_cons_of_pos (by simp [within, hlo, hfirst]),
        hrest.filter_outside (Or.inl hfirst)]
    · obtain ⟨q, hq, hfilter, hin⟩ := ih hrest (Nat.le_of_not_lt hfirst)
      refine ⟨q, List.mem_cons_of_mem _ hq, ?_, hin⟩
      rw [List.filter_cons_of_neg (by simp [within, hfirst]), hfilter]

end tiling
