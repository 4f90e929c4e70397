-- A small theory of `std::bitset`: a bit vector as a set of positions, the loops that
-- set a range of bits, and the count of the bits that are set.
import Mathlib.Data.List.Range
import Mathlib.Data.List.Count
import Mathlib.Tactic.Common

namespace bitset

variable {w : Nat}

/-! ## Setting bits -/

/-- `m.set(k)` -/
def set (m : BitVec w) (k : Nat) : BitVec w := m ||| BitVec.twoPow w k

/-- The loop `for (k = start; k < start + n; k++) m.set(k);` -/
def setRange (m : BitVec w) (start : Nat) : Nat → BitVec w
  | 0 => m
  | n + 1 => set (setRange m start n) (start + n)

@[simp] theorem getLsbD_set (m : BitVec w) (k i : Nat) :
    (set m k).getLsbD i = (m.getLsbD i || decide (i = k ∧ i < w)) := by
  unfold set
  rw [BitVec.getLsbD_or, BitVec.getLsbD_twoPow]
  by_cases hi : i = k
  · simp [hi]
  · simp [hi, Ne.symm hi]

/-- The loop sets the positions it runs over and leaves the others as they were. -/
@[simp] theorem getLsbD_setRange (m : BitVec w) (start n i : Nat) :
    (setRange m start n).getLsbD i =
      (m.getLsbD i || decide (start ≤ i ∧ i < start + n ∧ i < w)) := by
  induction n with
  | zero => simp [setRange]; omega
  | succ n ih =>
    rw [setRange, getLsbD_set, ih, Bool.or_assoc, ← Bool.decide_or]
    congr 2
    apply propext
    omega

/-- Two sets meet in no position. -/
theorem and_eq_zero_iff {m n : BitVec w} :
    m &&& n = 0 ↔ ∀ i, m.getLsbD i = true → n.getLsbD i = true → False := by
  constructor
  · intro h i hm hn
    have hbit : (m &&& n).getLsbD i = true := by simp [hm, hn]
    rw [h] at hbit
    simp at hbit
  · intro h
    apply BitVec.eq_of_getLsbD_eq
    intro i _
    simpa using h i

/-- A set without a member is empty. -/
theorem ne_zero_iff {m : BitVec w} : m ≠ 0 ↔ ∃ i, m.getLsbD i = true := by
  constructor
  · intro h
    by_contra hcon
    apply h
    apply BitVec.eq_of_getLsbD_eq
    intro i _
    simpa using not_exists.mp hcon i
  · rintro ⟨i, hi⟩ rfl
    simp at hi

/-! ## Counting bits -/

/-- `m.count()` -/
def count (m : BitVec w) : Nat := (List.range w).countP m.getLsbD

theorem count_le (m : BitVec w) : count m ≤ w := by
  simpa [count] using List.countP_le_length (p := m.getLsbD) (l := List.range w)

/-- A set with a member has a positive count, and the other way round. -/
theorem count_pos_iff (m : BitVec w) : 0 < count m ↔ ∃ i, m.getLsbD i = true := by
  unfold count
  rw [List.countP_pos_iff]
  constructor
  · rintro ⟨i, _, hi⟩
    exact ⟨i, hi⟩
  · rintro ⟨i, hi⟩
    exact ⟨i, List.mem_range.mpr (BitVec.lt_of_getLsbD hi), hi⟩

/-- A count as large as the set leaves no position out. -/
theorem getLsbD_of_count_eq {m : BitVec w} (h : count m = w) {i : Nat} (hi : i < w) :
    m.getLsbD i = true := by
  have hall : (List.range w).countP m.getLsbD = (List.range w).length := by
    rw [List.length_range]
    exact h
  exact List.countP_eq_length.mp hall i (List.mem_range.mpr hi)

/-- Where the count is one, two members are the same. -/
theorem eq_of_count_eq_one {m : BitVec w} (h : count m = 1) {i j : Nat}
    (hi : m.getLsbD i = true) (hj : m.getLsbD j = true) : i = j := by
  unfold count at h
  rw [List.countP_eq_length_filter] at h
  obtain ⟨a, ha⟩ := List.length_eq_one_iff.mp h
  have hmem : ∀ k, m.getLsbD k = true → k = a := by
    intro k hk
    have : k ∈ (List.range w).filter m.getLsbD :=
      List.mem_filter.mpr ⟨List.mem_range.mpr (BitVec.lt_of_getLsbD hk), hk⟩
    rw [ha] at this
    exact List.mem_singleton.mp this
  rw [hmem i hi, hmem j hj]

end bitset
