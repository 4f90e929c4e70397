-- Remainders of polynomials over two elements, as words: multiplying by X and reducing
-- is a map that respects XOR and loses no word, so that the remainders of the words of
-- any window of bits are all different.
import GpgpuSimUvm.XorMaps
import Mathlib.Logic.Function.Iterate
import Mathlib.Tactic.Ring

namespace xor_maps

/-- `X * y` modulo a polynomial `P` of degree `k`. -/
def timesX (k P y : Nat) : Nat := if (2 * y).testBit k then (2 * y) ^^^ P else 2 * y

/-- A polynomial of degree `k` with a constant term. -/
structure Monic (k P : Nat) : Prop where
  lt : P < 2 ^ (k + 1)
  top : P.testBit k = true
  constant : P.testBit 0 = true

variable {k P : Nat}

theorem two_mul_xor (a b : Nat) : 2 * (a ^^^ b) = (2 * a) ^^^ (2 * b) := by
  have h := XorMap.shiftLeft 1 a b
  simpa [Nat.shiftLeft_eq, Nat.mul_comm] using h

theorem xorMap_timesX (k P : Nat) : XorMap (timesX k P) := by
  intro a b
  unfold timesX
  rw [two_mul_xor, Nat.testBit_xor]
  cases (2 * a).testBit k <;> cases (2 * b).testBit k <;> simp
  · rw [Nat.xor_assoc]
  · rw [Nat.xor_assoc, Nat.xor_assoc, Nat.xor_comm P]
  · rw [Nat.xor_assoc, Nat.xor_comm P, Nat.xor_assoc, Nat.xor_self, Nat.xor_zero]

theorem timesX_lt (h : Monic k P) {y : Nat} (hy : y < 2 ^ k) : timesX k P y < 2 ^ k := by
  have hdouble : 2 * y < 2 ^ (k + 1) := by
    rw [Nat.pow_succ]
    omega
  -- no bit from `k` on is left
  have hbits : ∀ {z}, z < 2 ^ (k + 1) → z.testBit k = false → z < 2 ^ k := by
    intro z hz hzk
    refine Nat.lt_pow_two_of_testBit z fun i hi => ?_
    rcases Nat.eq_or_lt_of_le hi with rfl | hlt
    · exact hzk
    · exact Nat.testBit_lt_two_pow (Nat.lt_of_lt_of_le hz (Nat.pow_le_pow_right (by omega) hlt))
  unfold timesX
  split
  · rename_i hbit
    exact hbits (Nat.xor_lt_two_pow hdouble h.lt) (by rw [Nat.testBit_xor, hbit, h.top]; rfl)
  · rename_i hbit
    exact hbits hdouble (by simpa using hbit)

/-- The constant term keeps a word from vanishing. -/
theorem timesX_ne_zero (h : Monic k P) {y : Nat} (hy : y ≠ 0) : timesX k P y ≠ 0 := by
  unfold timesX
  split
  · intro hzero
    have heq := Nat.xor_eq_zero_iff.mp hzero
    have hodd := h.constant
    rw [← heq, Nat.testBit_zero] at hodd
    simp at hodd
  · omega

/-- A map on words of `width` bits that reduces modulo `P`. -/
structure Reduces (k P width : Nat) (f : Nat → Nat) : Prop where
  monic : Monic k P
  xorMap : XorMap f
  small : ∀ x < 2 ^ k, f x = x
  next : ∀ p, p + 1 < width → f (2 ^ (p + 1)) = timesX k P (f (2 ^ p))

variable {width : Nat} {f : Nat → Nat}

theorem Reduces.double (h : Reduces k P width f) {x : Nat} (hx : x < 2 ^ (width - 1)) :
    f (2 * x) = timesX k P (f x) := by
  have hleft : XorMap fun x => f (2 * x) := by
    intro a b
    change f (2 * (a ^^^ b)) = f (2 * a) ^^^ f (2 * b)
    rw [two_mul_xor, h.xorMap]
  have hright := (xorMap_timesX k P).comp h.xorMap
  rw [hleft.eq_combine hx, hright.eq_combine hx]
  refine combine_congr (fun p hp => ?_) fun _ _ => rfl
  rw [← h.next p (by omega), Nat.pow_succ, Nat.mul_comm]

/-- The remainder of a word in a window of bits. -/
theorem Reduces.shifted (h : Reduces k P width f) {d s : Nat} (hd : d < 2 ^ k)
    (hs : s + k ≤ width) : f (d * 2 ^ s) = (timesX k P)^[s] d := by
  induction s with
  | zero =>
    rw [Nat.pow_zero, Nat.mul_one]
    exact h.small d hd
  | succ s ih =>
    have hx : d * 2 ^ s < 2 ^ (width - 1) := by
      calc d * 2 ^ s < 2 ^ k * 2 ^ s := Nat.mul_lt_mul_of_pos_right hd (Nat.two_pow_pos s)
        _ = 2 ^ (k + s) := (Nat.pow_add _ _ _).symm
        _ ≤ 2 ^ (width - 1) := Nat.pow_le_pow_right (by omega) (by omega)
    have hdouble : d * 2 ^ (s + 1) = 2 * (d * 2 ^ s) := by
      rw [Nat.pow_succ]
      ring
    rw [hdouble, h.double hx, ih (by omega), Function.iterate_succ_apply']

theorem Reduces.shifted_ne_zero (h : Reduces k P width f) {d s : Nat} (hd : d < 2 ^ k)
    (hs : s + k ≤ width) (hne : d ≠ 0) : f (d * 2 ^ s) ≠ 0 := by
  rw [h.shifted hd hs]
  clear hs
  induction s with
  | zero => exact hne
  | succ s ih =>
    rw [Function.iterate_succ_apply']
    exact timesX_ne_zero h.monic ih

/-- A word whose bits lie in a window. -/
theorem eq_shifted {x s : Nat} (hx : ∀ p, p < s ∨ s + k ≤ p → x.testBit p = false) :
    ∃ d < 2 ^ k, x = d * 2 ^ s := by
  refine ⟨x >>> s, ?_, ?_⟩
  · refine Nat.lt_pow_two_of_testBit _ fun i hi => ?_
    rw [Nat.testBit_shiftRight]
    exact hx _ (.inr (by omega))
  · rw [← Nat.shiftLeft_eq]
    apply Nat.eq_of_testBit_eq
    intro p
    rw [Nat.testBit_shiftLeft]
    by_cases hp : s ≤ p
    · rw [Nat.testBit_shiftRight, Nat.add_sub_cancel' hp]
      simp [hp]
    · simp [hp, hx p (.inl (by omega))]

/-- Words that differ in a window of `k` bits only have different remainders. -/
theorem Reduces.eq_of_window (h : Reduces k P width f) {x y s : Nat} (hs : s + k ≤ width)
    (hagree : ∀ p, p < s ∨ s + k ≤ p → x.testBit p = y.testBit p) (hf : f x = f y) : x = y := by
  obtain ⟨d, hd, hxor⟩ := @eq_shifted k (x ^^^ y) s fun p hp => by
    rw [Nat.testBit_xor, hagree p hp, Bool.xor_self]
  have hzero := (h.xorMap.eq_iff x y).mp hf
  by_contra hne
  refine h.shifted_ne_zero hd hs ?_ (hxor ▸ hzero)
  rintro rfl
  rw [Nat.zero_mul] at hxor
  exact hne (Nat.xor_eq_zero_iff.mp hxor)

end xor_maps
