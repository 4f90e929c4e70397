-- Maps of machine words that respect XOR. Such a map is given by its values on single bits,
-- its columns, and two words with one image differ by a word that it sends to zero.
import Mathlib.Data.Nat.Bitwise

namespace xor_maps

/-- The map respects XOR. -/
def XorMap (f : Nat → Nat) : Prop := ∀ x y, f (x ^^^ y) = f x ^^^ f y

/-- The XOR of the columns at the bits of a word, over `n` bits. -/
def combine (column : Nat → Nat) : Nat → Nat → Nat
  | 0, _ => 0
  | n + 1, x => combine column n x ^^^ if x.testBit n then column n else 0

/-- No word of bits of a mask has columns whose XOR is zero. -/
def Independent (column : Nat → Nat) (n mask : Nat) : Prop :=
  ∀ x < 2 ^ n, x ≠ 0 → (∀ p, x.testBit p = true → mask.testBit p = true) → combine column n x ≠ 0

namespace XorMap

variable {f g : Nat → Nat}

theorem map_zero (hf : XorMap f) : f 0 = 0 := by
  have h := hf 0 0
  rw [Nat.xor_self, Nat.xor_self] at h
  exact h

theorem eq_iff (hf : XorMap f) (x y : Nat) : f x = f y ↔ f (x ^^^ y) = 0 := by
  rw [hf, Nat.xor_eq_zero_iff]

theorem id : XorMap fun x => x := fun _ _ => rfl

theorem zero : XorMap fun _ => 0 := fun _ _ => (Nat.xor_self 0).symm

theorem comp (hf : XorMap f) (hg : XorMap g) : XorMap fun x => f (g x) := by
  intro x y
  simp only [hg x y, hf (g x) (g y)]

theorem xor (hf : XorMap f) (hg : XorMap g) : XorMap fun x => f x ^^^ g x := by
  intro x y
  simp only [hf x y, hg x y]
  rw [Nat.xor_assoc, Nat.xor_assoc]
  congr 1
  rw [← Nat.xor_assoc, Nat.xor_comm (f y), Nat.xor_assoc]

theorem shiftLeft (n : Nat) : XorMap fun x => x <<< n := fun _ _ => Nat.shiftLeft_xor_distrib

theorem shiftRight (n : Nat) : XorMap fun x => x >>> n := fun _ _ => Nat.shiftRight_xor_distrib

theorem mod_two_pow (n : Nat) : XorMap fun x => x % 2 ^ n := fun _ _ => Nat.xor_mod_two_pow

theorem and (mask : Nat) : XorMap fun x => x &&& mask := fun _ _ => Nat.and_xor_distrib_right ..

end XorMap

/-! ## Columns -/

variable {column column' : Nat → Nat} {f g : Nat → Nat} {n : Nat}

theorem combine_congr (h : ∀ p < n, column p = column' p) {x y : Nat}
    (hbits : ∀ p < n, x.testBit p = y.testBit p) : combine column n x = combine column' n y := by
  induction n with
  | zero => rfl
  | succ n ih =>
    rw [combine, combine, hbits n (Nat.lt_succ_self n), h n (Nat.lt_succ_self n)]
    rw [ih (fun p hp => h p (Nat.lt_succ_of_lt hp)) fun p hp => hbits p (Nat.lt_succ_of_lt hp)]

theorem combine_lt {t : Nat} (h : ∀ p < n, column p < 2 ^ t) (x : Nat) :
    combine column n x < 2 ^ t := by
  induction n with
  | zero => exact Nat.two_pow_pos t
  | succ n ih =>
    apply Nat.xor_lt_two_pow (ih fun p hp => h p (Nat.lt_succ_of_lt hp))
    split_ifs
    · exact h n (Nat.lt_succ_self n)
    · exact Nat.two_pow_pos t

/-- The highest bit of a word, split off. -/
theorem xor_high_bit {x : Nat} (hx : x < 2 ^ (n + 1)) :
    x = x % 2 ^ n ^^^ if x.testBit n then 2 ^ n else 0 := by
  apply Nat.eq_of_testBit_eq
  intro i
  rw [Nat.testBit_xor, Nat.testBit_mod_two_pow]
  rcases Nat.lt_trichotomy i n with hi | hi | hi
  · split_ifs <;> simp [hi, Nat.ne_of_gt hi]
  · subst hi
    cases hbit : x.testBit i <;> simp
  · have hhigh : x.testBit i = false :=
      Nat.testBit_lt_two_pow (lt_of_lt_of_le hx (Nat.pow_le_pow_right (by decide) hi))
    split_ifs <;> simp [hhigh, Nat.not_lt_of_lt hi, Nat.ne_of_lt hi]

/-- A map that respects XOR combines its values on single bits. -/
theorem XorMap.eq_combine (hf : XorMap f) {x : Nat} (hx : x < 2 ^ n) :
    f x = combine (fun p => f (2 ^ p)) n x := by
  induction n generalizing x with
  | zero =>
    rw [Nat.lt_one_iff.mp hx]
    exact hf.map_zero
  | succ n ih =>
    have hlow : x % 2 ^ n < 2 ^ n := Nat.mod_lt _ (Nat.two_pow_pos n)
    have hsplit := congrArg f (xor_high_bit hx)
    rw [hf, ih hlow] at hsplit
    rw [hsplit, combine]
    have hbits : ∀ p < n, (x % 2 ^ n).testBit p = x.testBit p := by
      intro p hp
      rw [Nat.testBit_mod_two_pow, decide_eq_true hp, Bool.true_and]
    rw [combine_congr (fun p _ => rfl) hbits]
    congr 1
    split_ifs
    · rfl
    · exact hf.map_zero

/-- The values of a map are below a power of two when its columns are. -/
theorem XorMap.lt_iff (hf : XorMap f) (t : Nat) :
    (∀ x < 2 ^ n, f x < 2 ^ t) ↔ ∀ p < n, f (2 ^ p) < 2 ^ t := by
  constructor
  · intro h p hp
    exact h _ (Nat.pow_lt_pow_right (by decide) hp)
  · intro h x hx
    rw [hf.eq_combine hx]
    exact combine_lt h x

/-- Let `g` keep exactly the bits outside a mask. Then `f` tells apart the words that `g`
does not when the columns of `f` at the mask are independent, and only then. -/
theorem XorMap.separates_iff (hf : XorMap f) (hg : XorMap g) {mask : Nat}
    (hkernel : ∀ x < 2 ^ n, g x = 0 ↔ ∀ p, x.testBit p = true → mask.testBit p = true) :
    (∀ x < 2 ^ n, ∀ y < 2 ^ n, f x = f y → g x = g y → x = y) ↔
      Independent (fun p => f (2 ^ p)) n mask := by
  constructor
  · intro h x hx hne hmask hzero
    rw [← hf.eq_combine hx] at hzero
    have hgx : g x = g 0 := by
      rw [hg.map_zero]
      exact (hkernel x hx).mpr hmask
    exact hne (h x hx 0 (Nat.two_pow_pos n) (hzero.trans hf.map_zero.symm) hgx)
  · intro h x hx y hy hfxy hgxy
    have hxor : x ^^^ y < 2 ^ n := Nat.xor_lt_two_pow hx hy
    by_contra hne
    have hne' : x ^^^ y ≠ 0 := fun hzero => hne (Nat.xor_eq_zero_iff.mp hzero)
    apply h _ hxor hne' ((hkernel _ hxor).mp ((hg.eq_iff x y).mp hgxy))
    rw [← hf.eq_combine hxor]
    exact (hf.eq_iff x y).mp hfxy

end xor_maps
