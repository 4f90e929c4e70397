-- The polynomial hash (hashing.cc) is the remainder of the block address modulo an
-- irreducible polynomial: it permutes the index, and no stride of a power of two makes
-- conflicts.
import GpgpuSimUvm.AddrGaps
import GpgpuSimUvm.PolynomialRemainders
import Mathlib.Data.Set.Function

namespace gpgpu_sim_uvm.addrdec

open xor_maps Translation

/-! ## The hash of a block address -/

/-- The hash of an address whose lower bits are the index. -/
def ipolyOf (bank_set_num x : Nat) : Option Nat :=
  ipoly_hash_function (x / bank_set_num) (x % bank_set_num) bank_set_num

/-- The hash reads bit `p` of the address: one of the index, or one of the higher bits
that goes into the new index. -/
def ReadsBit (bank_set_num p : Nat) : Prop :=
  2 ^ p < bank_set_num ∨ ∃ taps ∈ ipolyTaps bank_set_num, ∃ tap ∈ taps, ∃ t ∈ tap,
    p = Nat.log2 bank_set_num + t

/-- The polynomials x^4 + x + 1, x^5 + x^2 + 1 and x^6 + x + 1. -/
def ipolyPolynomial : Nat → Nat
  | 16 => 19
  | 32 => 37
  | _ => 67

/-- The bits of the address that the hash reads. -/
def ipolyWidth : Nat → Nat
  | 16 => 17
  | 32 => 20
  | _ => 25

variable {n : Nat} {taps : List (List Nat)}

theorem xorMap_ipoly (k : Nat) (taps : List (List Nat)) :
    XorMap fun x => hashBits (x / 2 ^ k) (x % 2 ^ k) taps 0 := by
  intro x y
  change hashBits ((x ^^^ y) / 2 ^ k) ((x ^^^ y) % 2 ^ k) taps 0 = _
  rw [Nat.xor_mod_two_pow, ← Nat.shiftRight_eq_div_pow, Nat.shiftRight_xor_distrib, hashBits_xor,
    Nat.shiftRight_eq_div_pow, Nat.shiftRight_eq_div_pow]

/-- The columns of the hash are the powers of X. -/
theorem ipoly_reduces (htaps : ipolyTaps n = some taps) :
    Reduces taps.length (ipolyPolynomial n) (ipolyWidth n)
      fun x => hashBits (x / 2 ^ taps.length) (x % 2 ^ taps.length) taps 0 where
  monic := by
    rcases (ipolyTaps_eq_some htaps).1 with rfl | rfl | rfl <;> cases htaps <;>
      exact ⟨by decide, by decide, by decide⟩
  xorMap := xorMap_ipoly _ _
  small x hx := by
    rw [Nat.div_eq_of_lt hx, hashBits_zero_eq htaps, ← (ipolyTaps_eq_some htaps).2,
      Nat.mod_mod, Nat.mod_eq_of_lt hx]
  next := by
    have hcolumns : ∀ p < ipolyWidth n - 1,
        hashBits (2 ^ (p + 1) / 2 ^ taps.length) (2 ^ (p + 1) % 2 ^ taps.length) taps 0 =
          timesX taps.length (ipolyPolynomial n)
            (hashBits (2 ^ p / 2 ^ taps.length) (2 ^ p % 2 ^ taps.length) taps 0) := by
      rcases (ipolyTaps_eq_some htaps).1 with rfl | rfl | rfl <;> cases htaps <;> decide +kernel
    intro p hp
    exact hcolumns p (by omega)

theorem ipolyOf_eq (htaps : ipolyTaps n = some taps) (x : Nat) :
    ipolyOf n x = some (hashBits (x / 2 ^ taps.length) (x % 2 ^ taps.length) taps 0) := by
  unfold ipolyOf ipoly_hash_function
  rw [htaps, Option.map_some, (ipolyTaps_eq_some htaps).2]

/-- A window of bits that the hash reads lies in its width. -/
theorem window_le_width (htaps : ipolyTaps n = some taps) {s : Nat}
    (hreads : ∀ p, s ≤ p → p < s + taps.length → ReadsBit n p) :
    s + taps.length ≤ ipolyWidth n := by
  have hpos : 0 < taps.length := by
    rcases (ipolyTaps_eq_some htaps).1 with rfl | rfl | rfl <;> cases htaps <;> decide
  have htop : ∀ tap ∈ taps, ∀ t ∈ tap, Nat.log2 n + t < ipolyWidth n := by
    rcases (ipolyTaps_eq_some htaps).1 with rfl | rfl | rfl <;> cases htaps <;> decide
  have hindex : taps.length ≤ ipolyWidth n := by
    rcases (ipolyTaps_eq_some htaps).1 with rfl | rfl | rfl <;> cases htaps <;> decide
  rcases hreads (s + taps.length - 1) (by omega) (by omega) with hlow | ⟨taps', htaps', hread⟩
  · rw [← (ipolyTaps_eq_some htaps).2] at hlow
    have := (Nat.pow_lt_pow_iff_right (by omega)).mp hlow
    omega
  · rw [htaps] at htaps'
    obtain rfl := Option.some.inj htaps'
    obtain ⟨tap, htap, t, ht, heq⟩ := hread
    have := htop tap htap t ht
    omega

/-- The hash of the index is the index moved by a word of the higher bits. -/
theorem ipoly_permutes (htaps : ipolyTaps n = some taps) (higher_bits : Nat) :
    Set.BijOn (fun index => hashBits higher_bits index taps 0) (Set.Iio n) (Set.Iio n) := by
  have hlen := (ipolyTaps_eq_some htaps).2
  have hlt : ∀ a index, hashBits a index taps 0 < n := by
    intro a index
    have := hashBits_lt a index taps 0
    rwa [Nat.zero_add, hlen] at this
  have hmove : ∀ index < n,
      hashBits higher_bits index taps 0 = hashBits higher_bits 0 taps 0 ^^^ index := by
    intro index hindex
    rw [hashBits_split, hashBits_zero_eq htaps, Nat.mod_eq_of_lt hindex]
  refine ⟨fun index _ => hlt _ _, fun i hi j hj hij => ?_, fun v hv => ?_⟩
  · simp only [Set.mem_Iio] at hi hj
    simp only [hmove i hi, hmove j hj] at hij
    exact Nat.xor_right_inj.mp hij
  · have hin : hashBits higher_bits 0 taps 0 ^^^ v < n := by
      rw [← hlen] at hv ⊢
      exact Nat.xor_lt_two_pow (hlen ▸ hlt _ _) hv
    refine ⟨_, hin, ?_⟩
    simp only
    rw [hmove _ hin, ← Nat.xor_assoc, Nat.xor_self, Nat.zero_xor]

/-- For 16, 32 and 64 banks the hash permutes the index under all higher bits, and `n`
consecutive multiples of a stride that differ only in bits that it reads get `n`
different values. -/
theorem ipoly_is_conflict_free (hn : n = 16 ∨ n = 32 ∨ n = 64) :
    (∀ higher_bits, ∃ f, (∀ index, ipoly_hash_function higher_bits index n = some (f index)) ∧
      Set.BijOn f (Set.Iio n) (Set.Iio n)) ∧
    ∀ s m, (∀ p, s ≤ p → p < s + Nat.log2 n → ReadsBit n p) →
      (∀ i < n, ∀ p, p < s ∨ s + Nat.log2 n ≤ p →
        ((m + i) * 2 ^ s).testBit p = (m * 2 ^ s).testBit p) →
      Set.InjOn (fun i => ipolyOf n ((m + i) * 2 ^ s)) (Set.Iio n) := by
  obtain ⟨taps, htaps⟩ := Option.isSome_iff_exists.mp ((ipolyTaps_isSome n).mpr hn)
  have hlog : Nat.log2 n = taps.length := by
    rw [← (ipolyTaps_eq_some htaps).2, Nat.log2_two_pow]
  refine ⟨fun higher_bits => ⟨_, fun index => ?_, ipoly_permutes htaps higher_bits⟩, ?_⟩
  · unfold ipoly_hash_function
    rw [htaps, Option.map_some]
  · intro s m hreads hagree i hi j hj hij
    rw [hlog] at hreads hagree
    simp only [ipolyOf_eq htaps, Option.some.injEq] at hij
    have hsame := (ipoly_reduces htaps).eq_of_window (window_le_width htaps hreads)
      (fun p hp => (hagree i hi p hp).trans (hagree j hj p hp).symm) hij
    have := Nat.eq_of_mul_eq_mul_right (Nat.two_pow_pos s) hsame
    omega

theorem ipoly_is_conflict_free_for_16 :
    (∀ higher_bits, ∃ f, (∀ index, ipoly_hash_function higher_bits index 16 = some (f index)) ∧
      Set.BijOn f (Set.Iio 16) (Set.Iio 16)) ∧
    ∀ s m, (∀ p, s ≤ p → p < s + Nat.log2 16 → ReadsBit 16 p) →
      (∀ i < 16, ∀ p, p < s ∨ s + Nat.log2 16 ≤ p →
        ((m + i) * 2 ^ s).testBit p = (m * 2 ^ s).testBit p) →
      Set.InjOn (fun i => ipolyOf 16 ((m + i) * 2 ^ s)) (Set.Iio 16) :=
  ipoly_is_conflict_free (.inl rfl)

end gpgpu_sim_uvm.addrdec
