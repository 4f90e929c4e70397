-- When two addresses can have one L2 slice and one address inside the partition. Apart from
-- channel counts that are no power of two, the slice of an address is the XOR of the columns
-- of its bits.
import GpgpuSimUvm.AddrDec

namespace gpgpu_sim_uvm.addrdec

open xor_maps

/-! ## Packed bits -/

theorem or_eq_xor {x y : Nat} (h : ∀ j, x.testBit j = true → y.testBit j = false) :
    x ||| y = x ^^^ y := by
  apply Nat.eq_of_testBit_eq
  intro j
  rw [Nat.testBit_or, Nat.testBit_xor]
  cases hx : x.testBit j with
  | false => rw [Bool.false_or, Bool.false_xor]
  | true => rw [h j hx, Bool.or_false, Bool.xor_false]

theorem testBit_toNat_shiftLeft (b : Bool) (pos j : Nat) :
    (b.toNat <<< pos).testBit j = (b && decide (j = pos)) := by
  cases b with
  | false => rw [Bool.toNat_false, Nat.zero_shiftLeft, Nat.zero_testBit, Bool.false_and]
  | true =>
    rw [Bool.toNat_true, Nat.one_shiftLeft, Nat.testBit_two_pow, Bool.true_and]
    exact decide_eq_decide.mpr eq_comm

theorem packFrom_low (mask val : Nat) {n i pos j : Nat} (hj : j < pos) :
    (packFrom mask val n i pos).testBit j = false := by
  induction n generalizing i pos with
  | zero => exact Nat.zero_testBit j
  | succ n ih =>
    rw [packFrom]
    split_ifs
    · rw [Nat.testBit_or, testBit_toNat_shiftLeft, ih (Nat.lt_succ_of_lt hj),
        decide_eq_false (Nat.ne_of_lt hj), Bool.and_false, Bool.false_or]
    · exact ih hj

/-- One turn of the loop adds its bit. -/
theorem packFrom_step {mask i : Nat} (hmask : mask.testBit i = true) (val n pos : Nat) :
    packFrom mask val (n + 1) i pos =
      (val.testBit i).toNat <<< pos ^^^ packFrom mask val n (i + 1) (pos + 1) := by
  rw [packFrom, if_pos hmask]
  apply or_eq_xor
  intro j hj
  rw [testBit_toNat_shiftLeft, Bool.and_eq_true, decide_eq_true_eq] at hj
  rw [hj.2]
  exact packFrom_low mask val (Nat.lt_succ_self pos)

theorem xorMap_packFrom (mask n i pos : Nat) : XorMap fun val => packFrom mask val n i pos := by
  induction n generalizing i pos with
  | zero => exact XorMap.zero
  | succ n ih =>
    by_cases hmask : mask.testBit i = true
    · simp only [packFrom_step hmask, Nat.toNat_testBit, ← Nat.shiftRight_eq_div_pow]
      have hbit : XorMap fun val => (val >>> i) % 2 ^ 1 :=
        (XorMap.mod_two_pow 1).comp (XorMap.shiftRight i)
      exact ((XorMap.shiftLeft pos).comp hbit).xor (ih (i + 1) (pos + 1))
    · simp only [packFrom, if_neg hmask]
      exact ih (i + 1) pos

theorem packFrom_eq_zero (mask val : Nat) {n i pos : Nat} :
    packFrom mask val n i pos = 0 ↔
      ∀ p, i ≤ p → p < i + n → mask.testBit p = true → val.testBit p = false := by
  induction n generalizing i pos with
  | zero =>
    refine iff_of_true rfl ?_
    intro p hi hp
    omega
  | succ n ih =>
    have hsplit : (∀ p, i ≤ p → p < i + (n + 1) → mask.testBit p = true → val.testBit p = false) ↔
        (mask.testBit i = true → val.testBit i = false) ∧
          ∀ p, i + 1 ≤ p → p < i + 1 + n → mask.testBit p = true → val.testBit p = false := by
      constructor
      · intro h
        exact ⟨h i (le_refl i) (by omega), fun p hi hp => h p (by omega) (by omega)⟩
      · rintro ⟨hfirst, hrest⟩ p hi hp
        rcases Nat.eq_or_lt_of_le hi with rfl | hi
        · exact hfirst
        · exact hrest p hi (by omega)
    rw [hsplit]
    by_cases hmask : mask.testBit i = true
    · rw [packFrom, if_pos hmask, Nat.or_eq_zero_iff, ih]
      apply and_congr_left
      intro _
      cases val.testBit i with
      | false => exact iff_of_true (Nat.zero_shiftLeft pos) fun _ => rfl
      | true =>
        refine iff_of_false ?_ fun h => by cases h hmask
        rw [Bool.toNat_true, Nat.one_shiftLeft]
        exact Nat.ne_of_gt (Nat.two_pow_pos pos)
    · rw [packFrom, if_neg hmask, ih]
      exact (and_iff_right fun h => absurd h hmask).symm

/-- The number of bits of a mask below a bit. -/
def rank (mask p : Nat) : Nat := (List.range p).countP mask.testBit

theorem rank_succ (mask p : Nat) :
    rank mask (p + 1) = rank mask p + if mask.testBit p then 1 else 0 := by
  rw [rank, List.range_succ, List.countP_append, List.countP_singleton]
  rfl

/-- What a single bit of an address is packed to. -/
def unitAt (mask p : Nat) : Nat := if mask.testBit p then 2 ^ rank mask p else 0

theorem packFrom_unit (mask p : Nat) {n i pos : Nat} (hi : i ≤ p) (hp : p < i + n)
    (hpos : pos = rank mask i) : packFrom mask (2 ^ p) n i pos = unitAt mask p := by
  induction n generalizing i pos with
  | zero => omega
  | succ n ih =>
    have hbit : (2 ^ p).testBit i = decide (p = i) := Nat.testBit_two_pow
    have hrank := rank_succ mask i
    rcases Nat.eq_or_lt_of_le hi with rfl | hlt
    · have hrest : ∀ pos, packFrom mask (2 ^ i) n (i + 1) pos = 0 := by
        intro pos
        rw [packFrom_eq_zero]
        intro q hq _ _
        rw [Nat.testBit_two_pow, decide_eq_false (by omega)]
      rw [packFrom, hrest, hrest, hbit, decide_eq_true rfl, unitAt, hpos, Nat.or_zero,
        Bool.toNat_true, Nat.one_shiftLeft]
    · rw [packFrom, hbit, decide_eq_false (by omega), Bool.toNat_false, Nat.zero_shiftLeft,
        Nat.zero_or]
      split_ifs with hmask
      · rw [if_pos hmask] at hrank
        exact ih hlt (by omega) (by omega)
      · rw [if_neg hmask] at hrank
        exact ih hlt (by omega) (by omega)

/-! ## Limits of a mask -/

/-- The limits that the loop found among the first `n` bits. -/
def limitsUpTo (mask n : Nat) : Nat × Nat × Bool :=
  (List.range n).foldl (fun (s : Nat × Nat × Bool) i =>
    if mask.testBit i then (i + 1, if s.2.2 then s.2.1 else i, true) else s) (64, 0, false)

theorem limitsUpTo_spec (mask : Nat) {n : Nat} (hn : n ≤ 64) :
    (limitsUpTo mask n).1 ≤ 64 ∧ (limitsUpTo mask n).2.1 ≤ (limitsUpTo mask n).1 ∧
      ((limitsUpTo mask n).2.2 = true → (limitsUpTo mask n).2.1 < n) ∧
        ((limitsUpTo mask n).2.2 = false → ∀ p < n, mask.testBit p = false) ∧
          ((limitsUpTo mask n).2.2 = true → ∀ p < n, mask.testBit p = true →
            (limitsUpTo mask n).2.1 ≤ p ∧ p < (limitsUpTo mask n).1) := by
  induction n with
  | zero =>
    refine ⟨le_refl _, Nat.zero_le _, fun h => (by cases h), ?_, fun h => (by cases h)⟩
    intro _ p hp
    omega
  | succ n ih =>
    obtain ⟨hhigh, horder, hlow, hnone, hsome⟩ := ih (by omega)
    have hstep : limitsUpTo mask (n + 1) =
        if mask.testBit n then
          (n + 1, if (limitsUpTo mask n).2.2 then (limitsUpTo mask n).2.1 else n, true)
        else limitsUpTo mask n := by
      rw [limitsUpTo, List.range_succ, List.foldl_append]
      rfl
    rw [hstep]
    by_cases hmask : mask.testBit n = true
    · rw [if_pos hmask]
      cases hfound : (limitsUpTo mask n).2.2 with
      | false =>
        refine ⟨by omega, Nat.le_succ n, fun _ => Nat.lt_succ_self n, fun h => (by cases h), ?_⟩
        intro _ p hp hbit
        rcases Nat.lt_succ_iff_lt_or_eq.mp hp with hp | rfl
        · rw [hnone hfound p hp] at hbit
          cases hbit
        · exact ⟨le_refl _, Nat.lt_succ_self _⟩
      | true =>
        have hlt := hlow hfound
        simp only [if_true]
        refine ⟨by omega, by omega, fun _ => by omega, fun h => (by cases h), ?_⟩
        intro _ p hp hbit
        rcases Nat.lt_succ_iff_lt_or_eq.mp hp with hp | rfl
        · exact ⟨(hsome hfound p hp hbit).1, Nat.lt_succ_of_lt hp⟩
        · exact ⟨Nat.le_of_lt hlt, Nat.lt_succ_self _⟩
    · rw [if_neg hmask]
      refine ⟨hhigh, horder, fun h => Nat.lt_succ_of_lt (hlow h), ?_, ?_⟩
      · intro hfound p hp
        rcases Nat.lt_succ_iff_lt_or_eq.mp hp with hp | rfl
        · exact hnone hfound p hp
        · exact Bool.eq_false_iff.mpr hmask
      · intro hfound p hp hbit
        rcases Nat.lt_succ_iff_lt_or_eq.mp hp with hp | rfl
        · exact hsome hfound p hp hbit
        · exact absurd hbit hmask

/-- Every bit of a mask is within its limits. -/
theorem masklimit_spec (mask : Nat) :
    (addrdec_getmasklimit mask).1 ≤ 64 ∧
      (addrdec_getmasklimit mask).2 ≤ (addrdec_getmasklimit mask).1 ∧
        ∀ p < 64, mask.testBit p = true →
          (addrdec_getmasklimit mask).2 ≤ p ∧ p < (addrdec_getmasklimit mask).1 := by
  have hlimits : addrdec_getmasklimit mask = ((limitsUpTo mask 64).1, (limitsUpTo mask 64).2.1) :=
    rfl
  obtain ⟨hhigh, horder, -, hnone, hsome⟩ := limitsUpTo_spec mask (le_refl 64)
  rw [hlimits]
  refine ⟨hhigh, horder, ?_⟩
  intro p hp hbit
  cases hfound : (limitsUpTo mask 64).2.2 with
  | false =>
    rw [hnone hfound p hp] at hbit
    cases hbit
  | true => exact hsome hfound p hp hbit

theorem rank_masklimit (mask : Nat) : rank mask (addrdec_getmasklimit mask).2 = 0 := by
  obtain ⟨hhigh, horder, hbits⟩ := masklimit_spec mask
  rw [rank, List.countP_eq_zero]
  intro p hp hbit
  have hlt := List.mem_range.mp hp
  have hle := (hbits p (by omega) hbit).1
  omega

theorem toUnsigned_eq (x : Nat) : toUnsigned x = x % 2 ^ 32 := rfl

theorem xorMap_toUnsigned : XorMap toUnsigned := XorMap.mod_two_pow 32

theorem xorMap_field (mask : Nat) : XorMap (Translation.field mask) :=
  xorMap_toUnsigned.comp (xorMap_packFrom mask _ _ 0)

theorem field_unit (mask : Nat) {p : Nat} (hp : p < 64) :
    Translation.field mask (2 ^ p) = toUnsigned (unitAt mask p) := by
  obtain ⟨hhigh, horder, hbits⟩ := masklimit_spec mask
  rw [Translation.field, addrdec_packbits]
  congr 1
  by_cases hmask : mask.testBit p = true
  · obtain ⟨hlow, hlt⟩ := hbits p hp hmask
    exact packFrom_unit mask p hlow (by omega) (rank_masklimit mask).symm
  · rw [unitAt, if_neg hmask, packFrom_eq_zero]
    intro q _ _ hq
    rw [Nat.testBit_two_pow]
    apply decide_eq_false
    rintro rfl
    exact hmask hq

/-! ## The hash functions -/

theorem xorMap_bitwise (n : Nat) {f g : Nat → Nat} (hf : XorMap f) (hg : XorMap g) :
    XorMap fun x => bitwise_hash_function (f x) (g x) n :=
  xorMap_toUnsigned.comp (hg.xor ((XorMap.and (n - 1)).comp hf))

theorem foldl_taps (taps : List Nat) (a a' : Nat) (b b' : Bool) :
    taps.foldl (fun b t => b ^^ (a ^^^ a').testBit t) (b ^^ b') =
      (taps.foldl (fun b t => b ^^ a.testBit t) b ^^ taps.foldl (fun b t => b ^^ a'.testBit t) b') := by
  induction taps generalizing b b' with
  | nil => rfl
  | cons t taps ih =>
    rw [List.foldl_cons, List.foldl_cons, List.foldl_cons, ← ih, Nat.testBit_xor]
    congr 1
    cases b <;> cases b' <;> cases a.testBit t <;> cases a'.testBit t <;> rfl

theorem hashBits_low (a index : Nat) (taps : List (List Nat)) {j l : Nat} (hl : l < j) :
    (hashBits a index taps j).testBit l = false := by
  induction taps generalizing j with
  | nil => exact Nat.zero_testBit l
  | cons tap taps ih =>
    rw [hashBits, Nat.testBit_or, testBit_toNat_shiftLeft, ih (Nat.lt_succ_of_lt hl),
      decide_eq_false (Nat.ne_of_lt hl), Bool.and_false, Bool.false_or]

/-- The hash bit by bit. -/
theorem hashBits_step (a index : Nat) (tap : List Nat) (taps : List (List Nat)) (j : Nat) :
    hashBits a index (tap :: taps) j =
      (tap.foldl (fun b t => b ^^ a.testBit t) (index.testBit j)).toNat <<< j ^^^
        hashBits a index taps (j + 1) := by
  rw [hashBits]
  apply or_eq_xor
  intro l hl
  rw [testBit_toNat_shiftLeft, Bool.and_eq_true, decide_eq_true_eq] at hl
  rw [hl.2]
  exact hashBits_low a index taps (Nat.lt_succ_self j)

theorem toNat_xor_shiftLeft (b b' : Bool) (j : Nat) :
    (b ^^ b').toNat <<< j = b.toNat <<< j ^^^ b'.toNat <<< j := by
  apply Nat.eq_of_testBit_eq
  intro l
  rw [Nat.testBit_xor, testBit_toNat_shiftLeft, testBit_toNat_shiftLeft, testBit_toNat_shiftLeft]
  cases b <;> cases b' <;> cases decide (l = j) <;> rfl

theorem hashBits_xor (a a' index index' : Nat) (taps : List (List Nat)) (j : Nat) :
    hashBits (a ^^^ a') (index ^^^ index') taps j =
      hashBits a index taps j ^^^ hashBits a' index' taps j := by
  induction taps generalizing j with
  | nil => exact (Nat.xor_self 0).symm
  | cons tap taps ih =>
    rw [hashBits_step, hashBits_step, hashBits_step, Nat.testBit_xor, foldl_taps,
      toNat_xor_shiftLeft, ih]
    rw [Nat.xor_assoc, Nat.xor_assoc]
    congr 1
    rw [← Nat.xor_assoc, ← Nat.xor_assoc]
    congr 1
    exact Nat.xor_comm _ _

theorem hashBits_lt (a index : Nat) (taps : List (List Nat)) (j : Nat) :
    hashBits a index taps j < 2 ^ (j + taps.length) := by
  induction taps generalizing j with
  | nil => exact Nat.two_pow_pos _
  | cons tap taps ih =>
    rw [hashBits_step]
    apply Nat.xor_lt_two_pow
    · apply Nat.lt_pow_two_of_testBit
      intro l hl
      rw [testBit_toNat_shiftLeft, List.length_cons] at *
      rw [decide_eq_false (by omega), Bool.and_false]
    · have hlength : j + (tap :: taps).length = j + 1 + taps.length := by
        rw [List.length_cons]
        omega
      rw [hlength]
      exact ih (j + 1)

/-- Without high bits the hash leaves the lower bits of the index alone. -/
theorem hashBits_zero (index : Nat) (taps : List (List Nat)) (j l : Nat) :
    (hashBits 0 index taps j).testBit l =
      (decide (j ≤ l ∧ l < j + taps.length) && index.testBit l) := by
  induction taps generalizing j with
  | nil =>
    rw [hashBits, Nat.zero_testBit, decide_eq_false, Bool.false_and]
    rw [List.length_nil]
    omega
  | cons tap taps ih =>
    have hfold : ∀ b, tap.foldl (fun b t => b ^^ (0 : Nat).testBit t) b = b := by
      intro b
      induction tap with
      | nil => rfl
      | cons t tap iht =>
        rw [List.foldl_cons, Nat.zero_testBit, Bool.xor_false]
        exact iht
    rw [hashBits, Nat.testBit_or, testBit_toNat_shiftLeft, ih, hfold, List.length_cons]
    by_cases hl : l = j
    · subst hl
      simp
    · rw [decide_eq_false hl, Bool.and_false, Bool.false_or]
      congr 1
      apply decide_eq_decide.mpr
      omega

/-! ## After init -/

/-- The members that `init` computes from the numbers of channels and sub partitions. -/
structure Ready (t : Translation) : Prop where
  channel_lt : t.m_n_channel < UNSIGNED_RANGE
  sub_lt : t.m_n_sub_partition_in_channel < 2147483648
  sub_pow : t.m_n_sub_partition_in_channel &&& (t.m_n_sub_partition_in_channel - 1) = 0
  gap : t.gap = gapOf t.m_n_channel
  log2channel : t.log2channel = LOGB2_32 t.m_n_channel
  log2sub_partition : t.log2sub_partition = LOGB2_32 t.m_n_sub_partition_in_channel
  next : t.nextPowerOf2_m_n_channel = next_powerOf2 t.m_n_channel
  id_mask : t.sub_partition_id_mask =
    sub_partition_id_maskOf t.m_n_sub_partition_in_channel t.addrdec_mask.BK

theorem init_ready {cfg : AddrdecConfig} {t : Translation} (h : init cfg = some t) : Ready t := by
  simp only [init, Option.bind_eq_bind, Option.bind_eq_some_iff] at h
  obtain ⟨⟨S, mask⟩, -, mask', -, h⟩ := h
  split_ifs at h with hpow
  cases h
  exact ⟨cfg.n_channel_lt, cfg.n_sub_partition_lt, hpow, rfl, rfl, rfl, rfl, rfl⟩

theorem halve_lt {mask shift : Nat} {s : Nat × Nat} (hshift : shift < 32) (hs : s.2 < 32) :
    (halve mask shift s).2 < 32 := by
  have hor : ∀ x < 32, s.2 ||| x < 2 ^ 5 := fun x hx => Nat.or_lt_two_pow hs hx
  simp only [halve]
  split_ifs
  · exact hor shift hshift
  · exact hor 0 (by decide)

theorem LOGB2_32_lt (v : Nat) : LOGB2_32 v < 32 :=
  halve_lt (by decide) (halve_lt (by decide) (halve_lt (by decide)
    (halve_lt (by decide) (halve_lt (by decide) (Nat.zero_lt_succ 31)))))

theorem LOGB2_32_two_pow : ∀ c < 32, LOGB2_32 (2 ^ c) = c := by decide +kernel

theorem next_powerOf2_two_pow :
    ∀ c < 32, next_powerOf2 (2 ^ c) = if c = 0 then 0 else 2 ^ c := by
  decide +kernel

namespace Ready

variable {t : Translation}

/-- Without a gap the number of channels is a power of two. -/
theorem channels (h : Ready t) (hgap : t.gap = 0) :
    t.m_n_channel = 2 ^ t.log2channel ∧ t.log2channel < 32 := by
  have hlog := LOGB2_32_lt t.m_n_channel
  have hpow : 2 ^ LOGB2_32 t.m_n_channel ≤ 2 ^ 31 := Nat.pow_le_pow_right (by decide) (by omega)
  have hpos : 0 < 2 ^ LOGB2_32 t.m_n_channel := Nat.two_pow_pos _
  have hlt := h.channel_lt
  have hzero := h.gap
  rw [hgap] at hzero
  simp only [gapOf, toUnsigned, UNSIGNED_RANGE] at hzero hlt
  rw [h.log2channel]
  refine ⟨?_, hlog⟩
  omega

/-- The number of sub partitions is a power of two, where there are any. -/
theorem subs (h : Ready t) (hpos : 0 < t.m_n_sub_partition_in_channel) :
    t.m_n_sub_partition_in_channel = 2 ^ t.log2sub_partition ∧ t.log2sub_partition < 31 := by
  obtain ⟨k, hk⟩ := (Nat.and_sub_one_eq_zero_iff_isPowerOfTwo (Nat.ne_of_gt hpos)).mp h.sub_pow
  have hlt := h.sub_lt
  have hk31 : k < 31 := by
    rw [hk] at hlt
    exact (Nat.pow_lt_pow_iff_right (by decide : 1 < 2)).mp hlt
  rw [h.log2sub_partition, hk, LOGB2_32_two_pow k (by omega)]
  exact ⟨rfl, hk31⟩

end Ready

/-! ## The index of an address -/

/-- The channel and the bits of the bank do not overlap. -/
theorem combineBank_eq {t : Translation} {k : Nat} (hk : k < 31)
    (hm : t.m_n_sub_partition_in_channel = 2 ^ k) (chip bk : Nat) :
    t.combineBank chip bk = (chip <<< k) % 2 ^ 32 ^^^ bk % 2 ^ k := by
  have hpow : 2 ^ k ≤ 2 ^ 30 := Nat.pow_le_pow_right (by decide) (by omega)
  have hpos : 0 < 2 ^ k := Nat.two_pow_pos k
  have hmask : toUnsigned (2 ^ k + (UNSIGNED_RANGE - 1)) = 2 ^ k - 1 := by
    simp only [toUnsigned, UNSIGNED_RANGE]
    omega
  have hlow : bk % 2 ^ k < 2 ^ k := Nat.mod_lt _ hpos
  have hsum : chip * 2 ^ k + bk % 2 ^ k = chip <<< k ^^^ bk % 2 ^ k := by
    rw [← Nat.shiftLeft_eq, Nat.shiftLeft_add_eq_or_of_lt hlow]
    apply or_eq_xor
    intro j hj
    have hjk : k ≤ j := by
      by_contra hlt
      rw [Nat.testBit_shiftLeft, decide_eq_false (by omega), Bool.false_and] at hj
      cases hj
    exact Nat.testBit_lt_two_pow (lt_of_lt_of_le hlow (Nat.pow_le_pow_right (by decide) hjk))
  have hsmall : bk % 2 ^ k % 2 ^ 32 = bk % 2 ^ k := Nat.mod_eq_of_lt (by omega)
  rw [Translation.combineBank, hm, hmask, Nat.and_two_pow_sub_one_eq_mod, hsum, toUnsigned_eq,
    Nat.xor_mod_two_pow, hsmall]

theorem xorMap_combineBank {t : Translation} {k : Nat} (hk : k < 31)
    (hm : t.m_n_sub_partition_in_channel = 2 ^ k) {f g : Nat → Nat} (hf : XorMap f)
    (hg : XorMap g) : XorMap fun x => t.combineBank (f x) (g x) := by
  simp only [combineBank_eq hk hm]
  exact ((XorMap.mod_two_pow 32).comp ((XorMap.shiftLeft k).comp hf)).xor
    ((XorMap.mod_two_pow k).comp hg)

/-! ## Slices and columns -/

namespace Translation

variable (t : Translation)

/-- Every address has a slice, below the number of slices, and two addresses of one slice
have different addresses in the partition. -/
structure SlicesApart : Prop where
  decoded : ∀ a < 2 ^ 64, ∃ sub_partition, t.sub_partition a = some sub_partition ∧
    sub_partition < t.m_n_channel * t.m_n_sub_partition_in_channel
  apart : ∀ a < 2 ^ 64, ∀ b < 2 ^ 64, t.sub_partition a = t.sub_partition b →
    t.partition_address a = t.partition_address b → a = b

/-- The number of banks that the hash of `IPOLY` is asked for. -/
def ipolyBanks : Nat := toUnsigned (t.nextPowerOf2_m_n_channel * t.m_n_sub_partition_in_channel)

/-- The hash has a value for the mapping: its shift is one, and there are banks of a known
number. -/
def HashDefined : Prop :=
  match t.memory_partition_indexing with
  | .CONSECUTIVE => True
  | .BITWISE_PERMUTATION => t.highShift < 64
  | .IPOLY => t.highShift < 64 ∧ (t.ipolyBanks = 16 ∨ t.ipolyBanks = 32 ∨ t.ipolyBanks = 64)

/-- The high bits that one bit of the address makes. -/
def highUnit (p : Nat) : Nat := if t.highShift ≤ p then 2 ^ (p - t.highShift) else 0

/-- What one bit of the address contributes to the channel, by its place in the mask and by
the hash. -/
def chipColumn (p : Nat) : Nat :=
  match t.memory_partition_indexing with
  | .BITWISE_PERMUTATION =>
    bitwise_hash_function (t.highUnit p) (toUnsigned (unitAt t.addrdec_mask.CHIP p)) t.m_n_channel
  | _ => toUnsigned (unitAt t.addrdec_mask.CHIP p)

/-- What it contributes to the slice. -/
def column (p : Nat) : Nat :=
  let index := t.combineBank (t.chipColumn p) (toUnsigned (unitAt t.addrdec_mask.BK p))
  match t.memory_partition_indexing with
  | .IPOLY => hashBits (t.highUnit p) index ((ipolyTaps t.ipolyBanks).getD []) 0
  | _ => index

/-- No bit contributes a channel, or a slice, that is not there. `IPOLY` cuts its index. -/
def ColumnsInRange : Prop :=
  match t.memory_partition_indexing with
  | .CONSECUTIVE => ∀ p < 64, t.column p < t.m_n_channel * t.m_n_sub_partition_in_channel
  | .BITWISE_PERMUTATION => ∀ p < 64, t.chipColumn p < t.m_n_channel
  | .IPOLY => True

/-- The mappings that keep the slices apart. With a gap between the number of channels and a
power of two: those without a hash, of numbers that fit. Without a gap: those whose columns
are in range, and independent at the bits that the partition address leaves out. -/
def Fits : Prop :=
  if t.gap = 0 then
    0 < t.m_n_sub_partition_in_channel ∧ t.HashDefined ∧ t.ColumnsInRange ∧
      Independent t.column 64 (t.addrdec_mask.CHIP ||| t.sub_partition_id_mask)
  else
    t.memory_partition_indexing = .CONSECUTIVE ∧ 0 < t.m_n_channel ∧
      0 < t.m_n_sub_partition_in_channel ∧ 0 ≤ t.ADDR_CHIP_S ∧ t.ADDR_CHIP_S < 31 ∧
        t.m_n_channel * t.m_n_sub_partition_in_channel ≤ UNSIGNED_RANGE

/-! ## A power of two of channels -/

/-- The channel of an address, where the hash has a value. -/
def chipOf (a : Nat) : Nat :=
  match t.memory_partition_indexing with
  | .BITWISE_PERMUTATION =>
    bitwise_hash_function (a >>> t.highShift) (field t.addrdec_mask.CHIP a) t.m_n_channel
  | _ => field t.addrdec_mask.CHIP a

def sliceOf (a : Nat) : Nat :=
  let index := t.combineBank (t.chipOf a) (field t.addrdec_mask.BK a)
  match t.memory_partition_indexing with
  | .IPOLY => hashBits (a >>> t.highShift) index ((ipolyTaps t.ipolyBanks).getD []) 0
  | _ => index

variable {t}

theorem xorMap_chipOf : XorMap t.chipOf := by
  cases h : t.memory_partition_indexing with
  | BITWISE_PERMUTATION =>
    intro x y
    simp only [chipOf, h]
    exact xorMap_bitwise t.m_n_channel (XorMap.shiftRight t.highShift) (xorMap_field _) x y
  | CONSECUTIVE =>
    intro x y
    simp only [chipOf, h]
    exact xorMap_field _ x y
  | IPOLY =>
    intro x y
    simp only [chipOf, h]
    exact xorMap_field _ x y

theorem xorMap_sliceOf (hready : Ready t) (hpos : 0 < t.m_n_sub_partition_in_channel) :
    XorMap t.sliceOf := by
  obtain ⟨hm, hk⟩ := hready.subs hpos
  have hchip : XorMap t.chipOf := xorMap_chipOf
  have hindex := xorMap_combineBank hk hm hchip (xorMap_field t.addrdec_mask.BK)
  cases h : t.memory_partition_indexing with
  | IPOLY =>
    intro x y
    simp only [sliceOf, h]
    have hxy : t.combineBank (t.chipOf (x ^^^ y)) (field t.addrdec_mask.BK (x ^^^ y)) = _ :=
      hindex x y
    rw [hxy, Nat.shiftRight_xor_distrib]
    exact hashBits_xor _ _ _ _ _ _
  | CONSECUTIVE =>
    intro x y
    simp only [sliceOf, h]
    exact hindex x y
  | BITWISE_PERMUTATION =>
    intro x y
    simp only [sliceOf, h]
    exact hindex x y

theorem two_pow_shiftRight (p : Nat) : 2 ^ p >>> t.highShift = t.highUnit p := by
  rw [highUnit]
  split_ifs with hle
  · rw [Nat.shiftRight_eq_div_pow, Nat.pow_div hle (by decide)]
  · rw [Nat.shiftRight_eq_div_pow, Nat.div_eq_of_lt]
    exact Nat.pow_lt_pow_right (by decide) (Nat.lt_of_not_le hle)

theorem chipOf_unit {p : Nat} (hp : p < 64) : t.chipOf (2 ^ p) = t.chipColumn p := by
  cases h : t.memory_partition_indexing <;>
    simp only [chipOf, chipColumn, h, field_unit _ hp, two_pow_shiftRight]

theorem sliceOf_unit {p : Nat} (hp : p < 64) : t.sliceOf (2 ^ p) = t.column p := by
  cases h : t.memory_partition_indexing <;>
    simp only [sliceOf, column, h, field_unit _ hp, two_pow_shiftRight, chipOf_unit hp]

/-- The slice that `addrdec_tlx` computes, where the assertions allow one. -/
theorem sub_partition_eq (hgap : t.gap = 0) (a : Nat) :
    t.sub_partition a =
      match t.memory_partition_indexing with
      | .CONSECUTIVE => some (t.sliceOf a)
      | .BITWISE_PERMUTATION =>
        if t.highShift < 64 ∧ t.chipOf a < t.m_n_channel then some (t.sliceOf a) else none
      | .IPOLY =>
        if t.highShift < 64 ∧ (ipolyTaps t.ipolyBanks).isSome = true ∧
            t.sliceOf a / t.m_n_sub_partition_in_channel < t.m_n_channel ∧ t.sliceOf a < t.n_slices then
          some (t.sliceOf a)
        else none := by
  have hparts : t.parts a =
      some (field t.addrdec_mask.CHIP a, field t.addrdec_mask.BK a,
        if t.highShift < 64 then some (a >>> t.highShift) else none) := by
    rw [parts, if_pos hgap]
  cases h : t.memory_partition_indexing with
  | CONSECUTIVE =>
    simp only [sub_partition, hparts, h, Option.bind_eq_bind, Option.bind_some, sliceOf, chipOf]
  | BITWISE_PERMUTATION =>
    by_cases hshift : t.highShift < 64
    · rw [if_pos hshift] at hparts
      simp only [sub_partition, hparts, h, Option.bind_eq_bind, Option.bind_some, if_pos hgap,
        hshift, true_and, sliceOf, chipOf]
    · rw [if_neg hshift] at hparts
      simp only [sub_partition, hparts, h, Option.bind_eq_bind, Option.bind_some, if_pos hgap,
        hshift, false_and, if_false, Option.bind_none]
  | IPOLY =>
    by_cases hshift : t.highShift < 64
    · rw [if_pos hshift] at hparts
      cases htaps : ipolyTaps t.ipolyBanks with
      | none =>
        have hhash : ∀ index, ipoly_hash_function (a >>> t.highShift) index t.ipolyBanks = none := by
          intro index
          rw [ipoly_hash_function, htaps, Option.map_none]
        simp only [sub_partition, hparts, h, Option.bind_eq_bind, Option.bind_some]
        change (ipoly_hash_function (a >>> t.highShift) _ t.ipolyBanks).bind _ = _
        rw [hhash, Option.bind_none, if_neg fun hall => by cases hall.2.1]
      | some taps =>
        have hhash : ∀ index, ipoly_hash_function (a >>> t.highShift) index t.ipolyBanks =
            some (hashBits (a >>> t.highShift) index taps 0) := by
          intro index
          rw [ipoly_hash_function, htaps, Option.map_some]
        simp only [sub_partition, hparts, h, Option.bind_eq_bind, Option.bind_some]
        change (ipoly_hash_function (a >>> t.highShift) _ t.ipolyBanks).bind _ = _
        rw [hhash]
        simp only [if_pos hgap, Option.bind_some, hshift, true_and, Option.isSome_some, sliceOf,
          chipOf, h, htaps, Option.getD_some]
    · rw [if_neg hshift] at hparts
      simp only [sub_partition, hparts, h, Option.bind_eq_bind, Option.bind_some, hshift,
        false_and, if_false, Option.bind_none]

theorem ipolyTaps_eq_some {banks : Nat} {taps : List (List Nat)}
    (h : ipolyTaps banks = some taps) :
    (banks = 16 ∨ banks = 32 ∨ banks = 64) ∧ 2 ^ taps.length = banks := by
  unfold ipolyTaps at h
  split at h
  · cases h
    exact ⟨Or.inl rfl, rfl⟩
  · cases h
    exact ⟨Or.inr (Or.inl rfl), rfl⟩
  · cases h
    exact ⟨Or.inr (Or.inr rfl), rfl⟩
  · cases h

theorem ipolyTaps_isSome (banks : Nat) :
    (ipolyTaps banks).isSome = true ↔ banks = 16 ∨ banks = 32 ∨ banks = 64 := by
  constructor
  · intro h
    obtain ⟨taps, htaps⟩ := Option.isSome_iff_exists.mp h
    exact (ipolyTaps_eq_some htaps).1
  · rintro (rfl | rfl | rfl) <;> rfl

/-- A channel that is there makes a slice that is there. -/
theorem combineBank_lt (hready : Ready t) (hpos : 0 < t.m_n_sub_partition_in_channel)
    {chip : Nat} (hchip : chip < t.m_n_channel) (bk : Nat) :
    t.combineBank chip bk < t.m_n_channel * t.m_n_sub_partition_in_channel := by
  obtain ⟨hm, hk⟩ := hready.subs hpos
  have hlt := hready.sub_lt
  have hmask : toUnsigned (t.m_n_sub_partition_in_channel + (UNSIGNED_RANGE - 1)) =
      t.m_n_sub_partition_in_channel - 1 := by
    simp only [toUnsigned, UNSIGNED_RANGE]
    omega
  have hlow : bk &&& (t.m_n_sub_partition_in_channel - 1) ≤ t.m_n_sub_partition_in_channel - 1 :=
    Nat.and_le_right
  have hmul : (chip + 1) * t.m_n_sub_partition_in_channel ≤
      t.m_n_channel * t.m_n_sub_partition_in_channel := Nat.mul_le_mul_right _ hchip
  rw [Nat.succ_mul] at hmul
  rw [combineBank, hmask]
  refine lt_of_le_of_lt (Nat.mod_le _ _) ?_
  omega

/-- What `IPOLY` makes is a slice, when there are as many banks as slices. -/
theorem ipoly_slice_lt (hready : Ready t) (hgap : t.gap = 0)
    (hindexing : t.memory_partition_indexing = .IPOLY)
    (htaps : (ipolyTaps t.ipolyBanks).isSome = true) (a : Nat) : t.sliceOf a < t.n_slices := by
  obtain ⟨hn, hc⟩ := hready.channels hgap
  obtain ⟨taps, hsome⟩ := Option.isSome_iff_exists.mp htaps
  obtain ⟨hbanks, hlength⟩ := ipolyTaps_eq_some hsome
  have hslice : t.sliceOf a < t.ipolyBanks := by
    simp only [sliceOf, hindexing, hsome, Option.getD_some]
    refine lt_of_lt_of_eq (hashBits_lt _ _ taps 0) ?_
    rw [Nat.zero_add, hlength]
  have hnext : t.nextPowerOf2_m_n_channel = if t.log2channel = 0 then 0 else t.m_n_channel := by
    rw [hready.next, hn]
    exact next_powerOf2_two_pow _ hc
  rw [ipolyBanks, hnext] at hbanks
  rw [ipolyBanks, hnext] at hslice
  split_ifs at hbanks hslice with hzero
  · rw [Nat.zero_mul] at hbanks
    rcases hbanks with h | h | h <;> cases h
  · exact hslice

/-- Without a gap every address has a slice exactly when the hash has a value and the columns
are in range. -/
theorem decoded_iff (hready : Ready t) (hgap : t.gap = 0)
    (hpos : 0 < t.m_n_sub_partition_in_channel) :
    (∀ a < 2 ^ 64, ∃ slice, t.sub_partition a = some slice ∧
        slice < t.m_n_channel * t.m_n_sub_partition_in_channel) ↔
      t.HashDefined ∧ t.ColumnsInRange := by
  obtain ⟨hn, hc⟩ := hready.channels hgap
  obtain ⟨hm, hk⟩ := hready.subs hpos
  have hslices : t.m_n_channel * t.m_n_sub_partition_in_channel =
      2 ^ (t.log2channel + t.log2sub_partition) := by
    rw [hn, hm, ← Nat.pow_add]
  cases h : t.memory_partition_indexing with
  | CONSECUTIVE =>
    have hcolumns : t.ColumnsInRange ↔ ∀ a < 2 ^ 64, t.sliceOf a <
        t.m_n_channel * t.m_n_sub_partition_in_channel := by
      rw [hslices, (xorMap_sliceOf hready hpos).lt_iff, ← hslices]
      simp only [ColumnsInRange, h]
      constructor
      · intro hcol p hp
        rw [sliceOf_unit hp]
        exact hcol p hp
      · intro hcol p hp
        rw [← sliceOf_unit hp]
        exact hcol p hp
    have hhash : t.HashDefined := by simp only [HashDefined, h]
    rw [hcolumns, and_iff_right hhash]
    simp only [sub_partition_eq hgap, h]
    constructor
    · intro hall a ha
      obtain ⟨slice, hslice, hlt⟩ := hall a ha
      cases hslice
      exact hlt
    · exact fun hall a ha => ⟨_, rfl, hall a ha⟩
  | BITWISE_PERMUTATION =>
    have hcolumns : t.ColumnsInRange ↔ ∀ a < 2 ^ 64, t.chipOf a < t.m_n_channel := by
      have hchip : XorMap t.chipOf := xorMap_chipOf
      rw [hn, hchip.lt_iff, ← hn]
      simp only [ColumnsInRange, h]
      constructor
      · intro hcol p hp
        rw [chipOf_unit hp]
        exact hcol p hp
      · intro hcol p hp
        rw [← chipOf_unit hp]
        exact hcol p hp
    have hhash : t.HashDefined ↔ t.highShift < 64 := by simp only [HashDefined, h]
    rw [hcolumns, hhash]
    simp only [sub_partition_eq hgap, h]
    constructor
    · intro hall
      have hboth : ∀ a < 2 ^ 64, t.highShift < 64 ∧ t.chipOf a < t.m_n_channel := by
        intro a ha
        obtain ⟨slice, hslice, -⟩ := hall a ha
        split_ifs at hslice with hcond
        exact hcond
      exact ⟨(hboth 0 (Nat.two_pow_pos 64)).1, fun a ha => (hboth a ha).2⟩
    · rintro ⟨hshift, hchip⟩ a ha
      refine ⟨t.sliceOf a, if_pos ⟨hshift, hchip a ha⟩, ?_⟩
      simp only [sliceOf, h]
      exact combineBank_lt hready hpos (hchip a ha) _
  | IPOLY =>
    have hhash : t.HashDefined ↔ t.highShift < 64 ∧ (ipolyTaps t.ipolyBanks).isSome = true := by
      simp only [HashDefined, h, ipolyTaps_isSome]
    have hcolumns : t.ColumnsInRange := by simp only [ColumnsInRange, h]
    rw [and_iff_left hcolumns, hhash]
    simp only [sub_partition_eq hgap, h]
    constructor
    · intro hall
      obtain ⟨slice, hslice, -⟩ := hall 0 (Nat.two_pow_pos 64)
      split_ifs at hslice with hcond
      exact ⟨hcond.1, hcond.2.1⟩
    · rintro ⟨hshift, htaps⟩ a ha
      have hlt := ipoly_slice_lt hready hgap h htaps a
      have hle : t.n_slices ≤ t.m_n_channel * t.m_n_sub_partition_in_channel := Nat.mod_le _ _
      have hdiv : t.sliceOf a / t.m_n_sub_partition_in_channel < t.m_n_channel :=
        (Nat.div_lt_iff_lt_mul hpos).mpr (lt_of_lt_of_le hlt hle)
      exact ⟨t.sliceOf a, if_pos ⟨hshift, htaps, hdiv, hlt⟩, lt_of_lt_of_le hlt hle⟩

/-- The bits that the partition address leaves out. -/
theorem partition_kernel (mask : Nat) {x : Nat} (hx : x < 2 ^ 64) :
    addrdec_packbits (complement mask) x 64 0 = 0 ↔
      ∀ p, x.testBit p = true → mask.testBit p = true := by
  have hbit : ∀ p < 64, (complement mask).testBit p = !mask.testBit p := by
    intro p hp
    have hones : (0xFFFFFFFFFFFFFFFF : Nat) = 2 ^ 64 - 1 := by decide
    rw [complement, Nat.testBit_xor, hones, Nat.testBit_two_pow_sub_one, decide_eq_true hp,
      Bool.xor_true]
  rw [addrdec_packbits, packFrom_eq_zero]
  constructor
  · intro h p hp
    have hlt : p < 64 := by
      by_contra hge
      rw [Nat.testBit_lt_two_pow (lt_of_lt_of_le hx
        (Nat.pow_le_pow_right (by decide) (Nat.le_of_not_lt hge)))] at hp
      cases hp
    by_contra hmask
    rw [h p (Nat.zero_le p) (by omega) (by rw [hbit p hlt, Bool.eq_false_iff.mpr hmask]; rfl)] at hp
    cases hp
  · intro h p _ hp hmask
    rw [hbit p (by omega)] at hmask
    by_contra hx
    rw [h p (Bool.eq_true_of_not_eq_false hx)] at hmask
    cases hmask

theorem independent_congr {column column' : Nat → Nat} {mask : Nat}
    (h : ∀ p < 64, column p = column' p) :
    Independent column 64 mask ↔ Independent column' 64 mask := by
  have hcombine : ∀ x, combine column 64 x = combine column' 64 x := fun x =>
    combine_congr h fun _ _ => rfl
  simp only [Independent, hcombine]

/-- Without a gap the slices are apart exactly when the mapping fits. -/
theorem slicesApart_of_no_gap (hready : Ready t) (hgap : t.gap = 0) : t.SlicesApart ↔ t.Fits := by
  rw [Fits, if_pos hgap]
  have happart : 0 < t.m_n_sub_partition_in_channel →
      (∀ a < 2 ^ 64, t.sub_partition a = some (t.sliceOf a)) →
      ((∀ a < 2 ^ 64, ∀ b < 2 ^ 64, t.sub_partition a = t.sub_partition b →
          t.partition_address a = t.partition_address b → a = b) ↔
        Independent t.column 64 (t.addrdec_mask.CHIP ||| t.sub_partition_id_mask)) := by
    intro hpos hslice
    have hseparates := (xorMap_sliceOf hready hpos).separates_iff
      (xorMap_packFrom (complement (t.addrdec_mask.CHIP ||| t.sub_partition_id_mask)) 64 0 0)
      fun x hx => partition_kernel (t.addrdec_mask.CHIP ||| t.sub_partition_id_mask) hx
    rw [← independent_congr fun p hp => sliceOf_unit hp, ← hseparates]
    constructor
    · intro h x hx y hy hf hg
      apply h x hx y hy
      · rw [hslice x hx, hslice y hy, hf]
      · simp only [partition_address, if_pos hgap]
        exact congrArg some hg
    · intro h x hx y hy hf hg
      rw [hslice x hx, hslice y hy] at hf
      simp only [partition_address, if_pos hgap] at hg
      exact h x hx y hy (Option.some.inj hf) (Option.some.inj hg)
  have hall : 0 < t.m_n_sub_partition_in_channel → t.HashDefined ∧ t.ColumnsInRange →
      ∀ a < 2 ^ 64, t.sub_partition a = some (t.sliceOf a) := by
    intro hpos hcond a ha
    obtain ⟨slice, hslice, -⟩ := (decoded_iff hready hgap hpos).mpr hcond a ha
    have heq := sub_partition_eq hgap a
    rw [hslice] at heq
    rw [hslice]
    cases h : t.memory_partition_indexing with
    | CONSECUTIVE =>
      simp only [h] at heq
      exact heq
    | BITWISE_PERMUTATION =>
      simp only [h] at heq
      split_ifs at heq
      exact heq
    | IPOLY =>
      simp only [h] at heq
      split_ifs at heq
      exact heq
  constructor
  · intro h
    obtain ⟨slice, -, hlt⟩ := h.decoded 0 (Nat.two_pow_pos 64)
    have hpos : 0 < t.m_n_sub_partition_in_channel := Nat.pos_of_lt_mul_left hlt
    have hcond := (decoded_iff hready hgap hpos).mp h.decoded
    exact ⟨hpos, hcond.1, hcond.2, (happart hpos (hall hpos hcond)).mp h.apart⟩
  · rintro ⟨hpos, hhash, hcolumns, hindependent⟩
    refine ⟨(decoded_iff hready hgap hpos).mpr ⟨hhash, hcolumns⟩, ?_⟩
    exact (happart hpos (hall hpos ⟨hhash, hcolumns⟩)).mpr hindependent

end Translation

end gpgpu_sim_uvm.addrdec
