-- Address decoding with a number of channels that is no power of two, and with it the
-- condition under which two addresses never share a slice and an address inside it.
import GpgpuSimUvm.AddrSlices

namespace gpgpu_sim_uvm.addrdec

open xor_maps

namespace Translation

variable {t : Translation}

/-- The lowest bits of a mask are those that are packed first. -/
theorem testBit_lowestBits (mask val : Nat) {n i left : Nat} (pos : Nat) (hleft : 0 < left)
    (hzero : ∀ j < pos + left, (packFrom mask val n i pos).testBit j = false) {p : Nat}
    (hp : (lowestBits mask n i left).testBit p = true) : val.testBit p = false := by
  induction n generalizing i left pos with
  | zero =>
    rw [lowestBits, Nat.zero_testBit] at hp
    cases hp
  | succ n ih =>
    by_cases hmask : mask.testBit i = true
    · rw [packFrom, if_pos hmask] at hzero
      rw [lowestBits, if_pos hmask, Nat.testBit_or, Nat.one_shiftLeft, Nat.testBit_two_pow,
        Bool.or_eq_true, decide_eq_true_eq] at hp
      rcases hp with rfl | hp
      · have hbit := hzero pos (by omega)
        rw [Nat.testBit_or, testBit_toNat_shiftLeft, decide_eq_true rfl, Bool.and_true,
          Bool.or_eq_false_iff] at hbit
        exact hbit.1
      · split_ifs at hp with hlast
        · rw [Nat.zero_testBit] at hp
          cases hp
        · refine ih (pos + 1) (by omega) ?_ hp
          intro j hj
          have hbit := hzero j (by omega)
          rw [Nat.testBit_or, Bool.or_eq_false_iff] at hbit
          exact hbit.2
    · rw [packFrom, if_neg hmask] at hzero
      rw [lowestBits, if_neg hmask] at hp
      exact ih pos hleft hzero hp

/-- What an address needs to be decoded with a gap: channels to divide by, and a shift that
has a value. -/
structure Divides (t : Translation) (S : Nat) : Prop where
  gap : t.gap ≠ 0
  channels : 0 < t.m_n_channel
  start : t.ADDR_CHIP_S = (S : Int)
  start_lt : S < 31

/-- The quotient above the start of the channel, and the bits below. -/
def restAt (t : Translation) (S a : Nat) : Nat := a / 2 ^ S / t.m_n_channel * 2 ^ S + a % 2 ^ S

theorem restAt_lt (S : Nat) {a : Nat} (ha : a < 2 ^ 64) : t.restAt S a < 2 ^ 64 := by
  have hdiv : a / 2 ^ S / t.m_n_channel * 2 ^ S ≤ a / 2 ^ S * 2 ^ S :=
    Nat.mul_le_mul_right _ (Nat.div_le_self _ _)
  have hsplit := Nat.div_add_mod' a (2 ^ S)
  rw [restAt]
  omega

namespace Divides

variable {S : Nat}

theorem rest_of_addr (h : Divides t S) (a : Nat) : t.rest_of_addr a = some (t.restAt S a) := by
  have hdefined : 0 < t.m_n_channel ∧ 0 ≤ t.ADDR_CHIP_S ∧ t.ADDR_CHIP_S < 31 := by
    have hstart := h.start
    have hlt := h.start_lt
    exact ⟨h.channels, by omega, by omega⟩
  have hS : t.ADDR_CHIP_S.toNat = S := by rw [h.start, Int.toNat_natCast]
  have hlow : a % 2 ^ S < 2 ^ S := Nat.mod_lt _ (Nat.two_pow_pos S)
  rw [Translation.rest_of_addr, if_pos hdefined]
  simp only [hS, Nat.and_two_pow_sub_one_eq_mod]
  rw [← Nat.shiftLeft_add_eq_or_of_lt hlow, Nat.shiftLeft_eq, Nat.shiftRight_eq_div_pow, restAt]

theorem partition_address (h : Divides t S) (a : Nat) : t.partition_address a =
    some (addrdec_packbits (complement t.sub_partition_id_mask) (t.restAt S a) 64 0) := by
  rw [Translation.partition_address, if_neg h.gap, h.rest_of_addr, Option.map_some]

theorem parts (h : Divides t S) (hready : Ready t) (a : Nat) : t.parts a =
    some (a / 2 ^ S % t.m_n_channel, field t.addrdec_mask.BK (t.restAt S a),
      some (a / 2 ^ S / t.m_n_channel)) := by
  have hS : t.ADDR_CHIP_S.toNat = S := by rw [h.start, Int.toNat_natCast]
  have hchip : toUnsigned (a / 2 ^ S % t.m_n_channel) = a / 2 ^ S % t.m_n_channel :=
    Nat.mod_eq_of_lt (lt_trans (Nat.mod_lt _ h.channels) hready.channel_lt)
  rw [Translation.parts, if_neg h.gap, h.rest_of_addr, Option.map_some, hS,
    Nat.shiftRight_eq_div_pow, hchip]

/-- The addresses that fall on a channel with nothing below it. -/
theorem at_channel (h : Divides t S) {q c : Nat} (hc : c < t.m_n_channel) :
    (q * t.m_n_channel + c) * 2 ^ S / 2 ^ S % t.m_n_channel = c ∧
      (q * t.m_n_channel + c) * 2 ^ S / 2 ^ S / t.m_n_channel = q ∧
        t.restAt S ((q * t.m_n_channel + c) * 2 ^ S) = q * 2 ^ S := by
  have hdiv : (q * t.m_n_channel + c) * 2 ^ S / 2 ^ S = q * t.m_n_channel + c :=
    Nat.mul_div_cancel _ (Nat.two_pow_pos S)
  have hquot : (q * t.m_n_channel + c) / t.m_n_channel = q := by
    rw [Nat.mul_comm, Nat.mul_add_div h.channels, Nat.div_eq_of_lt hc, Nat.add_zero]
  refine ⟨?_, ?_, ?_⟩
  · rw [hdiv, Nat.mul_comm, Nat.mul_add_mod, Nat.mod_eq_of_lt hc]
  · rw [hdiv, hquot]
  · rw [restAt, hdiv, hquot, Nat.mul_mod_left, Nat.add_zero]

end Divides

/-- A slice that is there is the channel and the bits of the bank. -/
theorem combineBank_div_mod (hready : Ready t) (hpos : 0 < t.m_n_sub_partition_in_channel)
    (hfits : t.m_n_channel * t.m_n_sub_partition_in_channel ≤ UNSIGNED_RANGE) {chip : Nat}
    (hchip : chip < t.m_n_channel) (bk : Nat) :
    t.combineBank chip bk = chip * t.m_n_sub_partition_in_channel +
      bk % t.m_n_sub_partition_in_channel := by
  obtain ⟨hm, hk⟩ := hready.subs hpos
  have hlt := hready.sub_lt
  have hmask : toUnsigned (t.m_n_sub_partition_in_channel + (UNSIGNED_RANGE - 1)) =
      t.m_n_sub_partition_in_channel - 1 := by
    simp only [toUnsigned, UNSIGNED_RANGE]
    omega
  have hlow : bk &&& (t.m_n_sub_partition_in_channel - 1) = bk % t.m_n_sub_partition_in_channel := by
    rw [hm, Nat.and_two_pow_sub_one_eq_mod]
  have hmod : bk % t.m_n_sub_partition_in_channel < t.m_n_sub_partition_in_channel :=
    Nat.mod_lt _ hpos
  have hmul : (chip + 1) * t.m_n_sub_partition_in_channel ≤
      t.m_n_channel * t.m_n_sub_partition_in_channel := Nat.mul_le_mul_right _ hchip
  rw [Nat.succ_mul] at hmul
  rw [combineBank, hmask, hlow]
  apply Nat.mod_eq_of_lt
  omega

/-- Two addresses with the same rest and the same channel are one. -/
theorem eq_of_restAt {S a b : Nat} (hrest : t.restAt S a = t.restAt S b)
    (hchip : a / 2 ^ S % t.m_n_channel = b / 2 ^ S % t.m_n_channel) : a = b := by
  have hpos : 0 < 2 ^ S := Nat.two_pow_pos S
  have hlow : a % 2 ^ S = b % 2 ^ S := by
    have hmod := congrArg (· % 2 ^ S) hrest
    simp only [restAt, Nat.mul_add_mod_self_right, Nat.mod_mod] at hmod
    exact hmod
  have hquot : a / 2 ^ S / t.m_n_channel = b / 2 ^ S / t.m_n_channel := by
    rw [restAt, restAt, hlow] at hrest
    exact Nat.eq_of_mul_eq_mul_right hpos (Nat.add_right_cancel hrest)
  have hhigh : a / 2 ^ S = b / 2 ^ S := by
    rw [← Nat.div_add_mod (a / 2 ^ S) t.m_n_channel, hquot, hchip, Nat.div_add_mod]
  rw [← Nat.div_add_mod a (2 ^ S), hhigh, hlow, Nat.div_add_mod]

/-- A rest whose lower bank bits and whose partition address vanish is zero. -/
theorem rest_eq_zero (hready : Ready t) (hpos : 0 < t.m_n_sub_partition_in_channel) {x : Nat}
    (hx : x < 2 ^ 64) (hbank : field t.addrdec_mask.BK x % t.m_n_sub_partition_in_channel = 0)
    (hpack : addrdec_packbits (complement t.sub_partition_id_mask) x 64 0 = 0) : x = 0 := by
  obtain ⟨hm, hk⟩ := hready.subs hpos
  have hmask := (partition_kernel t.sub_partition_id_mask hx).mp hpack
  apply Nat.zero_of_testBit_eq_false
  intro p
  by_contra hbit
  have hset := Bool.eq_true_of_not_eq_false hbit
  have hid := hmask p hset
  rw [hready.id_mask, sub_partition_id_maskOf] at hid
  split_ifs at hid with hone
  · have hlog : 0 < t.log2sub_partition := by
      by_contra hzero
      rw [hm, Nat.eq_zero_of_not_pos hzero] at hone
      exact absurd hone (by decide)
    rw [← hready.log2sub_partition] at hid
    refine hbit (testBit_lowestBits _ x 0 hlog ?_ hid)
    intro j hj
    have hj' : j < t.log2sub_partition := by omega
    have hlow := congrArg (fun y => Nat.testBit y j) hbank
    rw [hm] at hlow
    simp only [field, addrdec_packbits, toUnsigned_eq, Nat.testBit_mod_two_pow, Nat.zero_testBit,
      decide_eq_true hj', decide_eq_true (show j < 32 by omega), Bool.true_and] at hlow
    exact hlow
  · rw [Nat.zero_testBit] at hid
    cases hid

theorem sub_partition_of_divides {S : Nat} (h : Divides t S) (hready : Ready t)
    (hindexing : t.memory_partition_indexing = .CONSECUTIVE) (a : Nat) :
    t.sub_partition a =
      some (t.combineBank (a / 2 ^ S % t.m_n_channel) (field t.addrdec_mask.BK (t.restAt S a))) := by
  simp only [sub_partition, h.parts hready, hindexing, Option.bind_eq_bind, Option.bind_some]

/-- Without a hash, and with a number of slices that fits, the slices are apart. -/
theorem apart_of_divides {S : Nat} (h : Divides t S) (hready : Ready t)
    (hindexing : t.memory_partition_indexing = .CONSECUTIVE)
    (hpos : 0 < t.m_n_sub_partition_in_channel)
    (hfits : t.m_n_channel * t.m_n_sub_partition_in_channel ≤ UNSIGNED_RANGE) :
    t.SlicesApart := by
  have hslice := sub_partition_of_divides h hready hindexing
  refine ⟨?_, ?_⟩
  · intro a _
    exact ⟨_, hslice a, combineBank_lt hready hpos (Nat.mod_lt _ h.channels) _⟩
  · intro a ha b hb hsub hpart
    obtain ⟨hm, hk⟩ := hready.subs hpos
    have hchipa := Nat.mod_lt (a / 2 ^ S) h.channels
    have hchipb := Nat.mod_lt (b / 2 ^ S) h.channels
    rw [hslice, hslice] at hsub
    have hindex := Option.some.inj hsub
    rw [combineBank_div_mod hready hpos hfits hchipa, combineBank_div_mod hready hpos hfits hchipb]
      at hindex
    have hchip : a / 2 ^ S % t.m_n_channel = b / 2 ^ S % t.m_n_channel := by
      have hdiv : ∀ c r : Nat, (c * t.m_n_sub_partition_in_channel +
          r % t.m_n_sub_partition_in_channel) / t.m_n_sub_partition_in_channel = c := by
        intro c r
        rw [Nat.mul_comm, Nat.mul_add_div hpos, Nat.div_eq_of_lt (Nat.mod_lt r hpos), Nat.add_zero]
      rw [← hdiv (a / 2 ^ S % t.m_n_channel), hindex, hdiv]
    have hbank : field t.addrdec_mask.BK (t.restAt S a) % t.m_n_sub_partition_in_channel =
        field t.addrdec_mask.BK (t.restAt S b) % t.m_n_sub_partition_in_channel := by
      rw [hchip] at hindex
      exact Nat.add_left_cancel hindex
    have hpack := hpart
    rw [h.partition_address, h.partition_address] at hpack
    have hpack' := Option.some.inj hpack
    refine eq_of_restAt (Nat.xor_eq_zero_iff.mp ?_) hchip
    apply rest_eq_zero hready hpos (Nat.xor_lt_two_pow (restAt_lt S ha) (restAt_lt S hb))
    · rw [xorMap_field t.addrdec_mask.BK, hm, Nat.xor_mod_two_pow, ← hm, hbank, Nat.xor_self]
    · have hxor := xorMap_packFrom (complement t.sub_partition_id_mask) 64 0 0
      exact (hxor.eq_iff _ _).mp hpack'

/-- A number of slices that does not fit wraps back to the first. -/
theorem not_apart_of_overflow {S : Nat} (h : Divides t S) (hready : Ready t)
    (hindexing : t.memory_partition_indexing = .CONSECUTIVE)
    (hpos : 0 < t.m_n_sub_partition_in_channel)
    (hmany : UNSIGNED_RANGE < t.m_n_channel * t.m_n_sub_partition_in_channel) :
    ¬ t.SlicesApart := by
  intro hapart
  obtain ⟨hm, hk⟩ := hready.subs hpos
  have hmul : 2 ^ (32 - t.log2sub_partition) * t.m_n_sub_partition_in_channel = UNSIGNED_RANGE := by
    rw [hm, ← Nat.pow_add, Nat.sub_add_cancel (by omega)]
    rfl
  have hc : 2 ^ (32 - t.log2sub_partition) < t.m_n_channel := by
    rw [← hmul] at hmany
    exact Nat.lt_of_mul_lt_mul_right hmany
  obtain ⟨hchip, -, hrest⟩ := h.at_channel hc (q := 0)
  obtain ⟨hchip', -, hrest'⟩ := h.at_channel h.channels (q := 0)
  have hbk : field t.addrdec_mask.BK (0 * 2 ^ S) = 0 := by
    rw [Nat.zero_mul]
    exact (xorMap_field _).map_zero
  have hlt : (0 * t.m_n_channel + 2 ^ (32 - t.log2sub_partition)) * 2 ^ S < 2 ^ 64 := by
    rw [Nat.zero_mul, Nat.zero_add, ← Nat.pow_add]
    have hS := h.start_lt
    exact Nat.pow_lt_pow_right (by decide) (by omega)
  have hlt' : (0 * t.m_n_channel + 0) * 2 ^ S < 2 ^ 64 := by
    rw [Nat.zero_mul, Nat.zero_mul]
    exact Nat.two_pow_pos 64
  have hzero : t.combineBank (2 ^ (32 - t.log2sub_partition)) 0 = t.combineBank 0 0 := by
    simp only [combineBank, Nat.zero_and, Nat.add_zero, hmul, Nat.zero_mul]
    rfl
  have heq := hapart.apart _ hlt _ hlt' (by
    rw [sub_partition_of_divides h hready hindexing, sub_partition_of_divides h hready hindexing,
      hchip, hchip', hrest, hrest', hbk, hzero])
    (by rw [h.partition_address, h.partition_address, hrest, hrest'])
  have hsame := Nat.eq_of_mul_eq_mul_right (Nat.two_pow_pos S) heq
  rw [Nat.zero_mul, Nat.zero_add] at hsame
  exact Nat.ne_of_gt (Nat.two_pow_pos _) hsame

/-! ### The hash folds slices together -/

/-- Two addresses whose hashes agree up to a multiple of the number of slices have one slice. -/
theorem sub_partition_congr {S : Nat} (h : Divides t S) (hready : Ready t)
    (hindexing : t.memory_partition_indexing = .IPOLY) {q c c' : Nat} (hc : c < t.m_n_channel)
    (hc' : c' < t.m_n_channel) {taps : List (List Nat)} (htaps : ipolyTaps t.ipolyBanks = some taps)
    (hhash :
      hashBits q (t.combineBank c (field t.addrdec_mask.BK (q * 2 ^ S))) taps 0 % t.n_slices =
        hashBits q (t.combineBank c' (field t.addrdec_mask.BK (q * 2 ^ S))) taps 0 % t.n_slices) :
    t.sub_partition ((q * t.m_n_channel + c) * 2 ^ S) =
      t.sub_partition ((q * t.m_n_channel + c') * 2 ^ S) := by
  have hslice : ∀ d < t.m_n_channel, t.sub_partition ((q * t.m_n_channel + d) * 2 ^ S) =
      (if t.n_slices = 0 then none else
        some (hashBits q (t.combineBank d (field t.addrdec_mask.BK (q * 2 ^ S))) taps 0 %
          t.n_slices)).bind fun sub_partition =>
        if sub_partition / t.m_n_sub_partition_in_channel < t.m_n_channel ∧
            sub_partition < t.n_slices then some sub_partition else none := by
    intro d hd
    obtain ⟨hchip, hquot, hrest⟩ := h.at_channel hd (q := q)
    have hipoly : ∀ index, ipoly_hash_function q index t.ipolyBanks =
        some (hashBits q index taps 0) := by
      intro index
      rw [ipoly_hash_function, htaps, Option.map_some]
    have hparts := h.parts hready ((q * t.m_n_channel + d) * 2 ^ S)
    rw [hchip, hquot, hrest] at hparts
    simp only [sub_partition, hparts, hindexing, Option.bind_eq_bind, Option.bind_some]
    change (ipoly_hash_function q _ t.ipolyBanks).bind _ = _
    rw [hipoly]
    simp only [if_neg h.gap, Option.bind_some]
    by_cases hzero : t.n_slices = 0
    · simp only [if_pos hzero]
    · simp only [if_neg hzero, Option.bind_some]
  rw [hslice c hc, hslice c' hc', hhash]

/-- Two channels whose hashes agree up to a multiple of the number of slices alias. -/
theorem not_apart_of_hash {S : Nat} (h : Divides t S) (hready : Ready t)
    (hindexing : t.memory_partition_indexing = .IPOLY) {q c c' : Nat} (hc : c < t.m_n_channel)
    (hc' : c' < t.m_n_channel) (hne : c ≠ c') (hq : (q + 1) * t.m_n_channel ≤ 2 ^ 33)
    {taps : List (List Nat)} (htaps : ipolyTaps t.ipolyBanks = some taps)
    (hhash :
      hashBits q (t.combineBank c (field t.addrdec_mask.BK (q * 2 ^ S))) taps 0 % t.n_slices =
        hashBits q (t.combineBank c' (field t.addrdec_mask.BK (q * 2 ^ S))) taps 0 % t.n_slices) :
    ¬ t.SlicesApart := by
  intro hapart
  have hlt : ∀ d < t.m_n_channel, (q * t.m_n_channel + d) * 2 ^ S < 2 ^ 64 := by
    intro d hd
    have hS : 2 ^ S ≤ 2 ^ 30 := Nat.pow_le_pow_right (by decide) (Nat.le_of_lt_succ h.start_lt)
    have hhigh : q * t.m_n_channel + d < 2 ^ 33 := by
      rw [Nat.succ_mul] at hq
      omega
    calc (q * t.m_n_channel + d) * 2 ^ S
        ≤ 2 ^ 33 * 2 ^ 30 := Nat.mul_le_mul (Nat.le_of_lt hhigh) hS
      _ < 2 ^ 64 := by decide
  have heq := hapart.apart _ (hlt c hc) _ (hlt c' hc')
    (sub_partition_congr h hready hindexing hc hc' htaps hhash) (by
      rw [h.partition_address, h.partition_address, (h.at_channel hc).2.2, (h.at_channel hc').2.2])
  have hsame := Nat.eq_of_mul_eq_mul_right (Nat.two_pow_pos S) heq
  exact hne (Nat.add_left_cancel hsame)

/-- Without high bits the hash keeps the index up to the number of banks. -/
theorem hashBits_zero_eq {banks : Nat} {taps : List (List Nat)}
    (htaps : ipolyTaps banks = some taps) (index : Nat) :
    hashBits 0 index taps 0 = index % banks := by
  rw [← (ipolyTaps_eq_some htaps).2]
  apply Nat.eq_of_testBit_eq
  intro l
  rw [hashBits_zero, Nat.testBit_mod_two_pow]
  congr 1
  apply decide_eq_decide.mpr
  omega

/-- The number of channels and the next power of two, for the numbers of a small hash. -/
theorem next_powerOf2_of_gap : ∀ n ≤ 64, 0 < n → gapOf n ≠ 0 →
    next_powerOf2 n = 2 ^ LOGB2_32 n + 2 ^ LOGB2_32 n ∧ 2 ^ LOGB2_32 n < n ∧
      n < 2 ^ LOGB2_32 n + 2 ^ LOGB2_32 n := by
  decide +kernel

/-- High bits that the hash maps to the highest bit of the index alone. -/
theorem hashBits_top {banks : Nat} {taps : List (List Nat)}
    (htaps : ipolyTaps banks = some taps) :
    ∃ q ≤ 33, hashBits q 0 taps 0 + hashBits q 0 taps 0 = banks := by
  unfold ipolyTaps at htaps
  split at htaps
  · cases htaps
    exact ⟨9, by decide, by decide⟩
  · cases htaps
    exact ⟨18, by decide, by decide⟩
  · cases htaps
    exact ⟨33, by decide, by decide⟩
  · cases htaps

/-- The hash splits into the index and what the high bits add. -/
theorem hashBits_split (a index : Nat) (taps : List (List Nat)) :
    hashBits a index taps 0 = hashBits a 0 taps 0 ^^^ hashBits 0 index taps 0 := by
  rw [← hashBits_xor, Nat.xor_zero, Nat.zero_xor]

theorem gap_one : gapOf 1 = 0 := by decide

/-- With more slices than banks two channels have the same index up to the banks. -/
theorem not_apart_of_banks_lt {S : Nat} (h : Divides t S) (hready : Ready t)
    (hindexing : t.memory_partition_indexing = .IPOLY)
    (hpos : 0 < t.m_n_sub_partition_in_channel) {taps : List (List Nat)}
    (htaps : ipolyTaps t.ipolyBanks = some taps)
    (hlt : t.ipolyBanks < t.m_n_channel * t.m_n_sub_partition_in_channel) : ¬ t.SlicesApart := by
  obtain ⟨hm, hk⟩ := hready.subs hpos
  obtain ⟨hbanks, hlength⟩ := ipolyTaps_eq_some htaps
  have hdvd : t.ipolyBanks ∣ 2 ^ 32 := by
    rcases hbanks with h | h | h <;> rw [h] <;> decide
  have hchannel : ∃ c, 0 < c ∧ c < t.m_n_channel ∧
      t.ipolyBanks ∣ c * t.m_n_sub_partition_in_channel := by
    by_cases hle : t.log2sub_partition ≤ taps.length
    · have hmul : 2 ^ (taps.length - t.log2sub_partition) * t.m_n_sub_partition_in_channel =
          t.ipolyBanks := by
        rw [hm, ← Nat.pow_add, Nat.sub_add_cancel hle, hlength]
      refine ⟨2 ^ (taps.length - t.log2sub_partition), Nat.two_pow_pos _, ?_, ?_⟩
      · rw [← hmul] at hlt
        exact Nat.lt_of_mul_lt_mul_right hlt
      · rw [hmul]
    · refine ⟨1, Nat.zero_lt_one, ?_, ?_⟩
      · have hone : t.m_n_channel ≠ 1 := by
          intro hone
          apply h.gap
          rw [hready.gap, hone, gap_one]
        have hn := h.channels
        omega
      · rw [Nat.one_mul, hm, ← hlength]
        exact Nat.pow_dvd_pow 2 (by omega)
  obtain ⟨c, hcpos, hc, hdvdc⟩ := hchannel
  have hindex : ∀ d, t.combineBank d 0 % t.ipolyBanks =
      d * t.m_n_sub_partition_in_channel % t.ipolyBanks := by
    intro d
    rw [combineBank, Nat.zero_and, Nat.add_zero, toUnsigned_eq, Nat.mod_mod_of_dvd _ hdvd]
  have hbk : field t.addrdec_mask.BK (0 * 2 ^ S) = 0 := by
    rw [Nat.zero_mul]
    exact (xorMap_field _).map_zero
  have hrange : (0 + 1) * t.m_n_channel ≤ 2 ^ 33 := by
    have hn := hready.channel_lt
    simp only [UNSIGNED_RANGE] at hn
    omega
  apply not_apart_of_hash h hready hindexing hc h.channels (Nat.ne_of_gt hcpos) hrange htaps
  rw [hbk, hashBits_zero_eq htaps, hashBits_zero_eq htaps, hindex, hindex,
    Nat.mod_eq_zero_of_dvd hdvdc, Nat.zero_mul, Nat.zero_mod t.ipolyBanks]

/-- With fewer, the hash reaches values above the number of slices, which are folded back. -/
theorem not_apart_of_banks_ge {S : Nat} (h : Divides t S) (hready : Ready t)
    (hindexing : t.memory_partition_indexing = .IPOLY)
    (hpos : 0 < t.m_n_sub_partition_in_channel) {taps : List (List Nat)}
    (htaps : ipolyTaps t.ipolyBanks = some taps)
    (hle : t.m_n_channel * t.m_n_sub_partition_in_channel ≤ t.ipolyBanks) : ¬ t.SlicesApart := by
  obtain ⟨hm, hk⟩ := hready.subs hpos
  obtain ⟨hbanks, hlength⟩ := ipolyTaps_eq_some htaps
  have hbound : t.ipolyBanks ≤ 64 := by omega
  have hn64 : t.m_n_channel ≤ 64 := by
    have hmul := Nat.le_mul_of_pos_right t.m_n_channel hpos
    omega
  have hm64 : t.m_n_sub_partition_in_channel ≤ 64 := by
    have hmul := Nat.le_mul_of_pos_left t.m_n_sub_partition_in_channel h.channels
    omega
  have hgap := h.gap
  rw [hready.gap] at hgap
  obtain ⟨hnext, hlow, hhigh⟩ := next_powerOf2_of_gap t.m_n_channel hn64 h.channels hgap
  generalize hhalf : 2 ^ LOGB2_32 t.m_n_channel = half at hnext hlow hhigh
  -- half of the banks is the top bit of the index
  have htwice : t.ipolyBanks = half * t.m_n_sub_partition_in_channel +
      half * t.m_n_sub_partition_in_channel := by
    have hmul : (half + half) * t.m_n_sub_partition_in_channel ≤ 128 * 64 :=
      Nat.mul_le_mul (by omega) hm64
    have hsmall : (half + half) * t.m_n_sub_partition_in_channel % 2 ^ 32 =
        (half + half) * t.m_n_sub_partition_in_channel := Nat.mod_eq_of_lt (by omega)
    rw [ipolyBanks, hready.next, hnext, toUnsigned_eq, hsmall, Nat.add_mul]
  have htoppow : half * t.m_n_sub_partition_in_channel =
      2 ^ (LOGB2_32 t.m_n_channel + t.log2sub_partition) := by
    rw [← hhalf, hm, ← Nat.pow_add]
  obtain ⟨q, hq, hqhash⟩ := hashBits_top htaps
  have hqtop : hashBits q 0 taps 0 = half * t.m_n_sub_partition_in_channel := by omega
  have hfits : t.m_n_channel * t.m_n_sub_partition_in_channel ≤ UNSIGNED_RANGE := by
    simp only [UNSIGNED_RANGE]
    omega
  generalize hlowbits : field t.addrdec_mask.BK (q * 2 ^ S) % t.m_n_sub_partition_in_channel = low
  have hlowlt : low < t.m_n_sub_partition_in_channel := by
    rw [← hlowbits]
    exact Nat.mod_lt _ hpos
  have hslices : t.n_slices = t.m_n_channel * t.m_n_sub_partition_in_channel := by
    rw [n_slices, toUnsigned_eq]
    apply Nat.mod_eq_of_lt
    omega
  have hother : t.m_n_channel - half < t.m_n_channel := by omega
  have hrange : (q + 1) * t.m_n_channel ≤ 2 ^ 33 := by
    calc (q + 1) * t.m_n_channel ≤ 34 * 64 := Nat.mul_le_mul (by omega) hn64
      _ ≤ 2 ^ 33 := by decide
  apply not_apart_of_hash h hready hindexing hlow hother (by omega) hrange htaps
  have hsub : (t.m_n_channel - half) * t.m_n_sub_partition_in_channel +
      half * t.m_n_sub_partition_in_channel =
        t.m_n_channel * t.m_n_sub_partition_in_channel := by
    rw [← Nat.add_mul, Nat.sub_add_cancel (Nat.le_of_lt hlow)]
  -- below the top bit, the hash adds half of the banks
  have hadd : ∀ x < half * t.m_n_sub_partition_in_channel,
      half * t.m_n_sub_partition_in_channel ^^^ x = half * t.m_n_sub_partition_in_channel + x := by
    intro x hx
    rw [htoppow] at hx ⊢
    have hadd := Nat.two_pow_add_eq_or_of_lt hx 1
    rw [Nat.mul_one] at hadd
    rw [hadd]
    symm
    apply or_eq_xor
    intro j hj
    rw [Nat.testBit_two_pow, decide_eq_true_eq] at hj
    rw [← hj]
    exact Nat.testBit_lt_two_pow hx
  have hindex : ∀ d < t.m_n_channel, hashBits 0
      (t.combineBank d (field t.addrdec_mask.BK (q * 2 ^ S))) taps 0 =
        d * t.m_n_sub_partition_in_channel + low := by
    intro d hd
    have hmul : (d + 1) * t.m_n_sub_partition_in_channel ≤
        t.m_n_channel * t.m_n_sub_partition_in_channel := Nat.mul_le_mul_right _ hd
    rw [Nat.succ_mul] at hmul
    rw [hashBits_zero_eq htaps, combineBank_div_mod hready hpos hfits hd, hlowbits]
    apply Nat.mod_eq_of_lt
    omega
  have hcancel : half * t.m_n_sub_partition_in_channel ^^^
      (half * t.m_n_sub_partition_in_channel + low) = low := by
    rw [← hadd low (by
      have hmul := Nat.le_mul_of_pos_left t.m_n_sub_partition_in_channel (show 0 < half by omega)
      omega), Nat.xor_xor_cancel_left]
  have hbelow : (t.m_n_channel - half) * t.m_n_sub_partition_in_channel + low <
      half * t.m_n_sub_partition_in_channel := by
    have hmul : (t.m_n_channel - half + 1) * t.m_n_sub_partition_in_channel ≤
        half * t.m_n_sub_partition_in_channel := Nat.mul_le_mul_right _ (by omega)
    rw [Nat.succ_mul] at hmul
    omega
  have hfold : half * t.m_n_sub_partition_in_channel +
      ((t.m_n_channel - half) * t.m_n_sub_partition_in_channel + low) =
        low + t.m_n_channel * t.m_n_sub_partition_in_channel := by
    omega
  rw [hashBits_split q (t.combineBank half _), hashBits_split q (t.combineBank (_ - half) _),
    hqtop, hindex half hlow, hindex _ hother, hcancel, hadd _ hbelow, hslices, hfold,
    Nat.add_mod_right]

/-- With a gap the slices are apart exactly when the mapping fits. -/
theorem slicesApart_of_gap (hready : Ready t) (hgap : t.gap ≠ 0) : t.SlicesApart ↔ t.Fits := by
  rw [Fits, if_neg hgap]
  constructor
  · intro hapart
    obtain ⟨slice, hslice, hlt⟩ := hapart.decoded 0 (Nat.two_pow_pos 64)
    have hpos : 0 < t.m_n_sub_partition_in_channel := Nat.pos_of_lt_mul_left hlt
    have hdefined : 0 < t.m_n_channel ∧ 0 ≤ t.ADDR_CHIP_S ∧ t.ADDR_CHIP_S < 31 := by
      by_contra hnot
      have hparts : t.parts 0 = none := by
        rw [parts, if_neg hgap, rest_of_addr, if_neg hnot, Option.map_none]
      simp only [sub_partition, hparts, Option.bind_eq_bind, Option.bind_none] at hslice
      cases hslice
    obtain ⟨S, hS⟩ := Int.eq_ofNat_of_zero_le hdefined.2.1
    have h : Divides t S := ⟨hgap, hdefined.1, hS, by omega⟩
    cases hindexing : t.memory_partition_indexing with
    | BITWISE_PERMUTATION =>
      simp only [sub_partition, h.parts hready, hindexing, Option.bind_eq_bind, Option.bind_some,
        if_neg hgap] at hslice
      cases hslice
    | IPOLY =>
      cases htaps : ipolyTaps t.ipolyBanks with
      | none =>
        have hhash : ∀ high index, ipoly_hash_function high index t.ipolyBanks = none := by
          intro high index
          rw [ipoly_hash_function, htaps, Option.map_none]
        simp only [sub_partition, h.parts hready, hindexing, Option.bind_eq_bind,
          Option.bind_some] at hslice
        change (ipoly_hash_function _ _ t.ipolyBanks).bind _ = _ at hslice
        rw [hhash, Option.bind_none] at hslice
        cases hslice
      | some taps =>
        by_cases hbanks : t.ipolyBanks < t.m_n_channel * t.m_n_sub_partition_in_channel
        · exact absurd hapart (not_apart_of_banks_lt h hready hindexing hpos htaps hbanks)
        · exact absurd hapart (not_apart_of_banks_ge h hready hindexing hpos htaps
            (Nat.le_of_not_lt hbanks))
    | CONSECUTIVE =>
      refine ⟨rfl, hdefined.1, hpos, hdefined.2.1, hdefined.2.2, ?_⟩
      by_contra hmany
      exact not_apart_of_overflow h hready hindexing hpos (Nat.lt_of_not_le hmany) hapart
  · rintro ⟨hindexing, hn, hpos, hS0, hS31, hfits⟩
    obtain ⟨S, hS⟩ := Int.eq_ofNat_of_zero_le hS0
    have h : Divides t S := ⟨hgap, hn, hS, by omega⟩
    exact apart_of_divides h hready hindexing hpos hfits

end Translation

/-! ## Every mapping -/

/-- The address decoder keeps the lines of each slice apart for the mappings that fit, and for
no others that `init` accepts. -/
theorem slices_apart_iff {cfg : AddrdecConfig} {t : Translation} (h : init cfg = some t) :
    t.SlicesApart ↔ t.Fits := by
  by_cases hgap : t.gap = 0
  · exact Translation.slicesApart_of_no_gap (init_ready h) hgap
  · exact Translation.slicesApart_of_gap (init_ready h) hgap

/-- Three channels of two sub partitions under the first mapping of the table. -/
def threeChannels (indexing : PartitionIndexFunction) (n_sub_partition : Fin 8) : AddrdecConfig where
  n_channel := 3
  n_sub_partition_in_channel := n_sub_partition
  gpgpu_mem_address_mask := 0
  addrdec_option := none
  memory_partition_indexing := indexing
  n_channel_lt := by decide
  n_sub_partition_lt := by omega

theorem slices_apart_without_hash :
    ∃ t, init (threeChannels .CONSECUTIVE 2) = some t ∧ t.SlicesApart := by
  obtain ⟨t, ht⟩ := Option.isSome_iff_exists.mp
    (show (init (threeChannels .CONSECUTIVE 2)).isSome = true by decide +kernel)
  refine ⟨t, ht, (slices_apart_iff ht).mpr ?_⟩
  have hfields : t.gap = 1 ∧ t.memory_partition_indexing = .CONSECUTIVE ∧ t.m_n_channel = 3 ∧
      t.m_n_sub_partition_in_channel = 2 ∧ t.ADDR_CHIP_S = 10 := by
    cases ht
    decide +kernel
  obtain ⟨hgap, hindexing, hn, hm, hS⟩ := hfields
  rw [Translation.Fits, if_neg (by rw [hgap]; decide), hn, hm, hS]
  exact ⟨hindexing, by decide⟩

/-- Twelve slices, hashed into sixteen banks. -/
theorem slices_alias_under_hash :
    ¬ ∀ cfg t, init cfg = some t → t.SlicesApart := by
  intro h
  obtain ⟨t, ht⟩ := Option.isSome_iff_exists.mp
    (show (init (threeChannels .IPOLY 4)).isSome = true by decide +kernel)
  have hapart := (h _ t ht).apart 0x6400 (by decide) 0x6800 (by decide)
  have hsame : t.sub_partition 0x6400 = t.sub_partition 0x6800 ∧
      t.partition_address 0x6400 = t.partition_address 0x6800 := by
    cases ht
    decide +kernel
  exact absurd (hapart hsame.1 hsame.2) (by decide)

end gpgpu_sim_uvm.addrdec
