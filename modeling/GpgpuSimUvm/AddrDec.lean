-- The address decoder (addrdec.cc, hashing.cc): which L2 slice an address belongs to, and
-- its address inside the memory partition.
import GpgpuSimUvm.XorMaps

namespace gpgpu_sim_uvm.addrdec

/-! ## Numbers -/

/-- The range of `unsigned`. -/
def UNSIGNED_RANGE : Nat := 4294967296

/-- A conversion to `unsigned`. -/
def toUnsigned (x : Nat) : Nat := x % UNSIGNED_RANGE

/-- The complement of `new_addr_type`. -/
def complement (x : Nat) : Nat := x ^^^ 0xFFFFFFFFFFFFFFFF

/-- One step of `LOGB2_32`: the upper half of what is left moves down when it is not empty. -/
def halve (mask shift : Nat) (s : Nat × Nat) : Nat × Nat :=
  let shift := if s.1 &&& mask ≠ 0 then shift else 0
  (s.1 >>> shift, s.2 ||| shift)

def LOGB2_32 (v : Nat) : Nat :=
  (halve 0x2 1 (halve 0xC 2 (halve 0xF0 4 (halve 0xFF00 8 (halve 0xFFFF0000 16 (v, 0)))))).2

/-- The loop of `next_powerOf2`, which takes one bit away in each turn. -/
def lastBit : Nat → Nat → Nat
  | 0, n => n
  | fuel + 1, n => if n &&& (n - 1) ≠ 0 then lastBit fuel (n &&& (n - 1)) else n

/-- A word has at most 32 bits to take away. -/
def next_powerOf2 (n : Nat) : Nat :=
  toUnsigned (lastBit 32 (toUnsigned (n + (UNSIGNED_RANGE - 1))) <<< 1)

/-! ## Bits of an address -/

/-- The loop of `addrdec_packbits` over `n` bits from `i`, with the next position of the
result. -/
def packFrom (mask val : Nat) : Nat → Nat → Nat → Nat
  | 0, _, _ => 0
  | n + 1, i, pos =>
    if mask.testBit i then (val.testBit i).toNat <<< pos ||| packFrom mask val n (i + 1) (pos + 1)
    else packFrom mask val n (i + 1) pos

def addrdec_packbits (mask val high low : Nat) : Nat := packFrom mask val (high - low) low 0

/-- `addrdec_getmasklimit`: one past the highest bit of the mask, and the lowest. -/
def addrdec_getmasklimit (mask : Nat) : Nat × Nat :=
  let limits := (List.range 64).foldl (fun (s : Nat × Nat × Bool) i =>
    if mask.testBit i then (i + 1, if s.2.2 then s.2.1 else i, true) else s) (64, 0, false)
  (limits.1, limits.2.1)

/-! ## Hash functions -/

def bitwise_hash_function (higher_bits index bank_set_num : Nat) : Nat :=
  toUnsigned (index ^^^ (higher_bits &&& (bank_set_num - 1)))

/-- The bits of `a` that go into each bit of the index, for 16, 32 and 64 banks. -/
def ipolyTaps : Nat → Option (List (List Nat))
  | 16 => some
    [[11, 10, 9, 8, 6, 4, 3, 0], [12, 8, 7, 6, 5, 3, 1, 0], [9, 8, 7, 6, 4, 2, 1],
      [10, 9, 8, 7, 5, 3, 2]]
  | 32 => some
    [[13, 12, 11, 10, 9, 6, 5, 3, 0], [14, 13, 12, 11, 10, 7, 6, 4, 1],
      [14, 10, 9, 8, 7, 6, 3, 2, 0], [11, 10, 9, 8, 7, 4, 3, 1], [12, 11, 10, 9, 8, 5, 4, 2]]
  | 64 => some
    [[18, 17, 16, 15, 12, 10, 6, 5, 0], [15, 13, 12, 11, 10, 7, 5, 1, 0],
      [16, 14, 13, 12, 11, 8, 6, 2, 1], [17, 15, 14, 13, 12, 9, 7, 3, 2],
      [18, 16, 15, 14, 13, 10, 8, 4, 3], [17, 16, 15, 14, 11, 9, 5, 4]]
  | _ => none

/-- The bits of `new_index`, from position `j` on. -/
def hashBits (a index : Nat) : List (List Nat) → Nat → Nat
  | [], _ => 0
  | taps :: rest, j =>
    (taps.foldl (fun b t => b ^^ a.testBit t) (index.testBit j)).toNat <<< j ||| hashBits a index rest (j + 1)

/-- For 128 and 256 banks the function ends without a value, for other numbers of banks an
assertion fails. -/
def ipoly_hash_function (higher_bits index bank_set_num : Nat) : Option Nat :=
  (ipolyTaps bank_set_num).map fun taps => hashBits higher_bits index taps 0

/-! ## The options -/

inductive PartitionIndexFunction
  | CONSECUTIVE | BITWISE_PERMUTATION | IPOLY
  deriving DecidableEq, Repr

/-- The masks that the slice of an address depends on, with that of the ranks. -/
structure AddrdecMask where
  CHIP : Nat
  BK : Nat
  RANK : Nat := 0

/-- `sscanf(option, "dramid@%d", &dramid_start)` -/
def scanDramid : List Char → Option Int
  | 'd' :: 'r' :: 'a' :: 'm' :: 'i' :: 'd' :: '@' :: rest =>
    let number (cs : List Char) : Option Nat :=
      match cs.takeWhile Char.isDigit with
      | [] => none
      | digits => some (digits.foldl (fun n c => 10 * n + (c.toNat - '0'.toNat)) 0)
    match rest.dropWhile Char.isWhitespace with
    | '-' :: cs => (number cs).map fun n => -(n : Int)
    | '+' :: cs => (number cs).map fun n => (n : Int)
    | cs => (number cs).map fun n => (n : Int)
  | _ => none

/-- The part of the option behind the first semicolon. -/
def mappingOf (option : List Char) : List Char :=
  match option.dropWhile (· ≠ ';') with
  | [] => option
  | _ :: cmapping => cmapping

/-- The loop of `addrdec_parseoption`, with `ofs + 1` bits left. Characters without a meaning
are passed over. -/
def parseMapping (dramid_parsed : Bool) : List Char → Nat → AddrdecMask → Option AddrdecMask
  | [], left, mask => if left = 0 ∧ (mask.RANK ≠ 0 → mask.RANK < mask.BK) then some mask else none
  | c :: cs, left, mask =>
    let bit (mask : AddrdecMask) : Option AddrdecMask :=
      if left = 0 then none else parseMapping dramid_parsed cs (left - 1) mask
    if c = 'D' ∨ c = 'd' then
      if dramid_parsed then none else bit { mask with CHIP := mask.CHIP ||| 1 <<< (left - 1) }
    else if c = 'B' ∨ c = 'b' then bit { mask with BK := mask.BK ||| 1 <<< (left - 1) }
    else if c = 'H' ∨ c = 'h' then bit { mask with RANK := mask.RANK ||| 1 <<< (left - 1) }
    else if c ∈ ['R', 'r', 'C', 'c', 'S', 's', '0'] then bit mask
    else parseMapping dramid_parsed cs left mask

/-- `addrdec_parseoption`: the start of the channel bits, or `-1`, and the masks. -/
def addrdec_parseoption (option : List Char) : Option (Int × AddrdecMask) :=
  let dramid := scanDramid option
  (parseMapping dramid.isSome (mappingOf option) 64 { CHIP := 0, BK := 0 }).map fun mask =>
    (dramid.getD (-1), mask)

/-- What `init` reads: its arguments and the options. -/
structure AddrdecConfig where
  n_channel : Nat
  n_sub_partition_in_channel : Nat
  gpgpu_mem_address_mask : Int
  addrdec_option : Option (List Char)
  memory_partition_indexing : PartitionIndexFunction
  n_channel_lt : n_channel < UNSIGNED_RANGE
  /-- The member is an `int`. -/
  n_sub_partition_lt : n_sub_partition_in_channel < 2147483648

/-- The switch over `gpgpu_mem_address_mask`, with the values of the constructor for a
number without a case. -/
def tableMask (gpgpu_mem_address_mask : Int) : Int × AddrdecMask :=
  match gpgpu_mem_address_mask with
  | 0 => (10, { CHIP := 0, BK := 0x300 })
  | 1 => (13, { CHIP := 0, BK := 0x1800 })
  | 2 => (11, { CHIP := 0, BK := 0x1800 })
  | 3 => (11, { CHIP := 0, BK := 0x1800 })
  | 14 => (14, { CHIP := 0, BK := 0x1800 })
  | 15 => (15, { CHIP := 0, BK := 0x1800 })
  | 16 => (16, { CHIP := 0, BK := 0x1800 })
  | 6 => (6, { CHIP := 0, BK := 0x1800 })
  | 5 => (5, { CHIP := 0, BK := 0x1800 })
  | 100 => (1, { CHIP := 0, BK := 0x3 })
  | 103 => (3, { CHIP := 0, BK := 0x3 })
  | 106 => (6, { CHIP := 0, BK := 0x1800 })
  | 160 => (6, { CHIP := 0, BK := 0x300 })
  | _ => (10, { CHIP := 0x1C00, BK := 0x300 })

/-! ## The translation -/

/-- `linear_to_raw_address_translation`, after `init`. -/
structure Translation where
  memory_partition_indexing : PartitionIndexFunction
  ADDR_CHIP_S : Int
  addrdec_mask : AddrdecMask
  sub_partition_id_mask : Nat
  gap : Nat
  m_n_channel : Nat
  m_n_sub_partition_in_channel : Nat
  log2channel : Nat
  log2sub_partition : Nat
  nextPowerOf2_m_n_channel : Nat

/-- The loop that collects the lowest bits of the bank mask, with those still to find. -/
def lowestBits (mask : Nat) : Nat → Nat → Nat → Nat
  | 0, _, _ => 0
  | n + 1, i, left =>
    if mask.testBit i then
      1 <<< i ||| if left ≤ 1 then 0 else lowestBits mask n (i + 1) (left - 1)
    else lowestBits mask n (i + 1) left

/-- The masks with the bits of the channel put in at `S`, which are `nchipbits` many. A shift
by 64 or more has no value. -/
def insertChip (S : Int) (nchipbits : Nat) (mask : AddrdecMask) : Option AddrdecMask :=
  if 0 ≤ S ∧ S < 64 ∧ (nchipbits = 0 ∨ S + nchipbits ≤ 64) then
    let low := 2 ^ S.toNat - 1
    some
      { CHIP := mask.CHIP ||| (2 ^ nchipbits - 1) <<< S.toNat
        BK := ((mask.BK &&& complement low) <<< nchipbits) % 2 ^ 64 ||| (mask.BK &&& low)
        RANK := ((mask.RANK &&& complement low) <<< nchipbits) % 2 ^ 64 ||| (mask.RANK &&& low) }
  else none

/-- The start of the channel bits and the masks that the options choose. -/
def chosenMask (cfg : AddrdecConfig) : Option (Int × AddrdecMask) :=
  match cfg.addrdec_option with
  | none => some (tableMask cfg.gpgpu_mem_address_mask)
  | some option => addrdec_parseoption option

/-- `gap`: what the number of channels is above a power of two. -/
def gapOf (n : Nat) : Nat := toUnsigned (n + (UNSIGNED_RANGE - 2 ^ LOGB2_32 n))

/-- The masks after the channel has its place. With an explicit mask of the channel the number
of channels must be a power of two. -/
def placeChip (n : Nat) (S : Int) (mask : AddrdecMask) : Option AddrdecMask :=
  if S ≠ -1 then if gapOf n = 0 then insertChip S (LOGB2_32 n) mask else some mask
  else if n &&& (n - 1) = 0 then some mask else none

def sub_partition_id_maskOf (m BK : Nat) : Nat :=
  if 1 < m then
    let limits := addrdec_getmasklimit BK
    lowestBits BK (limits.1 - limits.2) limits.2 (LOGB2_32 m)
  else 0

/-- `init`. No result is a failed assertion, or a shift without a value. -/
def init (cfg : AddrdecConfig) : Option Translation := do
  let (S, mask) ← chosenMask cfg
  let mask ← placeChip cfg.n_channel S mask
  let m := cfg.n_sub_partition_in_channel
  if m &&& (m - 1) = 0 then
    some
      { memory_partition_indexing := cfg.memory_partition_indexing
        ADDR_CHIP_S := S
        addrdec_mask := mask
        sub_partition_id_mask := sub_partition_id_maskOf m mask.BK
        gap := gapOf cfg.n_channel
        m_n_channel := cfg.n_channel
        m_n_sub_partition_in_channel := m
        log2channel := LOGB2_32 cfg.n_channel
        log2sub_partition := LOGB2_32 m
        nextPowerOf2_m_n_channel := next_powerOf2 cfg.n_channel }
  else none

namespace Translation

variable (t : Translation)

/-- The address without its channel, where the channels are no power of two: the quotient
above `ADDR_CHIP_S` and the bits below. Division by zero has no value, nor has a shift of an
`int` past its sign. -/
def rest_of_addr (addr : Nat) : Option Nat :=
  if 0 < t.m_n_channel ∧ 0 ≤ t.ADDR_CHIP_S ∧ t.ADDR_CHIP_S < 31 then
    let S := t.ADDR_CHIP_S.toNat
    some ((((addr >>> S) / t.m_n_channel) <<< S) ||| (addr &&& (2 ^ S - 1)))
  else none

def partition_address (addr : Nat) : Option Nat :=
  if t.gap = 0 then
    some (addrdec_packbits (complement (t.addrdec_mask.CHIP ||| t.sub_partition_id_mask)) addr 64 0)
  else
    (t.rest_of_addr addr).map fun partition_addr =>
      addrdec_packbits (complement t.sub_partition_id_mask) partition_addr 64 0

/-- The bits of an address at a mask, as the fields of `addrdec_t` keep them. -/
def field (mask addr : Nat) : Nat :=
  let limits := addrdec_getmasklimit mask
  toUnsigned (addrdec_packbits mask addr limits.1 limits.2)

/-- The shift of `rest_of_addr_high_bits`, in `unsigned` arithmetic. -/
def highShift : Nat :=
  ((t.ADDR_CHIP_S + (t.log2channel + t.log2sub_partition : Nat)) % (UNSIGNED_RANGE : Int)).toNat

/-- `chip`, `bk` and `rest_of_addr_high_bits` before the hash. The high bits have no value
when their shift has none. -/
def parts (addr : Nat) : Option (Nat × Nat × Option Nat) :=
  if t.gap = 0 then
    some (field t.addrdec_mask.CHIP addr, field t.addrdec_mask.BK addr,
      if t.highShift < 64 then some (addr >>> t.highShift) else none)
  else
    (t.rest_of_addr addr).map fun rest_of_addr =>
      (toUnsigned ((addr >>> t.ADDR_CHIP_S.toNat) % t.m_n_channel), field t.addrdec_mask.BK rest_of_addr,
        some ((addr >>> t.ADDR_CHIP_S.toNat) / t.m_n_channel))

/-- The channel with the lower bits of the bank behind it. -/
def combineBank (chip bk : Nat) : Nat :=
  toUnsigned (chip * t.m_n_sub_partition_in_channel +
    (bk &&& toUnsigned (t.m_n_sub_partition_in_channel + (UNSIGNED_RANGE - 1))))

/-- The number of slices, as the assertions compute it. -/
def n_slices : Nat := toUnsigned (t.m_n_channel * t.m_n_sub_partition_in_channel)

/-- `sub_partition` of `addrdec_tlx`. No result is a failed assertion, or a value that the
language does not define. -/
def sub_partition (addr : Nat) : Option Nat := do
  let (chip, bk, high_bits) ← t.parts addr
  match t.memory_partition_indexing with
  | .CONSECUTIVE => some (t.combineBank chip bk)
  | .BITWISE_PERMUTATION =>
    if t.gap = 0 then
      let high_bits ← high_bits
      let chip := bitwise_hash_function high_bits chip t.m_n_channel
      if chip < t.m_n_channel then some (t.combineBank chip bk) else none
    else none
  | .IPOLY =>
    let high_bits ← high_bits
    let hash ← ipoly_hash_function high_bits (t.combineBank chip bk)
      (toUnsigned (t.nextPowerOf2_m_n_channel * t.m_n_sub_partition_in_channel))
    let sub_partition ←
      if t.gap = 0 then some hash else if t.n_slices = 0 then none else some (hash % t.n_slices)
    if sub_partition / t.m_n_sub_partition_in_channel < t.m_n_channel ∧ sub_partition < t.n_slices then
      some sub_partition
    else none

end Translation

end gpgpu_sim_uvm.addrdec
