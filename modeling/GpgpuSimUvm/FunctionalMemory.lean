-- The functional memory (memory.cc, memory.h): bytes in blocks of a sparse map. A read
-- or a write that stays in one block takes a fast route, any other goes block by block
-- with 32-bit counters. Where neither the counters nor the addresses overflow, a read
-- gives back what was written last.
import GpgpuSimUvm.Checkpoint
import GpgpuSimUvm.GlobalMem

namespace gpgpu_sim_uvm

namespace memory_space_impl

open checkpoint

/-! ## The code -/

/-- What the constructor asserts of the template parameter: one bit of an `unsigned`. -/
structure BlockSize where
  m_log2_block_size : Nat
  fits : m_log2_block_size < 32

/-- `BSIZE` -/
def BlockSize.bytes (b : BlockSize) : Nat := 2 ^ b.m_log2_block_size

/-- The arguments of a `read` or a `write`, its buffer apart. -/
structure Access where
  addr : Nat
  length : Nat
  addr_lt : addr < 2 ^ 64
  length_lt : length < 2 ^ 64

variable (b : BlockSize)

/-- `m_data[index].write(offset, length, &data[src_offset])`. No result is the failed
assertion. Where its sum wraps it passes, but then `memcpy` leaves the block. -/
def writeBlock (m_data : BlockMap) (index offset length : Nat) (data : Nat → UInt8)
    (src_offset : Nat) : Option BlockMap :=
  if offset + length ≤ b.bytes then
    some (m_data.alter index blankBlock fun blk => copyBytes blk offset data src_offset length)
  else none

/-- `access_limit - offset` of one turn. The sum is one of two `unsigned`. -/
def txBytes (offset nbytes_remain : Nat) : Nat :=
  sub_size_t (min ((offset + nbytes_remain) % 2 ^ 32) b.bytes) offset

/-- The slow route of `write`, at most `turns` turns. -/
def writeBlocks (data : Nat → UInt8) : Nat → Nat → Nat → Nat → BlockMap → Option BlockMap
  | _, 0, _, _, m_data => some m_data
  | 0, _ + 1, _, _, _ => none
  | turns + 1, n + 1, src_offset, current_addr, m_data =>
    let nbytes_remain := n + 1
    let offset := current_addr % b.bytes
    let tx_bytes := txBytes b offset nbytes_remain
    (writeBlock b m_data (current_addr / b.bytes) offset tx_bytes data src_offset).bind
      (writeBlocks data turns ((nbytes_remain + 2 ^ 32 - tx_bytes % 2 ^ 32) % 2 ^ 32)
        ((src_offset + tx_bytes) % 2 ^ 32) ((current_addr + tx_bytes) % 2 ^ 64))

/-- `(addr + length) <= (index + 1) * BSIZE`, in 64 bits. -/
def inOneBlock (x : Access) : Bool :=
  decide ((x.addr + x.length) % 2 ^ 64 ≤ (x.addr / b.bytes + 1) * b.bytes % 2 ^ 64)

def write (m_data : BlockMap) (x : Access) (data : Nat → UInt8) : Option BlockMap :=
  let nbytes := x.length % 2 ^ 32
  if inOneBlock b x then writeBlock b m_data (x.addr / b.bytes) (x.addr % b.bytes) nbytes data 0
  else writeBlocks b data nbytes nbytes 0 x.addr m_data

/-- `read_single_block` into `data` at `dst_offset`, a buffer of `size` bytes. No result
is the exception, the failed assertion, or a write past the buffer. -/
def read_single_block (size : Nat) (m_data : BlockMap) (blk_idx addr length : Nat)
    (data : Nat → UInt8) (dst_offset : Nat) : Option (Nat → UInt8) :=
  if (addr + length) % 2 ^ 64 > (blk_idx + 1) * b.bytes % 2 ^ 64 then none
  else
    match m_data.find blk_idx with
    | none =>
      if dst_offset + length ≤ size then some (copyBytes data dst_offset blankBlock 0 length)
      else none
    | some blk =>
      let offset := addr % b.bytes
      let nbytes := length % 2 ^ 32
      if offset + nbytes ≤ b.bytes ∧ dst_offset + nbytes ≤ size then
        some (copyBytes data dst_offset blk offset nbytes)
      else none

/-- The slow route of `read`, at most `turns` turns. -/
def readBlocks (size : Nat) (m_data : BlockMap) :
    Nat → Nat → Nat → Nat → (Nat → UInt8) → Option (Nat → UInt8)
  | _, 0, _, _, data => some data
  | 0, _ + 1, _, _, _ => none
  | turns + 1, n + 1, dst_offset, current_addr, data =>
    let nbytes_remain := n + 1
    let tx_bytes := txBytes b (current_addr % b.bytes) nbytes_remain
    (read_single_block b size m_data (current_addr / b.bytes) current_addr tx_bytes data
      dst_offset).bind
      (readBlocks size m_data turns ((nbytes_remain + 2 ^ 32 - tx_bytes % 2 ^ 32) % 2 ^ 32)
        ((dst_offset + tx_bytes) % 2 ^ 32) ((current_addr + tx_bytes) % 2 ^ 64))

/-- `read` into `data`, a buffer of `length` bytes. -/
def read (m_data : BlockMap) (x : Access) (data : Nat → UInt8) : Option (Nat → UInt8) :=
  if inOneBlock b x then
    read_single_block b x.length m_data (x.addr / b.bytes) x.addr x.length data 0
  else readBlocks b x.length m_data (x.length % 2 ^ 32) (x.length % 2 ^ 32) 0 x.addr data

/-! ## The flat memory -/

/-- How far `a` is from `addr`, going up and round. -/
def distance (addr a : Nat) : Nat := (a + 2 ^ 64 - addr) % 2 ^ 64

def Access.holds (x : Access) (a : Nat) : Bool := decide (distance x.addr a < x.length)

/-- The byte at an address of the memory. -/
def contents (m_data : BlockMap) (a : Nat) : UInt8 := byteAt m_data (a / b.bytes) (a % b.bytes)

/-- The write goes through, changes the bytes of its range to those of the buffer, and
no other byte. -/
def WritesExactly (m_data : BlockMap) (x : Access) (data : Nat → UInt8) : Prop :=
  ∃ m', write b m_data x data = some m' ∧ ∀ a < 2 ^ 64,
    contents b m' a = if x.holds a then data (distance x.addr a) else contents b m_data a

/-- The read goes through and puts the bytes of its range, and nothing else, in the buffer. -/
def ReadsExactly (m_data : BlockMap) (x : Access) (data : Nat → UInt8) : Prop :=
  ∃ data', read b m_data x data = some data' ∧ ∀ i,
    data' i = if i < x.length then contents b m_data ((x.addr + i) % 2 ^ 64) else data i

/-- The 32-bit counters hold the length, and the range does not go round, unless it
starts in the last block. -/
def Access.WriteFits (x : Access) : Prop :=
  x.addr % b.bytes + x.length < 2 ^ 32 ∧
    (x.addr + x.length < 2 ^ 64 ∨ 2 ^ 64 ≤ x.addr + b.bytes)

/-- As for a write. And the range does not end in the last block, unless it ends with it. -/
def Access.ReadFits (x : Access) : Prop :=
  x.addr % b.bytes + x.length < 2 ^ 32 ∧
    (x.length = 0 ∨ x.addr + x.length + b.bytes ≤ 2 ^ 64 ∨
      (2 ^ 64 ≤ x.addr + b.bytes ∧ 2 ^ 64 ≤ x.addr + x.length))

/-! ## Blocks -/

section blocks

variable {b : BlockSize}

theorem bytes_pos : 0 < b.bytes := Nat.two_pow_pos _

theorem bytes_le : b.bytes ≤ 2 ^ 31 := by
  have := b.fits
  exact Nat.pow_le_pow_right (by decide) (by omega)

theorem offset_lt (a : Nat) : a % b.bytes < b.bytes := Nat.mod_lt a bytes_pos

theorem split_addr (a : Nat) : a / b.bytes * b.bytes + a % b.bytes = a := Nat.div_add_mod' a _

theorem next_block (a : Nat) : (a / b.bytes + 1) * b.bytes = a / b.bytes * b.bytes + b.bytes :=
  Nat.succ_mul _ _

/-- The last block ends with the addresses. -/
theorem block_end {a : Nat} (ha : a < 2 ^ 64) :
    a / b.bytes * b.bytes + b.bytes = 2 ^ 64 ∨ a / b.bytes * b.bytes + 2 * b.bytes ≤ 2 ^ 64 := by
  have hk := b.fits
  have hdvd : 2 ^ 64 = 2 ^ (64 - b.m_log2_block_size) * b.bytes := by
    rw [BlockSize.bytes, ← Nat.pow_add]
    congr 1
    omega
  have hlt : a / b.bytes < 2 ^ (64 - b.m_log2_block_size) := by
    apply Nat.div_lt_of_lt_mul
    rw [Nat.mul_comm, ← hdvd]
    exact ha
  rw [← Nat.succ_mul, ← Nat.add_mul, hdvd]
  rcases Nat.lt_or_ge (a / b.bytes + 1) (2 ^ (64 - b.m_log2_block_size)) with hnext | hlast
  · exact Or.inr (Nat.mul_le_mul_right _ hnext)
  · left
    congr 1
    omega

/-- An address of the same block lies behind by the difference of the offsets. -/
theorem in_block_iff {cur a tx : Nat} (h : cur % b.bytes + tx ≤ b.bytes) :
    (a / b.bytes = cur / b.bytes ∧ cur % b.bytes ≤ a % b.bytes ∧ a % b.bytes < cur % b.bytes + tx) ↔
      cur ≤ a ∧ a < cur + tx := by
  have hcur := split_addr (b := b) cur
  have ha := split_addr (b := b) a
  constructor
  · rintro ⟨hblock, hlow, hhigh⟩
    rw [hblock] at ha
    omega
  · rintro ⟨hlow, hhigh⟩
    have hnext := next_block (b := b) cur
    have hblock : a / b.bytes = cur / b.bytes :=
      Nat.div_eq_of_lt_le (by omega) (by omega)
    rw [hblock] at ha
    omega

theorem contents_writeBlock (m_data : BlockMap) {cur tx : Nat} (src : Nat) (data : Nat → UInt8)
    (h : cur % b.bytes + tx ≤ b.bytes) :
    ∃ m', writeBlock b m_data (cur / b.bytes) (cur % b.bytes) tx data src = some m' ∧
      ∀ a, contents b m' a =
        if cur ≤ a ∧ a < cur + tx then data (src + (a - cur)) else contents b m_data a := by
  refine ⟨_, if_pos h, fun a => ?_⟩
  rw [contents, byteAt_alter]
  by_cases hin : cur ≤ a ∧ a < cur + tx
  · obtain ⟨hblock, hlow, hhigh⟩ := (in_block_iff h).mpr hin
    have hcur := split_addr (b := b) cur
    have ha := split_addr (b := b) a
    rw [hblock] at ha
    rw [if_pos hin, if_pos hblock, copyBytes, if_pos ⟨hlow, hhigh⟩]
    congr 1
    omega
  · rw [if_neg hin]
    split_ifs with hblock
    · rw [copyBytes, if_neg fun ho => hin ((in_block_iff h).mp ⟨hblock, ho⟩), contents, hblock,
        byteAt]
    · rfl

/-- A turn goes on to the end of its block or of the range. -/
theorem txBytes_spec {cur n : Nat} (hn : 0 < n) (hfit : cur % b.bytes + n < 2 ^ 32) :
    0 < txBytes b (cur % b.bytes) n ∧ txBytes b (cur % b.bytes) n ≤ n ∧
      cur % b.bytes + txBytes b (cur % b.bytes) n ≤ b.bytes ∧
      (txBytes b (cur % b.bytes) n = n ∨
        cur % b.bytes + txBytes b (cur % b.bytes) n = b.bytes) := by
  have hoff := offset_lt (b := b) cur
  have hle := bytes_le (b := b)
  unfold txBytes sub_size_t SIZE_T
  rw [Nat.mod_eq_of_lt hfit]
  omega

/-- Where the 32-bit sum wraps, the turn leaves its block. -/
theorem txBytes_wraps {cur n : Nat} (hn : n < 2 ^ 32) (hfit : 2 ^ 32 ≤ cur % b.bytes + n) :
    txBytes b (cur % b.bytes) n = 2 ^ 64 - 2 ^ 32 + n := by
  have hoff := offset_lt (b := b) cur
  have hle := bytes_le (b := b)
  unfold txBytes sub_size_t SIZE_T
  omega

/-- The turn behind one that ends its block starts a block. -/
theorem next_offset {cur tx : Nat} (hcur : cur < 2 ^ 64) (h : cur % b.bytes + tx = b.bytes) :
    (cur + tx) % 2 ^ 64 % b.bytes = 0 := by
  have hsplit := split_addr (b := b) cur
  have hend := block_end (b := b) hcur
  have hnext := next_block (b := b) cur
  have hsum : cur + tx = (cur / b.bytes + 1) * b.bytes := by omega
  rcases Nat.lt_or_ge (cur + tx) (2 ^ 64) with hlt | hge
  · rw [Nat.mod_eq_of_lt hlt, hsum, Nat.mul_mod_left]
  · have hwrap : cur + tx = 2 ^ 64 := by omega
    rw [hwrap, Nat.mod_self, Nat.zero_mod]

/-- What the counters of a turn that moves `tx` bytes become. -/
theorem next_counters {cur n done tx : Nat} (hcur : cur < 2 ^ 64) (htx : tx ≤ n)
    (hfit : cur % b.bytes + n < 2 ^ 32) (hdone : done + n < 2 ^ 32)
    (hend : tx = n ∨ cur % b.bytes + tx = b.bytes) :
    (n + 2 ^ 32 - tx % 2 ^ 32) % 2 ^ 32 = n - tx ∧ (done + tx) % 2 ^ 32 = done + tx ∧
      (cur + tx) % 2 ^ 64 % b.bytes + (n - tx) < 2 ^ 32 := by
  refine ⟨by omega, by omega, ?_⟩
  rcases hend with heq | hblock
  · have hoff := offset_lt (b := b) ((cur + tx) % 2 ^ 64)
    have hle := bytes_le (b := b)
    omega
  · rw [next_offset hcur hblock]
    omega

end blocks

/-! ## Writes -/

section laws

variable {b : BlockSize}

theorem distance_lt_iff {cur a tx : Nat} (hcur : cur < 2 ^ 64) (ha : a < 2 ^ 64)
    (hend : cur + tx ≤ 2 ^ 64) : (cur ≤ a ∧ a < cur + tx) ↔ distance cur a < tx := by
  unfold distance
  omega

theorem distance_of_le {cur a : Nat} (ha : a < 2 ^ 64) (h : cur ≤ a) :
    distance cur a = a - cur := by
  unfold distance
  omega

theorem distance_self (cur i : Nat) (hcur : cur < 2 ^ 64) (hi : i < 2 ^ 64) :
    distance cur ((cur + i) % 2 ^ 64) = i := by
  unfold distance
  omega

/-- The bytes behind the first `tx` ones of a range. -/
theorem distance_next {cur a tx n : Nat} (hcur : cur < 2 ^ 64) (ha : a < 2 ^ 64) (htx : tx ≤ n)
    (hn : n < 2 ^ 64) :
    (distance cur a < n ∧ ¬ distance cur a < tx ↔
      distance ((cur + tx) % 2 ^ 64) a < n - tx) ∧
    (¬ distance cur a < tx → tx + distance ((cur + tx) % 2 ^ 64) a = distance cur a) := by
  unfold distance
  omega

theorem writeBlocks_exact (data : Nat → UInt8) {turns n cur : Nat} (src : Nat) (m_data : BlockMap)
    (hturns : n ≤ turns) (hcur : cur < 2 ^ 64) (hfit : cur % b.bytes + n < 2 ^ 32)
    (hsrc : src + n < 2 ^ 32) :
    ∃ m', writeBlocks b data turns n src cur m_data = some m' ∧ ∀ a < 2 ^ 64,
      contents b m' a =
        if distance cur a < n then data (src + distance cur a) else contents b m_data a := by
  induction turns generalizing n src cur m_data with
  | zero =>
    obtain rfl : n = 0 := by omega
    exact ⟨m_data, by simp [writeBlocks], fun a _ => by simp⟩
  | succ turns ih =>
    rcases n with _ | n
    · exact ⟨m_data, by simp [writeBlocks], fun a _ => by simp⟩
    · obtain ⟨hpos, htx, hblock, hend⟩ := txBytes_spec (n := n + 1) (Nat.succ_pos n) hfit
      simp only [writeBlocks]
      generalize txBytes b (cur % b.bytes) (n + 1) = tx at *
      obtain ⟨m₁, hwrite, hbytes₁⟩ := contents_writeBlock m_data src data hblock
      obtain ⟨hn', hsrc', hfit'⟩ := next_counters hcur htx hfit hsrc hend
      have hlast : cur + tx ≤ 2 ^ 64 := by
        have hsplit := split_addr (b := b) cur
        have hstop := block_end (b := b) hcur
        omega
      rw [hwrite, Option.bind_some, hn', hsrc']
      obtain ⟨m', hrest, hbytes⟩ := ih (n := n + 1 - tx) (src + tx) m₁ (by omega)
        (Nat.mod_lt _ (by decide)) hfit' (by omega)
      refine ⟨m', hrest, fun a ha => ?_⟩
      have hin := distance_lt_iff hcur ha hlast
      obtain ⟨hrange, hshift⟩ := distance_next hcur ha htx (by omega)
      rw [hbytes a ha, hbytes₁ a]
      by_cases hfirst : distance cur a < tx
      · have hle : cur ≤ a := (hin.mpr hfirst).1
        have hall : distance cur a < n + 1 := by omega
        rw [if_neg fun hlater => (hrange.mpr hlater).2 hfirst, if_pos (hin.mpr hfirst),
          if_pos hall, distance_of_le ha hle]
      · rw [if_neg (c := cur ≤ a ∧ a < cur + tx) fun hnow => hfirst (hin.mp hnow), Nat.add_assoc,
          hshift hfirst]
        simp only [← hrange, hfirst, not_false_eq_true, and_true]

/-- Where the sum of the counters wraps, the slow route fails. -/
theorem writeBlocks_fails (data : Nat → UInt8) {turns n src cur : Nat} {m_data : BlockMap}
    (hn : n < 2 ^ 32) (hfit : 2 ^ 32 ≤ cur % b.bytes + n) :
    writeBlocks b data turns n src cur m_data = none := by
  have hoff := offset_lt (b := b) cur
  have hle := bytes_le (b := b)
  rcases n with _ | n
  · omega
  · cases turns with
    | zero => rfl
    | succ turns =>
      have htx := txBytes_wraps hn hfit
      simp only [writeBlocks, htx]
      rw [writeBlock, if_neg (by omega), Option.bind_none]

theorem contents_empty (a : Nat) : contents b .empty a = 0 := rfl

theorem inOneBlock_iff (x : Access) : inOneBlock b x = true ↔
    (x.addr + x.length) % 2 ^ 64 ≤ (x.addr / b.bytes * b.bytes + b.bytes) % 2 ^ 64 := by
  rw [inOneBlock, next_block, decide_eq_true_eq]

/-- A range that fits takes the fast route only where it is in its block. -/
theorem in_block_of_fits {x : Access} (hcount : x.addr % b.bytes + x.length < 2 ^ 32)
    (hround : x.addr + x.length < 2 ^ 64 ∨ 2 ^ 64 ≤ x.addr + b.bytes)
    (hone : inOneBlock b x = true) : x.addr % b.bytes + x.length ≤ b.bytes := by
  have hsplit := split_addr (b := b) x.addr
  have hend := block_end (b := b) x.addr_lt
  have hoff := offset_lt (b := b) x.addr
  have hle := bytes_le (b := b)
  have haddr := x.addr_lt
  rw [inOneBlock_iff] at hone
  omega

/-- A range that goes round from an earlier block takes the fast route. -/
theorem inOneBlock_of_round {x : Access} (hround : 2 ^ 64 ≤ x.addr + x.length)
    (hblock : x.addr + b.bytes < 2 ^ 64) : inOneBlock b x = true := by
  have hsplit := split_addr (b := b) x.addr
  have hoff := offset_lt (b := b) x.addr
  have haddr := x.addr_lt
  have hlength := x.length_lt
  rw [inOneBlock_iff]
  omega

theorem writesExactly_of_fits {x : Access} (h : x.WriteFits b) (m_data : BlockMap)
    (data : Nat → UInt8) : WritesExactly b m_data x data := by
  obtain ⟨hcount, hround⟩ := h
  have hmod : x.length % 2 ^ 32 = x.length := Nat.mod_eq_of_lt (by omega)
  unfold WritesExactly write
  rw [hmod]
  by_cases hone : inOneBlock b x = true
  · have hblock := in_block_of_fits hcount hround hone
    obtain ⟨m', hwrite, hbytes⟩ := contents_writeBlock m_data 0 data hblock
    refine ⟨m', by simpa only [hone, if_true] using hwrite, fun a ha => ?_⟩
    have hlast : x.addr + x.length ≤ 2 ^ 64 := by
      have hsplit := split_addr (b := b) x.addr
      have hend := block_end (b := b) x.addr_lt
      omega
    have hin := distance_lt_iff x.addr_lt ha hlast
    rw [hbytes a, Access.holds, Nat.zero_add]
    simp only [hin, decide_eq_true_eq]
    split_ifs with hd
    · rw [distance_of_le ha (hin.mpr hd).1]
    · rfl
  · rw [if_neg hone]
    obtain ⟨m', hwrite, hbytes⟩ := writeBlocks_exact data 0 m_data
      (le_refl x.length) x.addr_lt hcount (by omega)
    refine ⟨m', hwrite, fun a ha => ?_⟩
    rw [hbytes a ha, Access.holds, Nat.zero_add]
    simp only [decide_eq_true_eq]

/-- A write that ends too early does not change a byte of its range. -/
theorem not_writesExactly {x : Access} {n : Nat} (m' : BlockMap) (hn : n < x.length)
    (hwrite : write b .empty x (fun _ => 1) = some m')
    (hbyte : contents b m' ((x.addr + n) % 2 ^ 64) = 0) :
    ¬ WritesExactly b .empty x fun _ => 1 := by
  rintro ⟨m₁, hwrite₁, hbytes⟩
  have hlength := x.length_lt
  rw [hwrite, Option.some_inj] at hwrite₁
  subst hwrite₁
  have hd := distance_self x.addr n x.addr_lt (by omega)
  have h := hbytes ((x.addr + n) % 2 ^ 64) (Nat.mod_lt _ (by decide))
  rw [hbyte, Access.holds, hd, decide_eq_true hn, if_pos rfl] at h
  exact absurd h (by simp)

theorem fits_of_writesExactly {x : Access} (h : WritesExactly b .empty x fun _ => 1) :
    x.WriteFits b := by
  have haddr := x.addr_lt
  have hlength := x.length_lt
  have hsplit := split_addr (b := b) x.addr
  have hoff := offset_lt (b := b) x.addr
  have hle := bytes_le (b := b)
  have hround : x.addr + x.length < 2 ^ 64 ∨ 2 ^ 64 ≤ x.addr + b.bytes := by
    by_contra hnot
    obtain ⟨hround, hblock⟩ := not_or.mp hnot
    have hone := inOneBlock_of_round (by omega) (show x.addr + b.bytes < 2 ^ 64 by omega)
    -- the fast route writes in one block, but the range has more bytes than that
    by_cases hfits : x.addr % b.bytes + x.length % 2 ^ 32 ≤ b.bytes
    · obtain ⟨m', hwrite, hbytes⟩ :=
        contents_writeBlock .empty 0 (fun _ => 1) hfits
      refine not_writesExactly (n := x.length % 2 ^ 32) m' (by omega)
        (by rw [write, if_pos hone]; exact hwrite) ?_ h
      rw [Nat.mod_eq_of_lt (by omega), hbytes, if_neg (by omega), contents_empty]
    · obtain ⟨m', hwrite, -⟩ := h
      rw [write, if_pos hone, writeBlock, if_neg hfits] at hwrite
      cases hwrite
  refine ⟨?_, hround⟩
  by_contra hcount
  have hslow : ¬ inOneBlock b x = true := by
    intro hone
    have hend := block_end (b := b) haddr
    rw [inOneBlock_iff] at hone
    omega
  by_cases hfits : x.addr % b.bytes + x.length % 2 ^ 32 < 2 ^ 32
  · obtain ⟨m', hwrite, hbytes⟩ := writeBlocks_exact (fun _ => 1) 0 .empty
      (le_refl (x.length % 2 ^ 32)) haddr hfits (by omega)
    refine not_writesExactly (n := x.length % 2 ^ 32) m' (by omega)
      (by rw [write, if_neg hslow]; exact hwrite) ?_ h
    rw [hbytes _ (Nat.mod_lt _ (by decide)), distance_self _ _ haddr (by omega), if_neg (by omega),
      contents_empty]
  · obtain ⟨m', hwrite, -⟩ := h
    rw [write, if_neg hslow, writeBlocks_fails _ (by omega) (by omega)] at hwrite
    cases hwrite

/-! ## Reads -/

/-- One block of a read, where the addresses do not wrap behind it. -/
theorem read_single_block_exact {cur tx : Nat} (size dst : Nat) (m_data : BlockMap)
    (data : Nat → UInt8)
    (hblock : cur % b.bytes + tx ≤ b.bytes) (hdst : dst + tx ≤ size)
    (hend : (cur + tx) % 2 ^ 64 ≤ (cur / b.bytes * b.bytes + b.bytes) % 2 ^ 64) :
    ∃ data', read_single_block b size m_data (cur / b.bytes) cur tx data dst = some data' ∧
      ∀ i, data' i =
        if dst ≤ i ∧ i < dst + tx then contents b m_data (cur + (i - dst)) else data i := by
  have hle := bytes_le (b := b)
  have hmod : tx % 2 ^ 32 = tx := Nat.mod_eq_of_lt (by omega)
  have hpage : ∀ j < tx, (cur + j) / b.bytes = cur / b.bytes ∧
      (cur + j) % b.bytes = cur % b.bytes + j := by
    intro j hj
    obtain ⟨hb, -, -⟩ := (in_block_iff (a := cur + j) hblock).mpr ⟨by omega, by omega⟩
    have hcur := split_addr (b := b) cur
    have ha := split_addr (b := b) (cur + j)
    rw [hb] at ha
    exact ⟨hb, by omega⟩
  unfold read_single_block
  rw [next_block, if_neg (by omega)]
  rcases hfind : m_data.find (cur / b.bytes) with _ | blk
  · refine ⟨_, if_pos hdst, fun i => ?_⟩
    rw [copyBytes]
    split_ifs with hi
    · rw [contents, (hpage (i - dst) (by omega)).1, byteAt, StdMap.findD, hfind]
      rfl
    · rfl
  · simp only [hmod]
    refine ⟨_, if_pos ⟨hblock, hdst⟩, fun i => ?_⟩
    rw [copyBytes]
    split_ifs with hi
    · obtain ⟨hb, ho⟩ := hpage (i - dst) (by omega)
      rw [contents, hb, ho, byteAt, StdMap.findD, hfind]
      rfl
    · rfl

/-- The rest of a range whose last byte is not in the last block, unless it is the last
byte of it. -/
def RestFits (b : BlockSize) (cur n : Nat) : Prop :=
  n = 0 ∨ cur + n + b.bytes ≤ 2 ^ 64 ∨ 2 ^ 64 ≤ cur + n

/-- A turn that stays below the last block, or ends with it, raises no exception. -/
theorem turn_end {cur n tx : Nat} (hcur : cur < 2 ^ 64)
    (hblock : cur % b.bytes + tx ≤ b.bytes) (hpos : 0 < tx)
    (hend : tx = n ∨ cur % b.bytes + tx = b.bytes) (hrest : RestFits b cur n) :
    (cur + tx) % 2 ^ 64 ≤ (cur / b.bytes * b.bytes + b.bytes) % 2 ^ 64 := by
  have hsplit := split_addr (b := b) cur
  have hstop := block_end (b := b) hcur
  have hoff := offset_lt (b := b) cur
  unfold RestFits at hrest
  rcases hend with hall | hfull
  · omega
  · omega

theorem restFits_next {cur n tx : Nat} (hcur : cur < 2 ^ 64) (htx : tx ≤ n) (hn : n < 2 ^ 32)
    (hrest : RestFits b cur n) :
    RestFits b ((cur + tx) % 2 ^ 64) (n - tx) := by
  have hsplit := split_addr (b := b) cur
  have hstop := block_end (b := b) hcur
  have hoff := offset_lt (b := b) cur
  have hle := bytes_le (b := b)
  unfold RestFits at hrest ⊢
  omega

theorem readBlocks_exact {turns n cur : Nat} (size dst : Nat) (m_data : BlockMap)
    (data : Nat → UInt8)
    (hturns : n ≤ turns) (hcur : cur < 2 ^ 64) (hfit : cur % b.bytes + n < 2 ^ 32)
    (hdst : dst + n < 2 ^ 32) (hsize : dst + n ≤ size) (hrest : RestFits b cur n) :
    ∃ data', readBlocks b size m_data turns n dst cur data = some data' ∧ ∀ i,
      data' i = if dst ≤ i ∧ i < dst + n then contents b m_data ((cur + (i - dst)) % 2 ^ 64)
        else data i := by
  induction turns generalizing n dst cur data with
  | zero =>
    obtain rfl : n = 0 := by omega
    exact ⟨data, by simp [readBlocks], fun i => by rw [if_neg (by omega)]⟩
  | succ turns ih =>
    rcases n with _ | n
    · exact ⟨data, by simp [readBlocks], fun i => by rw [if_neg (by omega)]⟩
    · obtain ⟨hpos, htx, hblock, hend⟩ := txBytes_spec (n := n + 1) (Nat.succ_pos n) hfit
      simp only [readBlocks]
      generalize txBytes b (cur % b.bytes) (n + 1) = tx at *
      obtain ⟨data₁, hread, hbytes₁⟩ := read_single_block_exact (b := b) size dst m_data data
        hblock (by omega) (turn_end hcur hblock hpos hend hrest)
      obtain ⟨hn', hdst', hfit'⟩ := next_counters hcur htx hfit hdst hend
      rw [hread, Option.bind_some, hn', hdst']
      obtain ⟨data', hrest', hbytes⟩ := ih (n := n + 1 - tx) (dst + tx) data₁ (by omega)
        (Nat.mod_lt _ (by decide)) hfit' (by omega) (by omega)
        (restFits_next hcur htx (by omega) hrest)
      refine ⟨data', hrest', fun i => ?_⟩
      rw [hbytes i, hbytes₁ i]
      have hlast : cur + tx ≤ 2 ^ 64 := by
        have hsplit := split_addr (b := b) cur
        have hstop := block_end (b := b) hcur
        omega
      by_cases hfirst : dst ≤ i ∧ i < dst + tx
      · rw [if_neg (by omega), if_pos hfirst, if_pos (by omega), Nat.mod_eq_of_lt (by omega)]
      · rw [if_neg (c := dst ≤ i ∧ i < dst + tx) hfirst]
        by_cases hlater : dst + tx ≤ i ∧ i < dst + tx + (n + 1 - tx)
        · rw [if_pos hlater, if_pos (by omega)]
          congr 1
          omega
        · rw [if_neg hlater, if_neg (by omega)]

theorem readsExactly_of_fits {x : Access} (h : x.ReadFits b) (m_data : BlockMap)
    (data : Nat → UInt8) : ReadsExactly b m_data x data := by
  obtain ⟨hcount, hround⟩ := h
  have hmod : x.length % 2 ^ 32 = x.length := Nat.mod_eq_of_lt (by omega)
  have haddr := x.addr_lt
  have hsplit := split_addr (b := b) x.addr
  have hstop := block_end (b := b) haddr
  have hpos := bytes_pos (b := b)
  unfold ReadsExactly read
  rw [hmod]
  by_cases hone : inOneBlock b x = true
  · have hblock : x.addr % b.bytes + x.length ≤ b.bytes :=
      in_block_of_fits hcount (by omega) hone
    obtain ⟨data', hread, hbytes⟩ := read_single_block_exact x.length 0 m_data data
      hblock (Nat.zero_add x.length).le ((inOneBlock_iff x).mp hone)
    rw [if_pos hone]
    refine ⟨data', hread, fun i => ?_⟩
    rw [hbytes i]
    by_cases hi : i < x.length
    · rw [if_pos (by omega), if_pos hi, Nat.sub_zero, Nat.mod_eq_of_lt (by omega)]
    · rw [if_neg (by omega), if_neg hi]
  · obtain ⟨data', hread, hbytes⟩ := readBlocks_exact x.length 0 m_data data
      (le_refl x.length) haddr hcount (by omega) (by omega) (by unfold RestFits; omega)
    rw [if_neg hone]
    refine ⟨data', hread, fun i => ?_⟩
    rw [hbytes i]
    by_cases hi : i < x.length
    · rw [if_pos (by omega), if_pos hi, Nat.sub_zero]
    · rw [if_neg (by omega), if_neg hi]

/-- A memory in which the block of `addr` was touched and no byte written. -/
def touched (b : BlockSize) (addr : Nat) : BlockMap :=
  StdMap.empty.alter (addr / b.bytes) blankBlock id

theorem contents_touched (addr a : Nat) : contents b (touched b addr) a = 0 := by
  rw [contents, touched, byteAt_alter]
  split_ifs <;> rfl

theorem find_touched (addr : Nat) : (touched b addr).find (addr / b.bytes) = some blankBlock :=
  StdMap.find_alter_self _ _ _ _

theorem read_single_block_frame {size blk_idx cur tx dst : Nat} {m_data : BlockMap}
    {data data' : Nat → UInt8}
    (h : read_single_block b size m_data blk_idx cur tx data dst = some data') {i : Nat}
    (hi : dst + tx ≤ i) : data' i = data i := by
  unfold read_single_block at h
  rcases hfind : m_data.find blk_idx with _ | blk
  · simp only [hfind] at h
    split_ifs at h
    cases h
    exact if_neg (by omega)
  · simp only [hfind] at h
    split_ifs at h
    cases h
    exact if_neg (by omega)

theorem readBlocks_frame {size turns n dst cur : Nat} {m_data : BlockMap} {data data' : Nat → UInt8}
    (hcur : cur < 2 ^ 64) (hfit : cur % b.bytes + n < 2 ^ 32) (hdst : dst + n < 2 ^ 32)
    (h : readBlocks b size m_data turns n dst cur data = some data') {i : Nat} (hi : dst + n ≤ i) :
    data' i = data i := by
  induction turns generalizing n dst cur data with
  | zero =>
    rcases n with _ | n
    · cases h
      rfl
    · cases h
  | succ turns ih =>
    rcases n with _ | n
    · cases h
      rfl
    · obtain ⟨-, htx, -, hend⟩ := txBytes_spec (n := n + 1) (Nat.succ_pos n) hfit
      obtain ⟨hn', hdst', hfit'⟩ := next_counters hcur htx hfit hdst hend
      obtain ⟨data₁, hread, hrest⟩ := Option.bind_eq_some_iff.mp h
      rw [hn', hdst'] at hrest
      rw [ih (Nat.mod_lt _ (by decide)) hfit' (by omega) hrest (by omega),
        read_single_block_frame hread (by omega)]

/-- A read that ends within the last block raises the exception there. -/
theorem readBlocks_throws {size turns n dst cur : Nat} {m_data : BlockMap} {data : Nat → UInt8}
    (hcur : cur < 2 ^ 64) (hfit : cur % b.bytes + n < 2 ^ 32) (hdst : dst + n < 2 ^ 32)
    (hpos : 0 < n) (hlow : 2 ^ 64 < cur + n + b.bytes) (hhigh : cur + n < 2 ^ 64) :
    readBlocks b size m_data turns n dst cur data = none := by
  induction turns generalizing n dst cur data with
  | zero =>
    obtain ⟨n, rfl⟩ := Nat.exists_eq_add_one.mpr hpos
    rfl
  | succ turns ih =>
    obtain ⟨n, rfl⟩ := Nat.exists_eq_add_one.mpr hpos
    obtain ⟨htxpos, htx, hblock, hend⟩ := txBytes_spec hpos hfit
    obtain ⟨hn', hdst', hfit'⟩ := next_counters hcur htx hfit hdst hend
    have hsplit := split_addr (b := b) cur
    have hoff := offset_lt (b := b) cur
    simp only [readBlocks]
    rcases block_end (b := b) hcur with hlast | hmore
    · rw [read_single_block, next_block, hlast, if_pos (by omega), Option.bind_none]
    · rcases hread : read_single_block b size m_data (cur / b.bytes) cur
          (txBytes b (cur % b.bytes) (n + 1)) data dst with _ | data₁
      · rfl
      · rw [Option.bind_some, hn', hdst']
        exact ih (Nat.mod_lt _ (by decide)) hfit' (by omega) (by omega) (by omega) (by omega)

theorem readBlocks_fails {size turns n dst cur : Nat} {m_data : BlockMap} {data : Nat → UInt8}
    {blk : Block} (hfind : m_data.find (cur / b.bytes) = some blk) (hn : n < 2 ^ 32)
    (hfit : 2 ^ 32 ≤ cur % b.bytes + n) :
    readBlocks b size m_data turns n dst cur data = none := by
  have hoff := offset_lt (b := b) cur
  have hle := bytes_le (b := b)
  rcases n with _ | n
  · omega
  · cases turns with
    | zero => rfl
    | succ turns =>
      have htx := txBytes_wraps hn hfit
      simp only [readBlocks, htx, read_single_block, hfind]
      split_ifs
      · rfl
      · omega
      · rfl

/-- A read that ends too early leaves a byte of the buffer alone. -/
theorem not_readsExactly {x : Access} {n : Nat} {data' : Nat → UInt8} (hn : n < x.length)
    (hread : read b (touched b x.addr) x (fun _ => 1) = some data') (hbyte : data' n = 1) :
    ¬ ReadsExactly b (touched b x.addr) x fun _ => 1 := by
  rintro ⟨data₁, hread₁, hbytes⟩
  rw [hread, Option.some_inj] at hread₁
  subst hread₁
  have h := hbytes n
  rw [hbyte, if_pos hn, contents_touched] at h
  exact absurd h (by decide)

theorem fits_of_readsExactly {x : Access}
    (h : ReadsExactly b (touched b x.addr) x fun _ => 1) : x.ReadFits b := by
  have haddr := x.addr_lt
  have hlength := x.length_lt
  have hsplit := split_addr (b := b) x.addr
  have hoff := offset_lt (b := b) x.addr
  have hle := bytes_le (b := b)
  have hend := block_end (b := b) haddr
  have hcount : x.addr % b.bytes + x.length < 2 ^ 32 := by
    by_contra hcount
    by_cases hone : inOneBlock b x = true
    · -- the fast route reads from one block, but the range has more bytes than that
      obtain ⟨data', hread, hbytes⟩ := h
      rw [read, if_pos hone, read_single_block, next_block, find_touched] at hread
      simp only at hread
      split_ifs at hread
      rw [Option.some_inj] at hread
      have hbyte := hbytes (x.length % 2 ^ 32)
      rw [← hread, copyBytes, if_neg (by omega), if_pos (by omega), contents_touched] at hbyte
      exact absurd hbyte (by decide)
    · by_cases hfits : x.addr % b.bytes + x.length % 2 ^ 32 < 2 ^ 32
      · obtain ⟨data', hread, -⟩ := id h
        have hslow := hread
        rw [read, if_neg hone] at hslow
        have hbyte := readBlocks_frame haddr hfits (by omega) hslow
          (i := x.length % 2 ^ 32) (by omega)
        exact not_readsExactly (n := x.length % 2 ^ 32) (by omega) hread hbyte h
      · obtain ⟨data', hread, -⟩ := h
        rw [read, if_neg hone, readBlocks_fails (find_touched x.addr) (by omega) (by omega)] at hread
        cases hread
  refine ⟨hcount, ?_⟩
  by_contra hround
  obtain ⟨data', hread, -⟩ := h
  have hmod : x.length % 2 ^ 32 = x.length := Nat.mod_eq_of_lt (by omega)
  by_cases hone : inOneBlock b x = true
  · rw [read, if_pos hone, read_single_block, next_block, find_touched] at hread
    have hrest := (inOneBlock_iff x).mp hone
    simp only [hmod] at hread
    rw [if_neg (by omega), if_neg (by omega)] at hread
    cases hread
  · rw [inOneBlock_iff] at hone
    rw [read, if_neg (by rw [inOneBlock_iff]; exact hone), hmod,
      readBlocks_throws haddr hcount (by omega) (by omega) (by omega) (by omega)] at hread
    cases hread

/-! ## Runs of writes -/

structure Write extends Access where
  data : Nat → UInt8

def writeAll (b : BlockSize) (ws : List Write) (m_data : BlockMap) : Option BlockMap :=
  ws.foldlM (fun m w => write b m w.toAccess w.data) m_data

/-- The last write to an address. -/
def lastWrite (ws : List Write) (a : Nat) : Option Write := ws.reverse.find? fun w => w.holds a

/-- The byte that the last write to an address put there. A byte that no write touched
is as in the memory before. -/
def lastWritten (before : Nat → UInt8) (ws : List Write) (a : Nat) : UInt8 :=
  (lastWrite ws a).elim (before a) fun w => w.data (distance w.addr a)

theorem find_last_append (p : Write → Bool) (ws : List Write) (w : Write) :
    (ws ++ [w]).reverse.find? p = if p w then some w else ws.reverse.find? p := by
  rw [List.reverse_append, List.reverse_singleton, List.singleton_append, List.find?_cons]
  cases p w <;> rfl

theorem lastWritten_append (before : Nat → UInt8) (ws : List Write) (w : Write) (a : Nat) :
    lastWritten before (ws ++ [w]) a =
      if w.holds a then w.data (distance w.addr a) else lastWritten before ws a := by
  unfold lastWritten lastWrite
  rw [find_last_append]
  split_ifs <;> rfl

theorem writeAll_exact {ws : List Write} (h : ∀ w ∈ ws, w.WriteFits b) :
    ∃ m', writeAll b ws .empty = some m' ∧
      ∀ a < 2 ^ 64, contents b m' a = lastWritten (fun _ => 0) ws a := by
  induction ws using List.reverseRecOn with
  | nil => exact ⟨.empty, rfl, fun a _ => contents_empty a⟩
  | append_singleton ws w ih =>
    obtain ⟨m₁, hbefore, hbytes₁⟩ := ih fun v hv => h v (List.mem_append_left _ hv)
    obtain ⟨m', hwrite, hbytes⟩ :=
      writesExactly_of_fits (h w (List.mem_append_right _ (List.mem_singleton_self w))) m₁ w.data
    refine ⟨m', ?_, fun a ha => ?_⟩
    · rw [writeAll] at hbefore ⊢
      rw [List.foldlM_append, hbefore]
      simp [hwrite]
    · rw [hbytes a ha, lastWritten_append, hbytes₁ a ha]

end laws

/-- A write changes exactly its range, and a read gives exactly its range, whatever the
memory holds, for exactly the ranges that fit. So behind any writes that fit, a read that
fits gives each byte as it was written last, or zero. -/
theorem read_over_write_iff (b : BlockSize) (x : Access) (ws : List Write) :
    ((∀ m_data data, WritesExactly b m_data x data) ↔ x.WriteFits b) ∧
      ((∀ m_data data, ReadsExactly b m_data x data) ↔ x.ReadFits b) ∧
      ((∀ w ∈ ws, w.WriteFits b) → x.ReadFits b → ∀ data, ∃ m_data data',
        writeAll b ws .empty = some m_data ∧ read b m_data x data = some data' ∧
          ∀ i < x.length, data' i = lastWritten (fun _ => 0) ws ((x.addr + i) % 2 ^ 64)) := by
  refine ⟨⟨fun h => fits_of_writesExactly (h .empty fun _ => 1), writesExactly_of_fits⟩,
    ⟨fun h => fits_of_readsExactly (h (touched b x.addr) fun _ => 1), readsExactly_of_fits⟩, ?_⟩
  intro hws hx data
  obtain ⟨m_data, hwrite, hbytes⟩ := writeAll_exact hws
  obtain ⟨data', hread, hgiven⟩ := readsExactly_of_fits hx m_data data
  refine ⟨m_data, data', hwrite, hread, fun i hi => ?_⟩
  rw [hgiven i, if_pos hi, hbytes _ (Nat.mod_lt _ (by decide))]

/-- The memory of the unit test. -/
def blocks32 : BlockSize := ⟨5, by decide⟩

/-- Sixteen bytes over the end of the first block. -/
def crossingWrite : Write where
  addr := 24
  length := 16
  addr_lt := by omega
  length_lt := by omega
  data := fun i => UInt8.ofNat (100 + i)

def crossingRead : Access := ⟨30, 4, by omega, by omega⟩

theorem a_crossing_write_reads_back :
    ∃ m_data data', writeAll blocks32 [crossingWrite] .empty = some m_data ∧
      read blocks32 m_data crossingRead (fun _ => 7) = some data' ∧ data' 3 = 109 := by
  have hwrite : crossingWrite.WriteFits blocks32 := by
    simp [Access.WriteFits, crossingWrite, blocks32, BlockSize.bytes]
  have hread : crossingRead.ReadFits blocks32 := by
    simp [Access.ReadFits, crossingRead, blocks32, BlockSize.bytes]
  have hwrites : ∀ w ∈ [crossingWrite], w.WriteFits blocks32 := by
    intro w hw
    rw [List.mem_singleton.mp hw]
    exact hwrite
  obtain ⟨m_data, data', hall, hdata, hbytes⟩ :=
    (read_over_write_iff blocks32 crossingRead [crossingWrite]).2.2 hwrites hread fun _ => 7
  refine ⟨m_data, data', hall, hdata, ?_⟩
  rw [hbytes 3 (by decide)]
  decide

theorem zero_addr_lt : 0 < 2 ^ 64 := by omega

/-- Four gigabytes of ones at address 0. -/
def longWrite : Write where
  addr := 0
  length := 2 ^ 32
  addr_lt := zero_addr_lt
  length_lt := by omega
  data := fun _ => 1

def firstByte : Access := ⟨0, 1, zero_addr_lt, by omega⟩

/-- The 32-bit counter of a write of 2^32 bytes starts at zero: no byte is written, and
the first of them reads as zero. -/
theorem a_long_write_writes_nothing :
    ∃ m_data data',
      writeAll blocks32 [longWrite] .empty = some m_data ∧
        read blocks32 m_data firstByte (fun _ => 7) = some data' ∧
          lastWritten (fun _ => 0) [longWrite] 0 = 1 ∧ data' 0 = 0 := by
  have hslow : inOneBlock blocks32 longWrite.toAccess = false := by
    simp [inOneBlock, blocks32, longWrite, BlockSize.bytes]
  have hcount : longWrite.length % 4294967296 = 0 := Nat.mod_self _
  have hwrite : writeAll blocks32 [longWrite] .empty = some .empty := by
    simp [writeAll, write, hslow, hcount, writeBlocks]
  have hread : firstByte.ReadFits blocks32 := by
    simp [Access.ReadFits, firstByte, blocks32, BlockSize.bytes]
  obtain ⟨data', hdata, hbytes⟩ := readsExactly_of_fits hread .empty fun _ => 7
  refine ⟨.empty, data', hwrite, hdata, ?_, ?_⟩
  · decide
  · rw [hbytes 0, if_pos (show 0 < firstByte.length from Nat.one_pos), contents_empty]

end memory_space_impl

end gpgpu_sim_uvm
