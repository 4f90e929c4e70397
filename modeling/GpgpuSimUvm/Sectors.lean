-- The sectors of the second-level cache (l2cache.cc): a request that reaches a sectored
-- cache is broken down into requests of one sector each. Four branches compute address,
-- sector bit and byte mask, and the requests partition the first one only on some inputs.
import GpgpuSimUvm.Bitset
import GpgpuSimUvm.TagArray

namespace gpgpu_sim_uvm

namespace memory_sub_partition

open gpu_cache bitset

def MAX_MEMORY_ACCESS_SIZE : Nat := 128

/-- A `mem_fetch`, with what the breakdown hands on to its parts. -/
structure L2Request extends MemFetch where
  warp_mask : BitVec 32
  wid : Nat
  sid : Nat
  tpc : Nat
  timestamp : Nat
  addr_lt : addr < 2 ^ 64

/-! ## The code -/

/-- `m_mf_allocator->alloc`. The number comes from `sm_next_mf_request_uid`, and without an
instruction the request is not atomic. -/
def alloc (addr : Nat) (byte_mask : BitVec 128) (sector_mask : BitVec 4) (cycle uid : Nat)
    (original_mf : L2Request) : L2Request :=
  { original_mf with
    serial := uid, made_here := false, addr := addr % 2 ^ 64, data_size := SECTOR_SIZE,
    isatomic := false, byte_mask := byte_mask, sector_mask := sector_mask, timestamp := cycle,
    addr_lt := Nat.mod_lt _ (by decide) }

/-- The bytes of a sector, added to a mask. -/
def setSector (mask : BitVec 128) (i : Nat) : BitVec 128 :=
  setRange mask (i * SECTOR_SIZE) SECTOR_SIZE

/-- The loops whose mask is declared before them: a part keeps the bytes of all sectors so
far. The addresses are those of `step`. -/
def growingParts (mf : L2Request) (step : Nat → Nat) (cycle : Nat) :
    List Nat → BitVec 128 → Nat → List L2Request
  | [], _, _ => []
  | i :: is, mask, uid =>
    alloc (mf.addr + step i) (mf.byte_mask &&& setSector mask i) (set 0 i) cycle uid mf ::
      growingParts mf step cycle is (setSector mask i) (uid + 1)

/-- The last loop: the sectors that the request names, each with a mask of its own. -/
def namedParts (mf : L2Request) (cycle : Nat) : List Nat → Nat → List L2Request
  | [], _ => []
  | i :: is, uid =>
    if mf.sector_mask.getLsbD i then
      alloc (mf.addr + SECTOR_SIZE * i) (mf.byte_mask &&& setSector 0 i) (set 0 i) cycle uid mf ::
        namedParts mf cycle is (uid + 1)
    else namedParts mf cycle is uid

/-- The branches of `breakdown_request_to_sector_requests`. -/
def sectorRequests (mf : L2Request) (cycle uid : Nat) : List L2Request :=
  if mf.data_size = SECTOR_SIZE ∧ count mf.sector_mask = 1 then [mf]
  else if mf.data_size = MAX_MEMORY_ACCESS_SIZE then
    growingParts mf (SECTOR_SIZE * ·) cycle (List.range SECTOR_CHUNCK_SIZE) 0 uid
  else if mf.data_size = 64 ∧ (mf.sector_mask = BitVec.allOnes 4 ∨ mf.sector_mask = 0) then
    let start := if mf.addr % MAX_MEMORY_ACCESS_SIZE = 0 then 0 else 2
    growingParts mf (fun _ => 0) cycle [start, start + 1] 0 uid
  else namedParts mf cycle (List.range SECTOR_CHUNCK_SIZE) uid

/-- No result is the failed assertion. -/
def breakdown_request_to_sector_requests (mf : L2Request) (cycle uid : Nat) :
    Option (List L2Request) :=
  if (sectorRequests mf cycle uid).isEmpty then none else some (sectorRequests mf cycle uid)

/-! ## What a partition is -/

/-- Byte `k` of the line is requested. A request as large as the sectors it names, as a
write-back is, asks for these, and any other for the bytes from its address on. -/
def Requests (mf : L2Request) (k : Nat) : Prop :=
  if mf.data_size = SECTOR_SIZE * count mf.sector_mask then
    mf.sector_mask.getLsbD (k / SECTOR_SIZE) = true
  else mf.addr % MAX_MEMORY_ACCESS_SIZE ≤ k ∧ k < mf.addr % MAX_MEMORY_ACCESS_SIZE + mf.data_size

/-- The part is one sector of the line: bit, address and bytes say the same one. -/
structure IsSector (mf r : L2Request) (i : Nat) : Prop where
  bit : r.sector_mask = set 0 i
  line : r.addr / MAX_MEMORY_ACCESS_SIZE = mf.addr / MAX_MEMORY_ACCESS_SIZE
  addr : r.addr % MAX_MEMORY_ACCESS_SIZE / SECTOR_SIZE = i
  bytes : ∀ k, r.byte_mask.getLsbD k = true → k / SECTOR_SIZE = i

/-- The parts partition the request. -/
structure Partitions (mf : L2Request) (parts : List L2Request) : Prop where
  sized : ∀ r ∈ parts, r.data_size = SECTOR_SIZE
  sector : ∀ r ∈ parts, ∃ i < SECTOR_CHUNCK_SIZE, IsSector mf r i
  apart : parts.Pairwise fun r r' => r.byte_mask &&& r'.byte_mask = 0
  union : ∀ k, (∃ r ∈ parts, r.byte_mask.getLsbD k = true) ↔
    mf.byte_mask.getLsbD k = true ∧ Requests mf k

/-! ## The parts -/

@[simp] theorem getLsbD_setSector (mask : BitVec 128) (i k : Nat) :
    (setSector mask i).getLsbD k =
      (mask.getLsbD k || decide (k / SECTOR_SIZE = i ∧ k < 128)) := by
  unfold setSector
  rw [getLsbD_setRange]
  congr 2
  simp only [SECTOR_SIZE]
  apply propext
  omega

/-- A sector bit names one sector. -/
theorem set_inj {i j : Nat} (hi : i < 4) (h : (set 0 i : BitVec 4) = set 0 j) : i = j := by
  have hbit : (set 0 j : BitVec 4).getLsbD i = true := by
    rw [← h]
    simp [hi]
  simp at hbit
  exact hbit.1

/-- The parts of the last loop are the named sectors. -/
theorem mem_namedParts {mf : L2Request} {cycle : Nat} {is : List Nat} {uid : Nat} {r : L2Request}
    (h : r ∈ namedParts mf cycle is uid) :
    ∃ i ∈ is, mf.sector_mask.getLsbD i = true ∧ ∃ u, r =
      alloc (mf.addr + SECTOR_SIZE * i) (mf.byte_mask &&& setSector 0 i) (set 0 i) cycle u mf := by
  induction is generalizing uid with
  | nil => simp [namedParts] at h
  | cons i is ih =>
    unfold namedParts at h
    split at h
    · rename_i hbit
      rcases List.mem_cons.mp h with rfl | hrest
      · exact ⟨i, List.mem_cons_self, hbit, uid, rfl⟩
      · obtain ⟨j, hj, hrest⟩ := ih hrest
        exact ⟨j, List.mem_cons_of_mem _ hj, hrest⟩
    · obtain ⟨j, hj, hrest⟩ := ih h
      exact ⟨j, List.mem_cons_of_mem _ hj, hrest⟩

/-- Each named sector of the list has its part. -/
theorem exists_namedPart {mf : L2Request} (cycle : Nat) {is : List Nat} (uid : Nat) {i : Nat}
    (hi : i ∈ is) (hbit : mf.sector_mask.getLsbD i = true) :
    ∃ u, alloc (mf.addr + SECTOR_SIZE * i) (mf.byte_mask &&& setSector 0 i) (set 0 i) cycle u mf ∈
      namedParts mf cycle is uid := by
  induction is generalizing uid with
  | nil => simp at hi
  | cons j is ih =>
    unfold namedParts
    rcases List.mem_cons.mp hi with rfl | hrest
    · rw [if_pos hbit]
      exact ⟨uid, List.mem_cons_self⟩
    · split
      · obtain ⟨u, hu⟩ := ih (uid + 1) hrest
        exact ⟨u, List.mem_cons_of_mem _ hu⟩
      · exact ih uid hrest

/-- Masks of different sectors have no byte in common. -/
theorem namedParts_apart (mf : L2Request) (cycle : Nat) {is : List Nat} (uid : Nat)
    (h : is.Nodup) :
    (namedParts mf cycle is uid).Pairwise fun r r' => r.byte_mask &&& r'.byte_mask = 0 := by
  induction is generalizing uid with
  | nil => simp [namedParts]
  | cons i is ih =>
    obtain ⟨hi, his⟩ := List.nodup_cons.mp h
    unfold namedParts
    split
    · refine List.pairwise_cons.mpr ⟨fun r hr => ?_, ih (uid + 1) his⟩
      obtain ⟨j, hj, -, u, rfl⟩ := mem_namedParts hr
      have hne : i ≠ j := fun he => hi (he ▸ hj)
      refine and_eq_zero_iff.mpr fun k hk hk' => ?_
      simp [alloc] at hk hk'
      omega
    · exact ih uid his

/-! ## When they partition the request -/

/-- The request starts in the first sector of its line. -/
def L2Request.StartsLow (mf : L2Request) : Prop :=
  mf.addr % MAX_MEMORY_ACCESS_SIZE < SECTOR_SIZE

/-- The condition, branch by branch. One sector: its bit and its bytes are those of the
address. A whole line: no byte below the last sector, since the masks grow. Half a line
with all bits or none: never, since both parts have the address of the request. Any other:
the bytes named are the bytes requested. -/
def L2Request.BreaksDown (mf : L2Request) : Prop :=
  if mf.data_size = SECTOR_SIZE ∧ count mf.sector_mask = 1 then
    mf.sector_mask.getLsbD (mf.addr % MAX_MEMORY_ACCESS_SIZE / SECTOR_SIZE) = true ∧
      ∀ k, mf.byte_mask.getLsbD k = true →
        k / SECTOR_SIZE = mf.addr % MAX_MEMORY_ACCESS_SIZE / SECTOR_SIZE
  else if mf.data_size = MAX_MEMORY_ACCESS_SIZE then
    mf.StartsLow ∧ ∀ k < 96, mf.byte_mask.getLsbD k = false
  else if mf.data_size = 64 ∧ (mf.sector_mask = BitVec.allOnes 4 ∨ mf.sector_mask = 0) then False
  else mf.StartsLow ∧ mf.sector_mask ≠ 0 ∧ ∀ k, mf.byte_mask.getLsbD k = true →
    (mf.sector_mask.getLsbD (k / SECTOR_SIZE) = true ↔ Requests mf k)

variable {mf : L2Request}

/-- From the first sector, the address of part `i` is in sector `i` of the line. -/
theorem part_addr (h : mf.StartsLow) {i : Nat} (hi : i < 4) :
    (mf.addr + SECTOR_SIZE * i) % 2 ^ 64 / MAX_MEMORY_ACCESS_SIZE =
        mf.addr / MAX_MEMORY_ACCESS_SIZE ∧
      (mf.addr + SECTOR_SIZE * i) % 2 ^ 64 % MAX_MEMORY_ACCESS_SIZE / SECTOR_SIZE = i := by
  have hlt := mf.addr_lt
  simp only [L2Request.StartsLow, MAX_MEMORY_ACCESS_SIZE, SECTOR_SIZE] at *
  omega

/-- Only from there. -/
theorem startsLow_of_part {i : Nat}
    (h : (mf.addr + SECTOR_SIZE * i) % 2 ^ 64 % MAX_MEMORY_ACCESS_SIZE / SECTOR_SIZE = i) :
    mf.StartsLow := by
  simp only [L2Request.StartsLow, MAX_MEMORY_ACCESS_SIZE, SECTOR_SIZE] at *
  omega

/-! ### One sector -/

theorem oneSector_partitions (hsize : mf.data_size = SECTOR_SIZE)
    (hcount : count mf.sector_mask = 1) :
    Partitions mf [mf] ↔
      mf.sector_mask.getLsbD (mf.addr % MAX_MEMORY_ACCESS_SIZE / SECTOR_SIZE) = true ∧
        ∀ k, mf.byte_mask.getLsbD k = true →
          k / SECTOR_SIZE = mf.addr % MAX_MEMORY_ACCESS_SIZE / SECTOR_SIZE := by
  constructor
  · intro h
    obtain ⟨i, hi, hpart⟩ := h.sector mf (by simp)
    rw [hpart.addr]
    refine ⟨?_, hpart.bytes⟩
    rw [hpart.bit]
    simp only [SECTOR_CHUNCK_SIZE] at hi
    simp [hi]
  · rintro ⟨hbit, hbytes⟩
    have hlt : mf.addr % MAX_MEMORY_ACCESS_SIZE / SECTOR_SIZE < 4 := BitVec.lt_of_getLsbD hbit
    refine ⟨by simpa using hsize, ?_, by simp, fun k => ?_⟩
    · intro r hr
      obtain rfl := List.mem_singleton.mp hr
      refine ⟨_, hlt, ?_, rfl, rfl, hbytes⟩
      apply BitVec.eq_of_getLsbD_eq
      intro j hj
      by_cases hjs : j = r.addr % MAX_MEMORY_ACCESS_SIZE / SECTOR_SIZE
      · rw [hjs, hbit]
        simp [hlt]
      · have hnot : r.sector_mask.getLsbD j = false := by
          rw [Bool.eq_false_iff]
          exact fun hset => hjs (eq_of_count_eq_one hcount hset hbit)
        simp [hnot, hjs]
    · have hnamed : mf.byte_mask.getLsbD k = true → Requests mf k := by
        intro hk
        rw [Requests, if_pos (by rw [hsize, hcount, Nat.mul_one]), hbytes k hk]
        exact hbit
      simpa using hnamed

/-! ### A whole line -/

/-- The bytes of the sectors `0` to `i`, as the loop collects them. -/
def sectorsUpTo : Nat → BitVec 128
  | 0 => setSector 0 0
  | i + 1 => setSector (sectorsUpTo i) (i + 1)

theorem getLsbD_sectorsUpTo (i k : Nat) :
    (sectorsUpTo i).getLsbD k = decide (k / SECTOR_SIZE ≤ i ∧ k < 128) := by
  induction i with
  | zero => simp [sectorsUpTo]
  | succ i ih =>
    rw [sectorsUpTo, getLsbD_setSector, ih, ← Bool.decide_or]
    apply decide_eq_decide.mpr
    omega

/-- Part `i` of a whole line. -/
def linePart (mf : L2Request) (cycle uid i : Nat) : L2Request :=
  alloc (mf.addr + SECTOR_SIZE * i) (mf.byte_mask &&& sectorsUpTo i) (set 0 i) cycle (uid + i) mf

theorem wholeLine_parts (cycle uid : Nat) :
    growingParts mf (SECTOR_SIZE * ·) cycle (List.range SECTOR_CHUNCK_SIZE) 0 uid =
      (List.range 4).map (linePart mf cycle uid) := by
  simp [growingParts, SECTOR_CHUNCK_SIZE, List.range_succ, linePart, sectorsUpTo]

/-- A part keeps the bytes of its own sector and of the sectors before it. -/
theorem getLsbD_linePart (cycle uid i k : Nat) :
    (linePart mf cycle uid i).byte_mask.getLsbD k = true ↔
      mf.byte_mask.getLsbD k = true ∧ k / SECTOR_SIZE ≤ i := by
  simp only [linePart, alloc, BitVec.getLsbD_and, getLsbD_sectorsUpTo, Bool.and_eq_true,
    decide_eq_true_eq]
  constructor
  · rintro ⟨hk, hle, -⟩
    exact ⟨hk, hle⟩
  · rintro ⟨hk, hle⟩
    exact ⟨hk, hle, BitVec.lt_of_getLsbD hk⟩

theorem wholeLine_partitions (cycle uid : Nat)
    (hsize : mf.data_size = MAX_MEMORY_ACCESS_SIZE) :
    Partitions mf ((List.range 4).map (linePart mf cycle uid)) ↔
      mf.StartsLow ∧ ∀ k < 96, mf.byte_mask.getLsbD k = false := by
  have hmem : ∀ i < 4, linePart mf cycle uid i ∈ (List.range 4).map (linePart mf cycle uid) :=
    fun i hi => List.mem_map.mpr ⟨i, List.mem_range.mpr hi, rfl⟩
  constructor
  · intro h
    constructor
    · obtain ⟨i, -, hpart⟩ := h.sector _ (hmem 0 (by omega))
      obtain rfl : 0 = i := set_inj (by omega) hpart.bit
      exact startsLow_of_part (i := 0) hpart.addr
    · intro k hk
      obtain ⟨i, -, hpart⟩ := h.sector _ (hmem 3 (by omega))
      obtain rfl : 3 = i := set_inj (by omega) hpart.bit
      rw [Bool.eq_false_iff]
      intro hset
      have hle : k / SECTOR_SIZE ≤ 3 := by simp only [SECTOR_SIZE]; omega
      have := hpart.bytes k ((getLsbD_linePart cycle uid 3 k).mpr ⟨hset, hle⟩)
      simp only [SECTOR_SIZE] at this
      omega
  · rintro ⟨hlow, hbytes⟩
    -- only the last part has bytes
    have hlast : ∀ {k}, mf.byte_mask.getLsbD k = true → k / SECTOR_SIZE = 3 := by
      intro k hk
      have hlt := BitVec.lt_of_getLsbD hk
      have hge : 96 ≤ k := by
        by_contra hcon
        rw [hbytes k (by omega)] at hk
        exact absurd hk (by simp)
      simp only [SECTOR_SIZE]
      omega
    refine ⟨?_, ?_, ?_, fun k => ?_⟩
    · simp [linePart, alloc]
    · simp only [List.mem_map, List.mem_range]
      rintro _ ⟨i, hi, rfl⟩
      obtain ⟨hline, hsector⟩ := part_addr hlow hi
      refine ⟨i, hi, rfl, hline, hsector, fun k hk => ?_⟩
      obtain ⟨hset, hle⟩ := (getLsbD_linePart cycle uid i k).mp hk
      have := hlast hset
      omega
    · rw [List.pairwise_map]
      refine List.pairwise_lt_range.imp_of_mem fun {i j} hi hj hij => ?_
      have hj := List.mem_range.mp hj
      refine and_eq_zero_iff.mpr fun k hk _ => ?_
      obtain ⟨hset, hle⟩ := (getLsbD_linePart cycle uid i k).mp hk
      have := hlast hset
      omega
    · constructor
      · rintro ⟨r, hr, hk⟩
        obtain ⟨i, -, rfl⟩ := List.mem_map.mp hr
        obtain ⟨hset, -⟩ := (getLsbD_linePart cycle uid i k).mp hk
        refine ⟨hset, ?_⟩
        have hsector := hlast hset
        have hlt := BitVec.lt_of_getLsbD hset
        unfold Requests
        split
        · rename_i hnamed
          -- all four sectors are named
          have hall : count mf.sector_mask = 4 := by
            rw [hsize] at hnamed
            simp only [MAX_MEMORY_ACCESS_SIZE, SECTOR_SIZE] at hnamed
            omega
          exact getLsbD_of_count_eq hall (by omega)
        · simp only [L2Request.StartsLow, SECTOR_SIZE] at hlow hsector
          rw [hsize]
          simp only [MAX_MEMORY_ACCESS_SIZE] at *
          omega
      · rintro ⟨hset, -⟩
        exact ⟨_, hmem 3 (by omega), (getLsbD_linePart cycle uid 3 k).mpr ⟨hset, (hlast hset).le⟩⟩

/-! ### Half a line, all sectors or none named -/

/-- Two bits go with one address, so one of them names another sector. -/
theorem not_halfLine_partitions (cycle uid : Nat) {start : Nat} (hstart : start + 1 < 4) :
    ¬ Partitions mf (growingParts mf (fun _ => 0) cycle [start, start + 1] 0 uid) := by
  intro h
  simp only [growingParts] at h
  obtain ⟨i, -, hfirst⟩ := h.sector _ List.mem_cons_self
  obtain ⟨j, -, hsecond⟩ := h.sector _ (List.mem_cons_of_mem _ List.mem_cons_self)
  obtain rfl : start = i := set_inj (by omega) hfirst.bit
  obtain rfl : start + 1 = j := set_inj hstart hsecond.bit
  have haddr := hfirst.addr.symm.trans hsecond.addr
  omega

/-! ### The sectors named -/

theorem namedParts_partitions (cycle uid : Nat) (hsome : mf.sector_mask ≠ 0) :
    Partitions mf (namedParts mf cycle (List.range SECTOR_CHUNCK_SIZE) uid) ↔
      mf.StartsLow ∧ ∀ k, mf.byte_mask.getLsbD k = true →
        (mf.sector_mask.getLsbD (k / SECTOR_SIZE) = true ↔ Requests mf k) := by
  have hpart : ∀ {k}, mf.byte_mask.getLsbD k = true →
      mf.sector_mask.getLsbD (k / SECTOR_SIZE) = true →
      ∃ r ∈ namedParts mf cycle (List.range SECTOR_CHUNCK_SIZE) uid,
        r.byte_mask.getLsbD k = true := by
    intro k hk hnamed
    have hin : k / SECTOR_SIZE ∈ List.range SECTOR_CHUNCK_SIZE :=
      List.mem_range.mpr (BitVec.lt_of_getLsbD hnamed)
    obtain ⟨u, hu⟩ := exists_namedPart cycle uid hin hnamed
    exact ⟨_, hu, by simp [alloc, hk, BitVec.lt_of_getLsbD hk]⟩
  -- a byte of a part is a byte of the request, in a sector that is named
  have hbyte : ∀ {r}, r ∈ namedParts mf cycle (List.range SECTOR_CHUNCK_SIZE) uid → ∀ {k},
      r.byte_mask.getLsbD k = true →
        mf.byte_mask.getLsbD k = true ∧ mf.sector_mask.getLsbD (k / SECTOR_SIZE) = true := by
    intro r hr k hk
    obtain ⟨i, -, hnamed, u, rfl⟩ := mem_namedParts hr
    simp [alloc] at hk
    exact ⟨hk.1, by rw [hk.2.1]; exact hnamed⟩
  constructor
  · intro h
    constructor
    · obtain ⟨i, hi⟩ := ne_zero_iff.mp hsome
      have hlt4 : i < 4 := BitVec.lt_of_getLsbD hi
      obtain ⟨u, hu⟩ := exists_namedPart cycle uid (List.mem_range.mpr hlt4) hi
      obtain ⟨j, -, hj⟩ := h.sector _ hu
      obtain rfl : i = j := set_inj hlt4 hj.bit
      exact startsLow_of_part hj.addr
    · intro k hk
      constructor
      · intro hnamed
        exact ((h.union k).mp (hpart hk hnamed)).2
      · intro hreq
        obtain ⟨r, hr, hkr⟩ := (h.union k).mpr ⟨hk, hreq⟩
        exact (hbyte hr hkr).2
  · rintro ⟨hlow, hnamed⟩
    refine ⟨?_, ?_, namedParts_apart mf cycle uid List.nodup_range, fun k => ?_⟩
    · intro r hr
      obtain ⟨i, -, -, u, rfl⟩ := mem_namedParts hr
      rfl
    · intro r hr
      obtain ⟨i, hi, -, u, rfl⟩ := mem_namedParts hr
      have hi := List.mem_range.mp hi
      obtain ⟨hline, hsector⟩ := part_addr hlow hi
      refine ⟨i, hi, rfl, hline, hsector, fun k hk => ?_⟩
      simp [alloc] at hk
      exact hk.2.1
    · constructor
      · rintro ⟨r, hr, hkr⟩
        obtain ⟨hset, hin⟩ := hbyte hr hkr
        exact ⟨hset, (hnamed k hset).mp hin⟩
      · rintro ⟨hset, hreq⟩
        exact hpart hset ((hnamed k hset).mpr hreq)

theorem namedParts_eq_nil (cycle uid : Nat) (hnone : mf.sector_mask = 0) :
    namedParts mf cycle (List.range SECTOR_CHUNCK_SIZE) uid = [] := by
  apply List.eq_nil_iff_forall_not_mem.mpr
  intro r hr
  obtain ⟨i, -, hi, -⟩ := mem_namedParts hr
  rw [hnone] at hi
  simp at hi

/-! ## The law -/

/-- What the branches give partitions the request, exactly on the condition. -/
theorem sectorRequests_partitions (cycle uid : Nat) :
    (sectorRequests mf cycle uid ≠ [] ∧ Partitions mf (sectorRequests mf cycle uid)) ↔
      mf.BreaksDown := by
  unfold sectorRequests L2Request.BreaksDown
  split
  · rename_i hone
    rw [oneSector_partitions hone.1 hone.2]
    simp
  · split
    · rename_i hsize
      rw [wholeLine_parts, wholeLine_partitions cycle uid hsize]
      simp
    · split
      · simp only [iff_false, not_and]
        intro _
        split <;> exact not_halfLine_partitions cycle uid (by omega)
      · by_cases hnone : mf.sector_mask = 0
        · simp [namedParts_eq_nil cycle uid hnone, hnone]
        · have hne : namedParts mf cycle (List.range SECTOR_CHUNCK_SIZE) uid ≠ [] := by
            obtain ⟨i, hi⟩ := ne_zero_iff.mp hnone
            obtain ⟨u, hu⟩ :=
              exists_namedPart cycle uid (List.mem_range.mpr (BitVec.lt_of_getLsbD hi)) hi
            exact List.ne_nil_of_mem hu
          rw [namedParts_partitions cycle uid hnone]
          exact ⟨fun h => ⟨h.2.1, hnone, h.2.2⟩, fun h => ⟨hne, h.1, h.2.2⟩⟩

/-- The breakdown partitions a request exactly where the branch it takes computes address,
bit and bytes of one and the same sector. -/
theorem breakdown_partitions_iff (mf : L2Request) (cycle uid : Nat) :
    (∃ parts, breakdown_request_to_sector_requests mf cycle uid = some parts ∧
      Partitions mf parts) ↔ mf.BreaksDown := by
  rw [← sectorRequests_partitions cycle uid]
  unfold breakdown_request_to_sector_requests
  cases hparts : sectorRequests mf cycle uid with
  | nil => simp
  | cons r rs => simp

/-- A write of a whole line, all of its bytes. -/
def wholeLineWrite : L2Request where
  serial := 0
  addr := 0
  data_size := 128
  type := .GLOBAL_ACC_W
  is_write := true
  isatomic := false
  sector_mask := BitVec.allOnes 4
  byte_mask := BitVec.allOnes 128
  warp_mask := BitVec.allOnes 32
  wid := 0
  sid := 0
  tpc := 0
  timestamp := 0
  addr_lt := by decide

/-- A write of the upper half of a line, as the coalescer makes it. -/
def upperHalfWrite : L2Request :=
  { wholeLineWrite with
    addr := 64, data_size := 64, sector_mask := 12, byte_mask := BitVec.allOnes 128 <<< 64,
    addr_lt := by decide }

/-- The parts of the whole line overlap, and those of the upper half are in the next line. -/
theorem parts_overlap_or_leave_the_line :
    (∃ parts, breakdown_request_to_sector_requests wholeLineWrite 0 1 = some parts ∧
      (¬ parts.Pairwise fun r r' => r.byte_mask &&& r'.byte_mask = 0) ∧
      ¬ Partitions wholeLineWrite parts) ∧
    (∃ parts, breakdown_request_to_sector_requests upperHalfWrite 0 1 = some parts ∧
      parts.map (·.addr) = [128, 160] ∧ ¬ Partitions upperHalfWrite parts) := by
  have hparts : sectorRequests wholeLineWrite 0 1 =
      (List.range 4).map (linePart wholeLineWrite 0 1) := by
    rw [← wholeLine_parts]
    rfl
  have hzero : ∀ i, (linePart wholeLineWrite 0 1 i).byte_mask.getLsbD 0 = true := by
    intro i
    rw [getLsbD_linePart]
    simp [wholeLineWrite]
  have hshare : ¬ ((List.range 4).map (linePart wholeLineWrite 0 1)).Pairwise
      fun r r' => r.byte_mask &&& r'.byte_mask = 0 := by
    intro h
    simp only [List.range_succ, List.range_zero, List.nil_append, List.cons_append, List.map_cons,
      List.pairwise_cons] at h
    exact and_eq_zero_iff.mp (h.1 _ List.mem_cons_self) 0 (hzero 0) (hzero 1)
  refine ⟨⟨_, ?_, hshare, fun h => hshare h.apart⟩, ⟨_, rfl, by decide, ?_⟩⟩
  · rw [breakdown_request_to_sector_requests, hparts]
    simp
  · intro h
    obtain ⟨i, -, hpart⟩ := h.sector _ List.mem_cons_self
    exact absurd hpart.line (by decide)

end memory_sub_partition

end gpgpu_sim_uvm
