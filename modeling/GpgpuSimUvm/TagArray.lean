-- The tag array of a cache (gpu-cache.h and gpu-cache.cc): lines of one sector
-- or of four, the choice of a victim, allocation, fills and invalidation.
import Mathlib.Tactic

namespace gpgpu_sim_uvm.gpu_cache

def SECTOR_CHUNCK_SIZE : Nat := 4
def SECTOR_SIZE : Nat := 32

/-- `(unsigned)-1` -/
def UNSIGNED_MAX : Nat := 0xFFFFFFFF

inductive CacheBlockState
  | INVALID | RESERVED | VALID | MODIFIED
  deriving DecidableEq, Repr

inductive CacheRequestStatus
  | HIT | HIT_RESERVED | MISS | RESERVATION_FAIL | SECTOR_MISS
  deriving DecidableEq, Repr

inductive ReplacementPolicy
  | LRU | FIFO
  deriving DecidableEq, Repr

inductive WritePolicy
  | READ_ONLY | WRITE_BACK | WRITE_THROUGH | WRITE_EVICT | LOCAL_WB_GLOBAL_WT
  deriving DecidableEq, Repr

/-- `init` turns `STREAMING` into `ON_FILL`. -/
inductive AllocationPolicy
  | ON_MISS | ON_FILL
  deriving DecidableEq, Repr

inductive WriteAllocatePolicy
  | NO_WRITE_ALLOCATE | WRITE_ALLOCATE | FETCH_ON_WRITE | LAZY_FETCH_ON_READ
  deriving DecidableEq, Repr

/-- The MSHR types of a `baseline_cache`. -/
inductive MshrConfig
  | ASSOC | SECTOR_ASSOC
  deriving DecidableEq, Repr

inductive CacheType
  | NORMAL | SECTOR
  deriving DecidableEq, Repr

inductive MemAccessType
  | GLOBAL_ACC_R | LOCAL_ACC_R | CONST_ACC_R | TEXTURE_ACC_R | GLOBAL_ACC_W | LOCAL_ACC_W
  | L1_WRBK_ACC | L2_WRBK_ACC | INST_ACC_R | L1_WR_ALLOC_R | L2_WR_ALLOC_R
  deriving DecidableEq, Repr

/-- `cache_config`, with what the constructor of a data cache is given. -/
structure CacheConfig where
  m_cache_type : CacheType
  m_nset : Nat
  m_assoc : Nat
  m_line_sz : Nat
  m_replacement_policy : ReplacementPolicy
  m_write_policy : WritePolicy
  m_alloc_policy : AllocationPolicy
  m_write_alloc_policy : WriteAllocatePolicy
  m_mshr_type : MshrConfig
  m_mshr_entries : Nat
  m_mshr_max_merge : Nat
  m_miss_queue_size : Nat
  m_wr_percent : Nat
  set_index : Nat → Nat
  m_wr_alloc_type : MemAccessType
  m_wrbk_type : MemAccessType
  /-- The assertion of `hash_function`. -/
  set_index_lt : ∀ addr, set_index addr < m_nset
  /-- The number of a line is an `unsigned`. -/
  lines_fit : m_nset * m_assoc ≤ UNSIGNED_MAX
  -- the assertions of `init`
  on_fill_ok : m_alloc_policy = .ON_FILL →
    m_write_policy ≠ .WRITE_BACK ∧ m_write_alloc_policy ≠ .FETCH_ON_WRITE ∧
      m_write_alloc_policy ≠ .LAZY_FETCH_ON_READ
  sectors_ok : m_cache_type = .SECTOR →
    m_line_sz / SECTOR_SIZE = SECTOR_CHUNCK_SIZE ∧ m_line_sz % SECTOR_SIZE = 0

namespace CacheConfig

variable (cfg : CacheConfig)

def get_num_lines : Nat := cfg.m_nset * cfg.m_assoc

def m_atom_sz : Nat :=
  match cfg.m_cache_type with
  | .SECTOR => SECTOR_SIZE
  | .NORMAL => cfg.m_line_sz

/-- `addr & ~(m_line_sz - 1)` -/
def block_addr (addr : Nat) : Nat := addr - (addr &&& (cfg.m_line_sz - 1))

/-- The tag is the address of the block. -/
def tag (addr : Nat) : Nat := cfg.block_addr addr

/-- `addr & ~(m_atom_sz - 1)` -/
def mshr_addr (addr : Nat) : Nat := addr - (addr &&& (cfg.m_atom_sz - 1))

/-- The numbers of the lines of the set of an address, way by way. -/
def ways (addr : Nat) : List Nat :=
  (List.range cfg.m_assoc).map fun way => cfg.set_index addr * cfg.m_assoc + way

end CacheConfig

/-- What the caches read of a `mem_fetch`. Its number, and whether this cache
made it, stand for the identity of the object. -/
structure MemFetch where
  serial : Nat
  made_here : Bool := false
  addr : Nat
  data_size : Nat
  type : MemAccessType
  is_write : Bool
  isatomic : Bool
  sector_mask : BitVec 4
  byte_mask : BitVec 128
  deriving DecidableEq

/-! ## The lines -/

/-- What a sector keeps, or a line of a cache without sectors. -/
structure Sector where
  m_status : CacheBlockState := .INVALID
  m_set_modified_on_fill : Bool := false
  m_set_readable_on_fill : Bool := false
  m_readable : Bool := true
  deriving DecidableEq

/-- `line_cache_block` and `sector_cache_block`. The first has one sector. -/
structure CacheBlock where
  m_tag : Nat := 0
  m_block_addr : Nat := 0
  sectors : Nat → Sector := fun _ => {}
  m_alloc_time : Nat := 0
  m_last_access_time : Nat := 0
  m_set_byte_mask_on_fill : Bool := false
  m_dirty_byte_mask : BitVec 128 := 0

def numSectors : CacheType → Nat
  | .NORMAL => 1
  | .SECTOR => SECTOR_CHUNCK_SIZE

/-- The sector that bit `j` of a mask stands for. -/
def sectorOfBit (ct : CacheType) (j : Nat) : Nat :=
  match ct with
  | .NORMAL => 0
  | .SECTOR => j

/-- `get_sector_index`. A line without sectors does not look at the mask. -/
def get_sector_index (ct : CacheType) (mask : BitVec 4) : Nat :=
  sectorOfBit ct (((List.range SECTOR_CHUNCK_SIZE).find? fun i => mask.getLsbD i).getD 0)

/-- The assertion of `get_sector_index`. -/
def maskFits (ct : CacheType) (mask : BitVec 4) : Bool :=
  decide (ct = .NORMAL ∨ ((List.range SECTOR_CHUNCK_SIZE).countP fun i => mask.getLsbD i) = 1)

namespace CacheBlock

variable (ct : CacheType) (b : CacheBlock)

def get_status (i : Nat) : CacheBlockState := (b.sectors i).m_status

/-- Some sector has the status. -/
def hasStatus (s : CacheBlockState) : Bool :=
  (List.range (numSectors ct)).any fun i => decide (b.get_status i = s)

def is_invalid_line : Bool :=
  (List.range (numSectors ct)).all fun i => decide (b.get_status i = .INVALID)

def is_valid_line : Bool :=
  match ct with
  | .NORMAL => decide (b.get_status 0 = .VALID)
  | .SECTOR => !b.is_invalid_line ct

def is_reserved_line : Bool := b.hasStatus ct .RESERVED

def is_modified_line : Bool := b.hasStatus ct .MODIFIED

def is_readable (i : Nat) : Bool := (b.sectors i).m_readable

def updateSector (i : Nat) (f : Sector → Sector) : CacheBlock :=
  { b with sectors := fun j => if j = i then f (b.sectors i) else b.sectors j }

def set_status (s : CacheBlockState) (i : Nat) : CacheBlock :=
  b.updateSector i fun x => { x with m_status := s }

def set_modified_on_fill (v : Bool) (i : Nat) : CacheBlock :=
  b.updateSector i fun x => { x with m_set_modified_on_fill := v }

def set_readable_on_fill (v : Bool) (i : Nat) : CacheBlock :=
  b.updateSector i fun x => { x with m_set_readable_on_fill := v }

def set_m_readable (v : Bool) (i : Nat) : CacheBlock :=
  b.updateSector i fun x => { x with m_readable := v }

def set_byte_mask_on_fill (v : Bool) : CacheBlock := { b with m_set_byte_mask_on_fill := v }

def set_byte_mask (mask : BitVec 128) : CacheBlock :=
  { b with m_dirty_byte_mask := b.m_dirty_byte_mask ||| mask }

def set_last_access_time (time : Nat) : CacheBlock := { b with m_last_access_time := time }

def get_modified_size : Nat :=
  match ct with
  | .NORMAL => SECTOR_CHUNCK_SIZE * SECTOR_SIZE
  | .SECTOR =>
    ((List.range SECTOR_CHUNCK_SIZE).countP fun i => decide (b.get_status i = .MODIFIED)) *
      SECTOR_SIZE

def get_dirty_sector_mask : BitVec 4 :=
  BitVec.ofBoolListLE ((List.range 4).map fun j =>
    decide (b.get_status (sectorOfBit ct j) = .MODIFIED))

/-- `allocate`. A sector cache starts the line afresh, all sectors of it. -/
def allocate (tag block_addr time i : Nat) : CacheBlock :=
  let b :=
    match ct with
    | .NORMAL => b
    | .SECTOR => { b with sectors := fun _ => {}, m_dirty_byte_mask := 0 }
  { b.updateSector i fun x =>
      { x with
        m_status := .RESERVED
        m_set_modified_on_fill := false
        m_set_readable_on_fill := false } with
    m_tag := tag
    m_block_addr := block_addr
    m_alloc_time := time
    m_last_access_time := time
    m_set_byte_mask_on_fill := false }

def allocate_sector (time i : Nat) : CacheBlock :=
  { b.updateSector i fun x =>
      { m_status := .RESERVED
        m_set_modified_on_fill := decide (x.m_status = .MODIFIED)
        m_set_readable_on_fill := false
        m_readable := true } with
    m_last_access_time := time }

/-- `fill`. Only a sector cache forgets `m_set_readable_on_fill` then. -/
def fill (i : Nat) (byte_mask : BitVec 128) : CacheBlock :=
  let b := b.updateSector i fun x =>
    { x with
      m_status := if x.m_set_modified_on_fill then .MODIFIED else .VALID
      m_readable := x.m_readable || x.m_set_readable_on_fill
      m_set_readable_on_fill := x.m_set_readable_on_fill && decide (ct = .NORMAL) }
  if b.m_set_byte_mask_on_fill then b.set_byte_mask byte_mask else b

end CacheBlock

/-! ## The tag array -/

structure TagArray where
  m_lines : Nat → CacheBlock := fun _ => {}
  m_dirty : Nat := 0
  is_used : Bool := false
  /-- An assertion failed. -/
  aborted : Bool := false

/-- What `probe` answers, with the line where it writes one. -/
inductive Probe
  | HIT (idx : Nat)
  | HIT_RESERVED (idx : Nat)
  | MISS (idx : Nat)
  | SECTOR_MISS (idx : Nat)
  | RESERVATION_FAIL
  /-- An assertion fails, or `abort` is called. -/
  | aborts
  deriving DecidableEq

structure EvictedBlockInfo where
  m_block_addr : Nat
  m_modified_size : Nat
  m_byte_mask : BitVec 128
  m_sector_mask : BitVec 4
  deriving DecidableEq

namespace TagArray

/-- `assert(b)` -/
def require (t : TagArray) (b : Bool) : TagArray := { t with aborted := t.aborted || !b }

def updateLine (t : TagArray) (idx : Nat) (f : CacheBlock → CacheBlock) : TagArray :=
  { t with m_lines := fun j => if j = idx then f (t.m_lines idx) else t.m_lines j }

/-- `m_dirty++`, of an `unsigned`. -/
def inc_dirty (t : TagArray) : TagArray :=
  { t with m_dirty := if t.m_dirty = UNSIGNED_MAX then 0 else t.m_dirty + 1 }

/-- `m_dirty--`, of an `unsigned`. -/
def dec_dirty (t : TagArray) : TagArray :=
  { t with m_dirty := if t.m_dirty = 0 then UNSIGNED_MAX else t.m_dirty - 1 }

end TagArray

variable (cfg : CacheConfig)

/-! ## The probe -/

/-- `dirty_line_percentage >= m_wr_percent`, multiplied out. -/
def dirtyLimitReached (t : TagArray) : Bool :=
  decide (cfg.m_wr_percent * cfg.get_num_lines ≤ t.m_dirty * 100)

/-- The line can be replaced. -/
def isEligible (t : TagArray) (idx : Nat) : Bool :=
  !(t.m_lines idx).is_reserved_line cfg.m_cache_type &&
    (!(t.m_lines idx).is_modified_line cfg.m_cache_type || dirtyLimitReached cfg t)

/-- The time that the replacement policy looks at. -/
def timestamp (b : CacheBlock) : Nat :=
  match cfg.m_replacement_policy with
  | .LRU => b.m_last_access_time
  | .FIFO => b.m_alloc_time

/-- The locals of `probe`; a line number that is still `(unsigned)-1` is none. -/
structure Candidates where
  all_reserved : Bool := true
  invalid_line : Option Nat := none
  valid_line : Option Nat := none
  valid_timestamp : Nat := UNSIGNED_MAX

/-- One way in the loop of `probe`, where it is not the line that is looked for. -/
def consider (t : TagArray) (v : Candidates) (index : Nat) : Candidates :=
  if isEligible cfg t index then
    let v := { v with all_reserved := false }
    if (t.m_lines index).is_invalid_line cfg.m_cache_type then { v with invalid_line := some index }
    else if timestamp cfg (t.m_lines index) < v.valid_timestamp then
      { v with valid_timestamp := timestamp cfg (t.m_lines index), valid_line := some index }
    else v
  else v

/-- The answer of `probe` at a line with the tag that is looked for. -/
def lineHit (b : CacheBlock) (mask : BitVec 4) (is_write : Bool) (index : Nat) : Option Probe :=
  let i := get_sector_index cfg.m_cache_type mask
  if maskFits cfg.m_cache_type mask then
    match b.get_status i with
    | .RESERVED => some (.HIT_RESERVED index)
    | .VALID => some (.HIT index)
    | .MODIFIED =>
      if is_write || b.is_readable i then some (.HIT index) else some (.SECTOR_MISS index)
    | .INVALID => if b.is_valid_line cfg.m_cache_type then some (.SECTOR_MISS index) else none
  else some .aborts

/-- What `probe` answers behind its loop. -/
def Candidates.answer (v : Candidates) : Probe :=
  if v.all_reserved then
    match cfg.m_alloc_policy with
    | .ON_MISS => .RESERVATION_FAIL
    | .ON_FILL => .aborts
  else
    match v.invalid_line, v.valid_line with
    | some idx, _ => .MISS idx
    | none, some idx => .MISS idx
    | none, none => .aborts

/-- Where the loop of `probe` returns at a way, and with what. -/
def wayHit (t : TagArray) (tag : Nat) (mask : BitVec 4) (is_write : Bool) (index : Nat) :
    Option Probe :=
  if (t.m_lines index).m_tag = tag then lineHit cfg (t.m_lines index) mask is_write index else none

def probeWays (t : TagArray) (tag : Nat) (mask : BitVec 4) (is_write : Bool) :
    List Nat → Candidates → Probe
  | [], v => v.answer cfg
  | index :: rest, v =>
    match wayHit cfg t tag mask is_write index with
    | some p => p
    | none => probeWays t tag mask is_write rest (consider cfg t v index)

/-- `tag_array::probe` -/
def probe (t : TagArray) (addr : Nat) (mask : BitVec 4) (is_write : Bool) : Probe :=
  probeWays cfg t (cfg.tag addr) mask is_write (cfg.ways addr) {}

/-! ## Access and fill -/

/-- What `access` and its reference parameters give back. -/
structure Accessed where
  status : Probe
  /-- Set where `wb` is. -/
  evicted : Option EvictedBlockInfo := none
  tags : TagArray

def evictedBlock (b : CacheBlock) : EvictedBlockInfo where
  m_block_addr := b.m_block_addr
  m_modified_size := b.get_modified_size cfg.m_cache_type
  m_byte_mask := b.m_dirty_byte_mask
  m_sector_mask := b.get_dirty_sector_mask cfg.m_cache_type

/-- `allocate` on the line of a victim, which is no longer dirty. -/
def allocateLine (t : TagArray) (addr time : Nat) (mask : BitVec 4) (idx : Nat) : TagArray :=
  let t := t.require (maskFits cfg.m_cache_type mask)
  (if (t.m_lines idx).is_modified_line cfg.m_cache_type then t.dec_dirty else t).updateLine idx
    fun b => b.allocate cfg.m_cache_type (cfg.tag addr) (cfg.block_addr addr) time
      (get_sector_index cfg.m_cache_type mask)

/-- `allocate_sector`, with the assertions around it, and `m_dirty` after it. -/
def allocateSector (t : TagArray) (time : Nat) (mask : BitVec 4) (idx : Nat) : TagArray :=
  let b := t.m_lines idx
  let t := t.require (decide (cfg.m_cache_type = .SECTOR) && b.is_valid_line cfg.m_cache_type)
  let b' := b.allocate_sector time (get_sector_index cfg.m_cache_type mask)
  (if b.is_modified_line cfg.m_cache_type && !b'.is_modified_line cfg.m_cache_type then t.dec_dirty
    else t).updateLine idx fun _ => b'

/-- `tag_array::access` -/
def access (t : TagArray) (addr time : Nat) (mf : MemFetch) : Accessed :=
  let t := { t with is_used := true }
  let status := probe cfg t addr mf.sector_mask mf.is_write
  match status with
  | .HIT_RESERVED idx | .HIT idx =>
    { status := status, tags := t.updateLine idx fun b => b.set_last_access_time time }
  | .MISS idx =>
    match cfg.m_alloc_policy with
    | .ON_MISS =>
      { status := status
        evicted :=
          if (t.m_lines idx).is_modified_line cfg.m_cache_type then
            some (evictedBlock cfg (t.m_lines idx))
          else none
        tags := allocateLine cfg t addr time mf.sector_mask idx }
    | .ON_FILL => { status := status, tags := t }
  | .SECTOR_MISS idx =>
    match cfg.m_alloc_policy with
    | .ON_MISS => { status := status, tags := allocateSector cfg t time mf.sector_mask idx }
    | .ON_FILL =>
      { status := status, tags := t.require (decide (cfg.m_cache_type = .SECTOR)) }
  | .RESERVATION_FAIL => { status := status, tags := t }
  | .aborts => { status := status, tags := t.require false }

/-- Fills a sector; `m_dirty` grows where the line becomes modified. -/
def fillLine (t : TagArray) (mask : BitVec 4) (byte_mask : BitVec 128) (idx : Nat) : TagArray :=
  let b := t.m_lines idx
  let t := t.require (maskFits cfg.m_cache_type mask)
  let b' := b.fill cfg.m_cache_type (get_sector_index cfg.m_cache_type mask) byte_mask
  (if b'.is_modified_line cfg.m_cache_type && !b.is_modified_line cfg.m_cache_type then t.inc_dirty
    else t).updateLine idx fun _ => b'

/-- `tag_array::fill` of an address. Where `probe` writes no line number, the
code goes on with one that was never set. -/
def fillAddr (t : TagArray) (addr time : Nat) (mask : BitVec 4) (byte_mask : BitVec 128)
    (is_write : Bool) : TagArray :=
  match probe cfg t addr mask is_write with
  | .HIT idx | .HIT_RESERVED idx => fillLine cfg t mask byte_mask idx
  | .MISS idx => fillLine cfg (allocateLine cfg t addr time mask idx) mask byte_mask idx
  | .SECTOR_MISS idx => fillLine cfg (allocateSector cfg t time mask idx) mask byte_mask idx
  | .RESERVATION_FAIL | .aborts => t.require false

/-- `tag_array::fill` of a line. -/
def fillIndex (t : TagArray) (idx : Nat) (mask : BitVec 4) (byte_mask : BitVec 128) : TagArray :=
  fillLine cfg (t.require (decide (cfg.m_alloc_policy = .ON_MISS))) mask byte_mask idx

/-- "mark line as dirty": the sequence that the data caches go through where a
sector is written. -/
def markModified (t : TagArray) (i : Nat) (byte_mask : BitVec 128) (idx : Nat) : TagArray :=
  (if !(t.m_lines idx).is_modified_line cfg.m_cache_type then t.inc_dirty else t).updateLine idx
    fun b => (b.set_status .MODIFIED i).set_byte_mask byte_mask

/-! ## Flush and invalidation -/

/-- `set_status(INVALID, ...)` for each bit of a sector mask. -/
def clearLine (b : CacheBlock) : CacheBlock :=
  (List.range SECTOR_CHUNCK_SIZE).foldl
    (fun b j => b.set_status .INVALID (sectorOfBit cfg.m_cache_type j)) b

def flush (t : TagArray) : TagArray :=
  if t.is_used then
    { t with
      m_lines := fun i =>
        if i < cfg.get_num_lines ∧ (t.m_lines i).is_modified_line cfg.m_cache_type = true then
          clearLine cfg (t.m_lines i)
        else t.m_lines i
      m_dirty := 0
      is_used := false }
  else t

def invalidate (t : TagArray) : TagArray :=
  if t.is_used then
    { t with
      m_lines := fun i => if i < cfg.get_num_lines then clearLine cfg (t.m_lines i) else t.m_lines i
      m_dirty := 0
      is_used := false }
  else t

/-- The loop over the sectors of a line in `invalidate(lineaddr)`. -/
def invalidateSector (idx : Nat) (s : TagArray × Nat) (j : Nat) : TagArray × Nat :=
  let t := s.1
  let b := t.m_lines idx
  let state := b.get_status (sectorOfBit cfg.m_cache_type j)
  let t := t.require (decide (state ≠ .RESERVED))
  if state ≠ .INVALID then
    ((if b.is_modified_line cfg.m_cache_type && decide (0 < t.m_dirty) then t.dec_dirty
        else t).updateLine idx fun b => b.set_status .INVALID (sectorOfBit cfg.m_cache_type j),
      s.2 + 1)
  else (t, s.2)

def invalidateWay (lineaddr : Nat) (s : TagArray × Nat) (idx : Nat) : TagArray × Nat :=
  if (s.1.m_lines idx).m_tag = cfg.tag lineaddr then
    (List.range SECTOR_CHUNCK_SIZE).foldl (invalidateSector cfg idx) s
  else s

/-- `invalidate(lineaddr)`, with the number of sectors that it invalidates. -/
def invalidateAddr (t : TagArray) (lineaddr : Nat) : TagArray × Nat :=
  (cfg.ways lineaddr).foldl (invalidateWay cfg lineaddr) (t, 0)

end gpgpu_sim_uvm.gpu_cache
