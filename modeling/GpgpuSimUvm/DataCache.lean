-- The caches over their tag array and their MSHRs (gpu-cache.cc): accesses under
-- every write policy and allocation policy, fills, and runs of a cache.
import GpgpuSimUvm.StdMap
import GpgpuSimUvm.TagArray
import GpgpuSimUvm.Monitor

namespace gpgpu_sim_uvm.gpu_cache

/-! ## The MSHRs -/

structure MshrEntry where
  m_list : List MemFetch := []
  m_has_atomic : Bool := false
  deriving DecidableEq

/-- What the history of an MSHR table remembers. No function of the cache reads it. -/
inductive MshrEvent
  | added (block_addr : Nat) (mf : MemFetch)
  | ready (block_addr : Nat)
  | returned (block_addr : Nat) (mf : MemFetch)
  | freed (block_addr : Nat)
  deriving DecidableEq

structure MshrTable where
  m_data : StdMap Nat MshrEntry := .empty
  m_current_response : List Nat := []
  /-- An assertion failed. -/
  aborted : Bool := false
  /-- The newest event comes first. -/
  history : List MshrEvent := []

variable (cfg : CacheConfig)

namespace MshrTable

/-- `assert(b)` -/
def require (m : MshrTable) (b : Bool) : MshrTable := { m with aborted := m.aborted || !b }

def entry (m : MshrTable) (block_addr : Nat) : MshrEntry := m.m_data.findD block_addr {}

def probe (m : MshrTable) (block_addr : Nat) : Bool := m.m_data.contains block_addr

def full (m : MshrTable) (block_addr : Nat) : Bool :=
  if m.m_data.contains block_addr then
    decide (cfg.m_mshr_max_merge ≤ (m.entry block_addr).m_list.length)
  else decide (cfg.m_mshr_entries ≤ m.m_data.entries.length)

def add (m : MshrTable) (block_addr : Nat) (mf : MemFetch) : MshrTable :=
  let m := { m with
    m_data := m.m_data.alter block_addr {} fun e =>
      { m_list := e.m_list ++ [mf], m_has_atomic := e.m_has_atomic || mf.isatomic }
    history := .added block_addr mf :: m.history }
  m.require (decide (m.m_data.entries.length ≤ cfg.m_mshr_entries ∧
    (m.entry block_addr).m_list.length ≤ cfg.m_mshr_max_merge))

/-- A read of the list follows a write. -/
def readAfterWrite : Bool → List MemFetch → Bool
  | _, [] => false
  | write_found, mf :: mfs =>
    if mf.is_write then readAfterWrite true mfs
    else write_found || readAfterWrite write_found mfs

def is_read_after_write_pending (m : MshrTable) (block_addr : Nat) : Bool :=
  readAfterWrite false (m.entry block_addr).m_list

/-- `mark_ready`, with the `has_atomic` that it sets. -/
def mark_ready (m : MshrTable) (block_addr : Nat) : MshrTable × Bool :=
  let m' := { m with
    m_current_response := m.m_current_response ++ [block_addr]
    history := .ready block_addr :: m.history }
  (m'.require (m.m_data.contains block_addr &&
      decide (m'.m_current_response.length ≤ m.m_data.entries.length)),
    (m.entry block_addr).m_has_atomic)

def next_access (m : MshrTable) : MshrTable × Option MemFetch :=
  match m.m_current_response with
  | [] => (m.require false, none)
  | block_addr :: rest =>
    match (m.entry block_addr).m_list with
    | [] => (m.require false, none)
    | [mf] =>
      ({ m with
          m_data := m.m_data.erase block_addr
          m_current_response := rest
          history := .freed block_addr :: .returned block_addr mf :: m.history }, some mf)
    | mf :: mfs =>
      ({ m with
          m_data := m.m_data.alter block_addr {} fun e => { e with m_list := mfs }
          history := .returned block_addr mf :: m.history }, some mf)

end MshrTable

/-! ## The cache -/

inductive CacheEvent
  | WRITE_BACK_REQUEST_SENT (evicted : EvictedBlockInfo)
  | READ_REQUEST_SENT
  | WRITE_REQUEST_SENT
  | WRITE_ALLOCATE_SENT
  deriving DecidableEq

/-- `extra_mf_fields`, with the fetch that is its key in the map. -/
structure ExtraMfFields where
  mf : MemFetch
  m_block_addr : Nat
  m_addr : Nat
  m_cache_index : Nat
  m_data_size : Nat
  pending_read : Nat
  deriving DecidableEq

structure Cache where
  tags : TagArray := {}
  m_mshrs : MshrTable := {}
  m_miss_queue : List MemFetch := []
  m_extra_mf_fields : List ExtraMfFields := []
  /-- The events of the last access. -/
  events : List CacheEvent := []
  /-- The number of the next `mem_fetch` that the cache makes. -/
  next_mf : Nat := 0
  /-- An assertion of the cache itself failed. -/
  aborted : Bool := false

namespace Cache

/-- `assert(b)` -/
def require (c : Cache) (b : Bool) : Cache := { c with aborted := c.aborted || !b }

def hasAborted (c : Cache) : Bool := c.aborted || c.tags.aborted || c.m_mshrs.aborted

end Cache

def miss_queue_full (c : Cache) (num_miss : Nat) : Bool :=
  decide (cfg.m_miss_queue_size ≤ c.m_miss_queue.length + num_miss)

/-- `send_write_request` -/
def send_write_request (c : Cache) (mf : MemFetch) (request : CacheEvent) : Cache :=
  { c with events := c.events ++ [request], m_miss_queue := c.m_miss_queue ++ [mf] }

/-- What `send_read_request` and its reference parameters give back. -/
structure ReadSent where
  cache : Cache
  do_miss : Bool
  evicted : Option EvictedBlockInfo := none

/-- `m_tag_array->access` without `wb`, which asserts that nothing dirty is evicted. -/
def accessClean (c : Cache) (addr time : Nat) (mf : MemFetch) : Cache × Probe :=
  let a := access cfg c.tags (cfg.block_addr addr) time mf
  ({ c with tags := a.tags.require a.evicted.isNone }, a.status)

/-- The line that an access left in `cache_index`. -/
def Probe.index (p : Probe) (cache_index : Nat) : Nat :=
  match p with
  | .HIT idx | .HIT_RESERVED idx | .MISS idx | .SECTOR_MISS idx => idx
  | .RESERVATION_FAIL | .aborts => cache_index

/-- `send_read_request`. While the request is below, the fetch has the address
and the size of the request; the fields of the fetch are kept aside. -/
def send_read_request (c : Cache) (addr cache_index : Nat) (mf : MemFetch) (time : Nat)
    (read_only wa : Bool) : ReadSent :=
  let mshr_addr := cfg.mshr_addr mf.addr
  let mshr_hit := c.m_mshrs.probe mshr_addr
  let mshr_avail := !c.m_mshrs.full cfg mshr_addr
  let a := access cfg c.tags (cfg.block_addr addr) time mf
  let tags := if read_only then a.tags.require a.evicted.isNone else a.tags
  if mshr_hit && mshr_avail then
    { cache := { c with tags := tags, m_mshrs := c.m_mshrs.add cfg mshr_addr mf }
      do_miss := true
      evicted := a.evicted }
  else if !mshr_hit && mshr_avail && decide (c.m_miss_queue.length < cfg.m_miss_queue_size) then
    { cache :=
        { c with
          tags := tags
          m_mshrs := c.m_mshrs.add cfg mshr_addr mf
          m_extra_mf_fields := c.m_extra_mf_fields ++
            [{ mf := mf
               m_block_addr := mshr_addr
               m_addr := mf.addr
               m_cache_index := a.status.index cache_index
               m_data_size := mf.data_size
               pending_read :=
                match cfg.m_mshr_type with
                | .SECTOR_ASSOC => cfg.m_line_sz / SECTOR_SIZE
                | .ASSOC => 0 }]
          m_miss_queue := c.m_miss_queue ++
            [{ mf with addr := mshr_addr, data_size := cfg.m_atom_sz }]
          events := if wa then c.events else c.events ++ [.READ_REQUEST_SENT] }
      do_miss := true
      evicted := a.evicted }
  else { cache := c.require (!mshr_avail), do_miss := false }

/-- The write-back of an evicted block, under any policy but write-through. -/
def writeBack (c : Cache) (evicted : Option EvictedBlockInfo) : Cache :=
  match evicted with
  | none => c
  | some e =>
    if cfg.m_write_policy = .WRITE_THROUGH then c
    else
      send_write_request { c with next_mf := c.next_mf + 1 }
        { serial := c.next_mf, made_here := true, addr := e.m_block_addr,
          data_size := e.m_modified_size, type := cfg.m_wrbk_type, is_write := true,
          isatomic := false, sector_mask := e.m_sector_mask, byte_mask := e.m_byte_mask }
        (.WRITE_BACK_REQUEST_SENT e)

/-- The end of a miss: MISS with its write-back, or RESERVATION_FAIL. -/
def finishMiss (c : Cache) (do_miss : Bool) (evicted : Option EvictedBlockInfo) :
    Cache × CacheRequestStatus :=
  if do_miss then (writeBack cfg c evicted, .MISS) else (c, .RESERVATION_FAIL)

def updateLine (c : Cache) (idx : Nat) (f : CacheBlock → CacheBlock) : Cache :=
  { c with tags := c.tags.updateLine idx f }

/-- `update_m_readable`, on the block. -/
def update_m_readable (ct : CacheType) (mask : BitVec 4) (b : CacheBlock) : CacheBlock :=
  if (List.range SECTOR_CHUNCK_SIZE).any (fun i => mask.getLsbD i &&
      (List.range SECTOR_SIZE).all fun k => b.m_dirty_byte_mask.getLsbD (i * SECTOR_SIZE + k)) then
    b.set_m_readable true (get_sector_index ct mask)
  else b

/-- "mark line as dirty" on a line of the cache. -/
def writeSector (c : Cache) (mf : MemFetch) (idx : Nat) : Cache :=
  { c with
    tags := markModified cfg c.tags (get_sector_index cfg.m_cache_type mf.sector_mask) mf.byte_mask idx }

/-! ## Write hits -/

def wr_hit_wb (c : Cache) (addr : Nat) (mf : MemFetch) (time cache_index : Nat) :
    Cache × CacheRequestStatus :=
  let a := accessClean cfg c addr time mf
  let idx := a.2.index cache_index
  (updateLine (writeSector cfg a.1 mf idx) idx
    (update_m_readable cfg.m_cache_type mf.sector_mask), .HIT)

def wr_hit_wt (c : Cache) (addr : Nat) (mf : MemFetch) (time cache_index : Nat) :
    Cache × CacheRequestStatus :=
  if miss_queue_full cfg c 0 then (c, .RESERVATION_FAIL)
  else (send_write_request (wr_hit_wb cfg c addr mf time cache_index).1 mf .WRITE_REQUEST_SENT, .HIT)

def wr_hit_we (c : Cache) (mf : MemFetch) (cache_index : Nat) : Cache × CacheRequestStatus :=
  if miss_queue_full cfg c 0 then (c, .RESERVATION_FAIL)
  else
    (updateLine (send_write_request c mf .WRITE_REQUEST_SENT) cache_index fun b =>
      b.set_status .INVALID (get_sector_index cfg.m_cache_type mf.sector_mask), .HIT)

def wr_hit_global_we_local_wb (c : Cache) (addr : Nat) (mf : MemFetch) (time cache_index : Nat) :
    Cache × CacheRequestStatus :=
  if mf.type = .GLOBAL_ACC_W then wr_hit_we cfg c mf cache_index
  else wr_hit_wb cfg c addr mf time cache_index

def m_wr_hit (c : Cache) (addr : Nat) (mf : MemFetch) (time cache_index : Nat) :
    Cache × CacheRequestStatus :=
  match cfg.m_write_policy with
  | .READ_ONLY => (c.require false, .RESERVATION_FAIL)
  | .WRITE_BACK => wr_hit_wb cfg c addr mf time cache_index
  | .WRITE_THROUGH => wr_hit_wt cfg c addr mf time cache_index
  | .WRITE_EVICT => wr_hit_we cfg c mf cache_index
  | .LOCAL_WB_GLOBAL_WT => wr_hit_global_we_local_wb cfg c addr mf time cache_index

/-! ## Write misses -/

/-- Neither the miss queue nor the MSHRs refuse a read for the fetch, with room
for so many other requests. -/
def missRefused (c : Cache) (mf : MemFetch) (num_miss : Nat) : Bool :=
  let mshr_addr := cfg.mshr_addr mf.addr
  let mshr_hit := c.m_mshrs.probe mshr_addr
  let mshr_avail := !c.m_mshrs.full cfg mshr_addr
  miss_queue_full cfg c num_miss ||
    (!(mshr_hit && mshr_avail) &&
      !(!mshr_hit && mshr_avail && decide (c.m_miss_queue.length < cfg.m_miss_queue_size)))

/-- The read that is sent for a write miss. -/
def allocateFetch (c : Cache) (mf : MemFetch) : MemFetch :=
  { mf with
    serial := c.next_mf
    made_here := true
    type := cfg.m_wr_alloc_type
    data_size := cfg.m_atom_sz
    is_write := false
    isatomic := false }

def wr_miss_wa_naive (c : Cache) (addr : Nat) (mf : MemFetch) (time cache_index : Nat) :
    Cache × CacheRequestStatus :=
  if missRefused cfg c mf 2 then (c, .RESERVATION_FAIL)
  else
    let c := send_write_request c mf .WRITE_REQUEST_SENT
    let r := send_read_request cfg { c with next_mf := c.next_mf + 1 } addr cache_index
      (allocateFetch cfg c mf) time false true
    finishMiss cfg { r.cache with events := r.cache.events ++ [.WRITE_ALLOCATE_SENT] }
      r.do_miss r.evicted

/-- The number of bytes that the fetch writes is that of a sector or line. -/
def writesAll (mf : MemFetch) : Bool :=
  decide (((List.range 128).countP fun k => mf.byte_mask.getLsbD k) = cfg.m_atom_sz)

/-- A write that allocates its sector without a fetch, in the tag array. The
access must not hit. -/
def allocateWritten (c : Cache) (addr : Nat) (mf : MemFetch) (time cache_index : Nat) :
    Cache × Accessed :=
  let a := access cfg c.tags (cfg.block_addr addr) time mf
  let idx := a.status.index cache_index
  let noHit := match a.status with
    | .HIT _ => false
    | _ => true
  (writeSector cfg ({ c with tags := a.tags }.require noHit) mf idx, a)

def wr_miss_wa_fetch_on_write (c : Cache) (addr : Nat) (mf : MemFetch) (time cache_index : Nat) :
    Cache × CacheRequestStatus :=
  if writesAll cfg mf then
    if miss_queue_full cfg c 0 then (c, .RESERVATION_FAIL)
    else
      let w := allocateWritten cfg c addr mf time cache_index
      finishMiss cfg w.1 (decide (w.2.status ≠ .RESERVATION_FAIL)) w.2.evicted
  else if missRefused cfg c mf 1 then (c, .RESERVATION_FAIL)
  else if c.m_mshrs.probe (cfg.mshr_addr mf.addr) &&
      c.m_mshrs.is_read_after_write_pending (cfg.mshr_addr mf.addr) && mf.is_write then
    (c, .RESERVATION_FAIL)
  else
    let r := send_read_request cfg { c with next_mf := c.next_mf + 1 } addr cache_index
      (allocateFetch cfg c mf) time false true
    let c := updateLine r.cache cache_index fun b =>
      (b.set_modified_on_fill true
        (get_sector_index cfg.m_cache_type mf.sector_mask)).set_byte_mask_on_fill true
    finishMiss cfg { c with events := c.events ++ [.WRITE_ALLOCATE_SENT] } r.do_miss r.evicted

/-- How the lazy policy leaves a block that it wrote to. -/
def lazyBlock (mf : MemFetch) (reserved : Bool) (b : CacheBlock) : CacheBlock :=
  let i := get_sector_index cfg.m_cache_type mf.sector_mask
  let b := if reserved then (b.set_modified_on_fill true i).set_byte_mask_on_fill true else b
  let b := b.set_m_readable (writesAll cfg mf) i
  let b := if !writesAll cfg mf && reserved then b.set_readable_on_fill true i else b
  update_m_readable cfg.m_cache_type mf.sector_mask b

def wr_miss_wa_lazy_fetch_on_read (c : Cache) (addr : Nat) (mf : MemFetch)
    (time cache_index : Nat) : Cache × CacheRequestStatus :=
  if miss_queue_full cfg c 0 then (c, .RESERVATION_FAIL)
  else
    let c :=
      if cfg.m_write_policy = .WRITE_THROUGH then send_write_request c mf .WRITE_REQUEST_SENT
      else c
    let w := allocateWritten cfg c addr mf time cache_index
    let reserved := match w.2.status with
      | .HIT_RESERVED _ => true
      | _ => false
    finishMiss cfg (updateLine w.1 (w.2.status.index cache_index) (lazyBlock cfg mf reserved))
      (decide (w.2.status ≠ .RESERVATION_FAIL)) w.2.evicted

def wr_miss_no_wa (c : Cache) (mf : MemFetch) : Cache × CacheRequestStatus :=
  if miss_queue_full cfg c 0 then (c, .RESERVATION_FAIL)
  else (send_write_request c mf .WRITE_REQUEST_SENT, .MISS)

def m_wr_miss (c : Cache) (addr : Nat) (mf : MemFetch) (time cache_index : Nat) :
    Cache × CacheRequestStatus :=
  match cfg.m_write_alloc_policy with
  | .NO_WRITE_ALLOCATE => wr_miss_no_wa cfg c mf
  | .WRITE_ALLOCATE => wr_miss_wa_naive cfg c addr mf time cache_index
  | .FETCH_ON_WRITE => wr_miss_wa_fetch_on_write cfg c addr mf time cache_index
  | .LAZY_FETCH_ON_READ => wr_miss_wa_lazy_fetch_on_read cfg c addr mf time cache_index

/-! ## Reads -/

def rd_hit_base (c : Cache) (addr : Nat) (mf : MemFetch) (time cache_index : Nat) :
    Cache × CacheRequestStatus :=
  let a := accessClean cfg c addr time mf
  (if mf.isatomic then
    writeSector cfg (a.1.require (decide (mf.type = .GLOBAL_ACC_R))) mf (a.2.index cache_index)
   else a.1, .HIT)

def rd_miss_base (c : Cache) (addr : Nat) (mf : MemFetch) (time cache_index : Nat) :
    Cache × CacheRequestStatus :=
  if miss_queue_full cfg c 1 then (c, .RESERVATION_FAIL)
  else
    let r := send_read_request cfg c addr cache_index mf time false false
    finishMiss cfg r.cache r.do_miss r.evicted

/-! ## Accesses -/

/-- `process_tag_probe` -/
def process_tag_probe (c : Cache) (wr : Bool) (p : Probe) (addr : Nat) (mf : MemFetch)
    (time : Nat) : Cache × CacheRequestStatus :=
  match p with
  | .HIT idx => if wr then m_wr_hit cfg c addr mf time idx else rd_hit_base cfg c addr mf time idx
  | .HIT_RESERVED idx | .MISS idx | .SECTOR_MISS idx =>
    if wr then m_wr_miss cfg c addr mf time idx else rd_miss_base cfg c addr mf time idx
  | .RESERVATION_FAIL =>
    if wr && decide (cfg.m_write_alloc_policy = .NO_WRITE_ALLOCATE) then wr_miss_no_wa cfg c mf
    else (c, .RESERVATION_FAIL)
  | .aborts => (c.require false, .RESERVATION_FAIL)

/-- `data_cache::access` -/
def data_cache_access (c : Cache) (addr : Nat) (mf : MemFetch) (time : Nat) :
    Cache × CacheRequestStatus :=
  process_tag_probe cfg ({ c with events := [] }.require (decide (mf.data_size ≤ cfg.m_atom_sz)))
    mf.is_write (probe cfg c.tags (cfg.block_addr addr) mf.sector_mask mf.is_write) addr mf time

/-- `read_only_cache::access` -/
def read_only_cache_access (c : Cache) (addr : Nat) (mf : MemFetch) (time : Nat) :
    Cache × CacheRequestStatus :=
  let p := probe cfg c.tags (cfg.block_addr addr) mf.sector_mask mf.is_write
  let c := { c with events := [] }.require
    (decide (mf.data_size ≤ cfg.m_atom_sz) && !mf.is_write)
  match p with
  | .HIT _ => ((accessClean cfg c addr time mf).1, .HIT)
  | .HIT_RESERVED idx | .MISS idx | .SECTOR_MISS idx =>
    if miss_queue_full cfg c 0 then (c, .RESERVATION_FAIL)
    else
      let r := send_read_request cfg c addr idx mf time true false
      (r.cache, if r.do_miss then .MISS else .RESERVATION_FAIL)
  | .RESERVATION_FAIL => (c, .RESERVATION_FAIL)
  | .aborts => (c.require false, .RESERVATION_FAIL)

/-- A configuration that is READ_ONLY is that of a `read_only_cache`. -/
def cacheAccess (c : Cache) (addr : Nat) (mf : MemFetch) (time : Nat) :
    Cache × CacheRequestStatus :=
  if cfg.m_write_policy = .READ_ONLY then read_only_cache_access cfg c addr mf time
  else data_cache_access cfg c addr mf time

/-! ## Fills -/

/-- `waiting_for_fill` -/
def waiting_for_fill (c : Cache) (made_here : Bool) (serial : Nat) : Option ExtraMfFields :=
  c.m_extra_mf_fields.find? fun e => decide (e.mf.made_here = made_here ∧ e.mf.serial = serial)

/-- `baseline_cache::fill`, once all parts of the fetch came back. -/
def fillDone (c : Cache) (e : ExtraMfFields) (time : Nat) : Cache :=
  let mf := e.mf
  let tags :=
    match cfg.m_alloc_policy with
    | .ON_MISS => fillIndex cfg c.tags e.m_cache_index mf.sector_mask mf.byte_mask
    | .ON_FILL => fillAddr cfg c.tags e.m_block_addr time mf.sector_mask mf.byte_mask mf.is_write
  let ready := c.m_mshrs.mark_ready e.m_block_addr
  let c := { c with
    tags := tags
    m_mshrs := ready.1
    m_extra_mf_fields := c.m_extra_mf_fields.erase e }
  if ready.2 then
    writeSector cfg (c.require (decide (cfg.m_alloc_policy = .ON_MISS))) mf e.m_cache_index
  else c

/-- `baseline_cache::fill` for the reply of a fetch, or of one part of it where the
cache below has sectors. -/
def baseline_cache_fill (c : Cache) (made_here : Bool) (serial time : Nat) : Cache :=
  match waiting_for_fill c made_here serial with
  | none => c.require false
  | some e =>
    match cfg.m_mshr_type with
    | .ASSOC => fillDone cfg c e time
    | .SECTOR_ASSOC =>
      -- the counter is an `unsigned`
      let left := if e.pending_read = 0 then UNSIGNED_MAX else e.pending_read - 1
      if 0 < left then
        { c with
          m_extra_mf_fields := c.m_extra_mf_fields.map fun x =>
            if x = e then { e with pending_read := left } else x }
      else fillDone cfg c e time

/-- `baseline_cache::cycle`: the miss queue sends, where the port below takes it. -/
def baseline_cache_cycle (c : Cache) (full : Bool) : Cache :=
  if full then c else { c with m_miss_queue := c.m_miss_queue.tail }

/-! ## Runs -/

inductive CacheAction
  | access (mf : MemFetch) (time : Nat)
  | fill (made_here : Bool) (serial time : Nat)
  | next_access
  | cycle (full : Bool)
  | flush
  | invalidate
  | invalidate_line (lineaddr : Nat)
  | force_tag_access (addr time : Nat) (mask : BitVec 4)

/-- A fetch comes from above, and only once it is no longer below. -/
def canHappen (c : Cache) : CacheAction → Bool
  | .access mf _ => !mf.made_here && (waiting_for_fill c false mf.serial).isNone
  | _ => true

def happens (c : Cache) : CacheAction → Cache
  | .access mf time => (cacheAccess cfg c mf.addr mf time).1
  | .fill made_here serial time => baseline_cache_fill cfg c made_here serial time
  | .next_access => { c with m_mshrs := c.m_mshrs.next_access.1 }
  | .cycle full => baseline_cache_cycle c full
  | .flush => { c with tags := flush cfg c.tags }
  | .invalidate => { c with tags := invalidate cfg c.tags }
  | .invalidate_line lineaddr => { c with tags := (invalidateAddr cfg c.tags lineaddr).1 }
  | .force_tag_access addr time mask => { c with tags := fillAddr cfg c.tags addr time mask 0 true }

/-- One step. A step that aborts the simulator leads nowhere. -/
def cacheStep (c : Cache) (a : CacheAction) : Option Cache :=
  if canHappen c a then
    let c' := happens cfg c a
    if c'.hasAborted then none else some c'
  else none

/-- One step that meets a condition on the state before it. -/
def CacheNext (ok : Cache → CacheAction → Bool) (c c' : Cache) : Prop :=
  ∃ a, ok c a = true ∧ cacheStep cfg c a = some c'

/-- The states of all runs whose steps meet the condition. -/
def CacheReach (ok : Cache → CacheAction → Bool) : Cache → Prop :=
  monitor.Reach {} (CacheNext cfg ok)

/-- Every action is fine. -/
def anyAction (_ : Cache) (_ : CacheAction) : Bool := true

/-- A run whose steps meet the condition. -/
def cacheRun (ok : Cache → CacheAction → Bool) (c : Cache) : List CacheAction → Option Cache
  | [] => some c
  | a :: as => if ok c a then (cacheStep cfg c a).bind fun c => cacheRun ok c as else none

theorem cacheReach_run {ok : Cache → CacheAction → Bool} {c c' : Cache} {as : List CacheAction}
    (hc : CacheReach cfg ok c) (h : cacheRun cfg ok c as = some c') : CacheReach cfg ok c' := by
  induction as generalizing c with
  | nil =>
    cases h
    exact hc
  | cons a as ih =>
    simp only [cacheRun] at h
    split at h
    · rename_i hok
      obtain ⟨c1, h1, h2⟩ := Option.bind_eq_some_iff.mp h
      exact ih (hc.step ⟨a, hok, h1⟩) h2
    · cases h

/-- The state behind a run from the start, or the start where it does not get through. -/
def cacheAfter (ok : Cache → CacheAction → Bool) (as : List CacheAction) : Cache :=
  (cacheRun cfg ok {} as).getD {}

theorem cacheReach_after (ok : Cache → CacheAction → Bool) (as : List CacheAction) :
    CacheReach cfg ok (cacheAfter cfg ok as) := by
  unfold cacheAfter
  cases h : cacheRun cfg ok {} as with
  | none => exact .start
  | some c => exact cacheReach_run cfg .start h

/-- A step is an action that can happen and does not abort. -/
theorem cacheStep_eq_some {c c' : Cache} {a : CacheAction} (h : cacheStep cfg c a = some c') :
    canHappen c a = true ∧ c' = happens cfg c a ∧ c'.hasAborted = false := by
  simp only [cacheStep] at h
  split at h
  · rename_i hcan
    split at h
    · cases h
    · rename_i hab
      cases h
      exact ⟨hcan, rfl, Bool.eq_false_iff.mpr hab⟩
  · cases h

end gpgpu_sim_uvm.gpu_cache
