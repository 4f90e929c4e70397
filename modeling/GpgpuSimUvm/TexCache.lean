-- The texture cache (`tex_cache` of gpu-cache.h and gpu-cache.cc): the tags run ahead of
-- the lines, and a queue of fragments and a reorder buffer put the results in order.
import GpgpuSimUvm.DataCache
import GpgpuSimUvm.Rings

namespace gpgpu_sim_uvm.gpu_cache

/-! ## The queues of the cache -/

/-- `fifo`. A cell that was never written is none. -/
structure Fifo (T : Type) where
  m_head : Nat := 0
  m_tail : Nat := 0
  m_num : Nat := 0
  m_size : Nat
  m_data : Nat → Option T := fun _ => none

namespace Fifo

variable {T : Type}

def full (f : Fifo T) : Bool := decide (f.m_num = f.m_size)

def empty (f : Fifo T) : Bool := decide (f.m_num = 0)

/-- The queue and the cell that is written. None is a failed assertion, here and
in what follows. -/
def push (f : Fifo T) (e : T) : Option (Fifo T × Nat) :=
  if f.full then none
  else
    some ({ f with
      m_data := Function.update f.m_data f.m_head (some e)
      m_head := (f.m_head + 1) % f.m_size
      m_num := f.m_num + 1 }, f.m_head)

def pop (f : Fifo T) : Option (T × Fifo T) :=
  if f.empty then none
  else
    (f.m_data f.m_tail).map fun result =>
      (result, { f with m_tail := (f.m_tail + 1) % f.m_size, m_num := f.m_num - 1 })

def peek (f : Fifo T) : Option T := f.m_data f.m_tail

/-- `peek` of a cell. -/
def peekAt (f : Fifo T) (index : Nat) : Option T :=
  if index < f.m_size then f.m_data index else none

def next_pop_index (f : Fifo T) : Nat := f.m_tail

/-- What is written through the reference that `peek` of a cell gives. -/
def write (f : Fifo T) (index : Nat) (e : T) : Fifo T :=
  { f with m_data := Function.update f.m_data index (some e) }

/-- The elements, the oldest first. -/
def contents (f : Fifo T) : List T := rings.cells f.m_data f.m_size f.m_tail f.m_num

end Fifo

/-! ## The cache -/

inductive TexMshrType
  | TEX_FIFO | SECTOR_TEX_FIFO
  deriving DecidableEq, Repr

/-- `cache_config` as a texture cache reads it. The sizes of its queues share their
memory with those of the MSHRs and of the miss queue. -/
structure TexConfig extends CacheConfig where
  tex_mshr_type : TexMshrType
  m_result_fifo_entries : Nat
  -- the assertions of the constructor
  read_only : m_write_policy = .READ_ONLY
  on_miss : m_alloc_policy = .ON_MISS

namespace TexConfig

variable (cfg : TexConfig)

def m_fragment_fifo_entries : Nat := cfg.m_mshr_entries

def m_request_fifo_entries : Nat := cfg.m_mshr_max_merge

def m_rob_entries : Nat := cfg.m_miss_queue_size

end TexConfig

structure FragmentEntry where
  m_request : MemFetch
  m_cache_index : Nat
  m_miss : Bool
  m_data_size : Nat

structure RobEntry where
  m_ready : Bool := false
  m_time : Nat := 0
  m_index : Nat
  m_request : MemFetch
  m_block_addr : Nat

/-- A line. Its block is read where it is valid only. -/
structure DataBlock where
  m_valid : Bool := false
  m_block_addr : Nat := 0
  deriving DecidableEq

/-- `extra_mf_fields` of a texture cache. -/
structure TexMfFields where
  m_valid : Bool := false
  m_rob_index : Nat := 0
  pending_read : Nat := 0

/-- `pending_read--`, of an `unsigned`. -/
def TexMfFields.dec_pending_read (e : TexMfFields) : TexMfFields :=
  { e with pending_read := if e.pending_read = 0 then UNSIGNED_MAX else e.pending_read - 1 }

structure TexCache where
  m_tags : TagArray := {}
  m_fragment_fifo : Fifo FragmentEntry
  m_request_fifo : Fifo MemFetch
  m_rob : Fifo RobEntry
  m_cache : Nat → DataBlock := fun _ => {}
  m_result_fifo : Fifo MemFetch
  /-- By the number of the fetch. -/
  m_extra_mf_fields : StdMap Nat TexMfFields := .empty

variable (cfg : TexConfig)

/-- `tex_cache::tex_cache` -/
def TexCache.new : TexCache where
  m_fragment_fifo := { m_size := cfg.m_fragment_fifo_entries }
  m_request_fifo := { m_size := cfg.m_request_fifo_entries }
  m_rob := { m_size := cfg.m_rob_entries }
  m_result_fifo := { m_size := cfg.m_result_fifo_entries }

namespace TexCache

variable (c : TexCache)

/-- What a hit and a miss come to behind the tags. -/
def accept (mf : MemFetch) (cache_index : Nat) (m_miss : Bool) : Option TexCache :=
  (c.m_fragment_fifo.push
      { m_request := mf
        m_cache_index := cache_index
        m_miss := m_miss
        m_data_size := mf.data_size }).map fun (fragments, _) =>
    { c with m_fragment_fifo := fragments }

/-- The request of a miss. The line is filled at once in the tags. -/
def sendMiss (block_addr : Nat) (mf : MemFetch) (cache_index : Nat) : Option TexCache :=
  (c.m_rob.push { m_index := cache_index, m_request := mf, m_block_addr := block_addr }).bind
    fun (rob, rob_index) =>
      (c.m_request_fifo.push mf).map fun (requests, _) =>
        { c with
          m_tags := fillIndex cfg.toCacheConfig c.m_tags cache_index mf.sector_mask mf.byte_mask
          m_rob := rob
          m_request_fifo := requests
          m_extra_mf_fields := c.m_extra_mf_fields.alter mf.serial {} fun _ =>
            { m_valid := true
              m_rob_index := rob_index
              pending_read :=
                match cfg.tex_mshr_type with
                | .SECTOR_TEX_FIFO => cfg.m_line_sz / SECTOR_SIZE
                | .TEX_FIFO => 0 } }

/-- The status and the events of an access, with the cache after it. -/
structure Access where
  status : CacheRequestStatus
  events : List CacheEvent := []
  cache : TexCache

/-- `tex_cache::access`. A miss sets the size of the fetch, which the queues point to. -/
def access (addr : Nat) (mf : MemFetch) (time : Nat) : Option Access :=
  if c.m_fragment_fifo.full || c.m_request_fifo.full || c.m_rob.full then
    some { status := .RESERVATION_FAIL, cache := c }
  else if cfg.m_line_sz < mf.data_size then none
  else
    let block_addr := cfg.block_addr addr
    let a := gpu_cache.access cfg.toCacheConfig c.m_tags block_addr time mf
    let c := { c with m_tags := a.tags.require a.evicted.isNone }
    match a.status with
    | .MISS cache_index =>
      let mf := { mf with data_size := cfg.m_line_sz }
      (c.accept mf cache_index true).bind fun c =>
        (c.sendMiss cfg block_addr mf cache_index).map fun c =>
          { status := .MISS, events := [.READ_REQUEST_SENT], cache := c }
    | .HIT cache_index | .SECTOR_MISS cache_index =>
      (c.accept mf cache_index false).map fun c => { status := .HIT_RESERVED, cache := c }
    | .HIT_RESERVED _ | .RESERVATION_FAIL | .aborts => none

/-- The first part of `cycle`, with the request that goes to the memory port. -/
def sendRequest (port_full : Bool) : Option (TexCache × Option MemFetch) :=
  if c.m_request_fifo.empty || port_full then some (c, none)
  else c.m_request_fifo.pop.map fun (mf, requests) =>
    ({ c with m_request_fifo := requests }, some mf)

/-- The oldest fragment goes to the results. -/
def finish (e : FragmentEntry) : Option TexCache :=
  (c.m_result_fifo.push e.m_request).bind fun (results, _) =>
    c.m_fragment_fifo.pop.map fun (_, fragments) =>
      { c with m_result_fifo := results, m_fragment_fifo := fragments }

/-- The oldest fragment is a miss. -/
def readMiss (e : FragmentEntry) : Option TexCache :=
  (c.m_rob.peekAt c.m_rob.next_pop_index).bind fun r =>
    if r.m_request.serial ≠ e.m_request.serial then none
    else if r.m_ready then
      if r.m_index ≠ e.m_cache_index then none
      else
        c.m_rob.pop.bind fun (_, rob) =>
          { c with
            m_cache := Function.update c.m_cache r.m_index
              { m_valid := true, m_block_addr := r.m_block_addr }
            m_rob := rob }.finish e
    else some c

/-- The oldest fragment is a hit. -/
def readHit (e : FragmentEntry) : Option TexCache :=
  if (c.m_cache e.m_cache_index).m_valid ∧
      (c.m_cache e.m_cache_index).m_block_addr = cfg.block_addr e.m_request.addr then c.finish e
  else none

/-- The second part of `cycle`. -/
def readReady : Option TexCache :=
  if c.m_fragment_fifo.empty || c.m_result_fifo.full then some c
  else
    c.m_fragment_fifo.peek.bind fun e => if e.m_miss then c.readMiss e else c.readHit cfg e

/-- `tex_cache::cycle` -/
def cycle (port_full : Bool) : Option (TexCache × Option MemFetch) :=
  (c.sendRequest port_full).bind fun (c, sent) =>
    (c.readReady cfg).map fun c => (c, sent)

/-- The part of `fill` that marks the entry of the reorder buffer. -/
def fillRob (mf : MemFetch) (time : Nat) : Option TexCache :=
  (c.m_extra_mf_fields.find mf.serial).bind fun e =>
    if e.m_valid = false ∨ c.m_rob.empty then none
    else
      (c.m_rob.peekAt e.m_rob_index).bind fun r =>
        if r.m_ready ∨ r.m_block_addr ≠ cfg.block_addr mf.addr then none
        else
          some { c with
            m_rob := c.m_rob.write e.m_rob_index { r with m_ready := true, m_time := time } }

/-- `tex_cache::fill`. Where the lower level has sectors, each reply carries the
fetch that it is a part of. -/
def fill (mf : MemFetch) (original_mf : Option MemFetch) (time : Nat) : Option TexCache :=
  match cfg.tex_mshr_type with
  | .TEX_FIFO => c.fillRob cfg mf time
  | .SECTOR_TEX_FIFO =>
    original_mf.bind fun mf =>
      (c.m_extra_mf_fields.find mf.serial).bind fun e =>
        let c := { c with
          m_extra_mf_fields :=
            c.m_extra_mf_fields.alter mf.serial e fun e => e.dec_pending_read }
        if 0 < e.dec_pending_read.pending_read then some c
        else c.fillRob cfg mf time

def access_ready : Bool := !c.m_result_fifo.empty

def next_access : Option (MemFetch × TexCache) :=
  c.m_result_fifo.pop.map fun (mf, results) => (mf, { c with m_result_fifo := results })

end TexCache

end gpgpu_sim_uvm.gpu_cache
