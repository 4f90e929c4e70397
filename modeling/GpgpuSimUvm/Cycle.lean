-- `gmmu_t::cycle`, one definition for each of its parts, in the order in
-- which a cycle runs them.
import GpgpuSimUvm.Prefetch

namespace gpgpu_sim_uvm

variable (cfg : Config)

def pages_in_flight (t : Option PcieLatency) : Nat := t.elim 0 fun t => t.page_list.length

/-- The check at the start of a cycle, which stages evictions. -/
def eviction_check (g : Gpu) : Gpu :=
  let num_read_stage_queue := num_pages g.pcie_read_stage_queue
  let num_write_stage_queue :=
    num_pages g.pcie_write_stage_queue + pages_in_flight g.pcie_write_latency_queue
  if should_evict_page cfg g num_read_stage_queue num_write_stage_queue then
    page_eviction_procedure cfg ((detectPattern cfg g).log (.evicting (unguarded cfg g)))
  else g

/-! ## The write queues -/

def isReady (g : Gpu) (t : Option PcieLatency) : Bool :=
  t.any fun t => decide (t.ready_cycle ≤ g.sim_cycle)

def write_back_done (g : Gpu) : Gpu :=
  let done := isReady g g.pcie_write_latency_queue
  { g with
    host :=
      if done then
        ((g.pcie_write_latency_queue.elim [] PcieLatency.page_list).map cfg.get_mem_addr).foldl
          (gpu_writeback cfg g) g.host
      else g.host
    pcie_write_latency_queue := if done then none else g.pcie_write_latency_queue }

/-- `tlb_flush` on every load/store unit, page by page. -/
def tlb_flush (ldst : Nat → Ldst) (pages : List Nat) : Nat → Ldst :=
  fun s => { ldst s with tlb := (ldst s).tlb.filter fun p => decide (p ∉ pages) }

/-- A write-back of clean pages that needs no transfer. -/
def isDropped (t : PcieLatency) : Bool := decide (t.type = .INVALIDATE) && cfg.invalidate_clean

/-- A reply for the page is on its way: pushed back and not taken yet, or with a
prefetch request that waits for the page no more. Those served by DMA apart. -/
def isExpected (g : Gpu) (p : Nat) : Bool :=
  let isFor := fun mf : MemFetch => decide (cfg.get_page_num mf.access.addr = p)
  g.replayed.any (fun r =>
    isFor r.1 && !decide (r.1 ∈ g.m_dma) && !decide (r.1 ∈ (g.ldst r.1.sid).taken)) ||
  g.prefetch_req_buffer.any fun q =>
    !decide (p ∈ q.pending_prefetch) && q.outgoing_replayable_nacks.pooled.any isFor

/-- The pages of the transfer leave the GPU as soon as it is scheduled. -/
def startWriteBack (g : Gpu) (t : PcieLatency) (rest : List PcieLatency) : Gpu :=
  { g with
    m_data := t.page_list.foldl invalidate_page g.m_data
    num_free_pages := g.num_free_pages + t.page_list.length
    ldst := tlb_flush g.ldst t.page_list
    large_page_info :=
      Forest.inc_bb_round_trip g.large_page_info (cfg.get_mem_addr (t.page_list.headD 0))
    pcie_write_stage_queue := rest
    pcie_write_latency_queue :=
      if isDropped cfg t then none
      else some { t with
        ready_cycle := g.sim_cycle + cfg.transfer_cycles g.managedAllocations t.page_list }
    history :=
      .left_gpu (t.page_list.any (isExpected cfg g)) ::
        if isDropped cfg t then
          .write_back_dropped (t.page_list.any (is_page_dirty g)) :: g.history
        else g.history
    aborted := g.aborted || !t.page_list.all (is_mapped g) ||
      (Forest.get_lp_node g.large_page_info (cfg.get_mem_addr (t.page_list.headD 0))).isNone }

def write_back_schedule (g : Gpu) : Gpu :=
  match g.pcie_write_stage_queue, g.pcie_write_latency_queue with
  | t :: rest, none => startWriteBack cfg g t rest
  | _, _ => g

/-! ## The read queues -/

/-- The part of a read completion that belongs to the prefetch request in
front: its pages leave `pending_prefetch`, their fetches wait for the chunk. -/
def completePrefetched (g : Gpu) (p : Nat) : Gpu :=
  match g.prefetch_req_buffer with
  | [] => g
  | pre_q :: rest =>
    if p ∈ pre_q.pending_prefetch then
      { g with
        prefetch_req_buffer :=
          { pre_q with
            pending_prefetch := pre_q.pending_prefetch.erase p
            outgoing_replayable_nacks :=
              pre_q.outgoing_replayable_nacks.alter p [] (· ++ g.req_info.findD p []) } :: rest
        req_info := g.req_info.erase p }
    else g

/-- The fetches that wait in the MSHR for a page go back to their cores. -/
def completeFaulted (g : Gpu) (p : Nat) : Gpu :=
  let g' := (g.req_info.findD p []).foldl (replay cfg) g
  { g' with req_info := g'.req_info.erase p }

/-- The page becomes valid, and an eviction candidate. -/
def admitPage (g : Gpu) (p : Nat) : Gpu :=
  refresh_valid_pages cfg
    { g with
      m_data := validate_page g.m_data p
      stored_pages := g.stored_pages.filter fun q => decide (q ≠ p)
      aborted := g.aborted || !is_mapped g p } (cfg.get_mem_addr p)

/-- One page of a completed migration. -/
def completePage (g : Gpu) (p : Nat) : Gpu :=
  completeFaulted cfg (completePrefetched (admitPage cfg g p) p) p

def finishRead (g : Gpu) (t : PcieLatency) : Gpu :=
  match t.type with
  | .PCIE_READ => t.page_list.foldl (completePage cfg) g
  | .DMA => t.mf.elim g (replay cfg g)
  | _ => g

def read_done (g : Gpu) : Gpu :=
  match g.pcie_read_latency_queue with
  | none => g
  | some t =>
    if t.ready_cycle ≤ g.sim_cycle then
      { finishRead cfg g t with pcie_read_latency_queue := none }
    else g

/-- The transfer with its ready cycle. -/
def startRead (g : Gpu) (t : PcieLatency) : PcieLatency :=
  match t.type with
  | .PCIE_READ => { t with
      ready_cycle := g.sim_cycle + cfg.transfer_cycles g.managedAllocations t.page_list }
  | .PAGE_FAULT => { t with
      ready_cycle := g.sim_cycle + cfg.page_fault_latency * t.page_list.length }
  | .DMA => { t with ready_cycle := g.sim_cycle + 200 }
  | _ => t

/-- Schedules the first direct access of the queue, else the transfer in front,
once the frames for the transfer in front are there. -/
def read_schedule (g : Gpu) : Gpu :=
  match g.pcie_read_stage_queue, g.pcie_read_latency_queue with
  | front :: rest, none =>
    if front.page_list.length ≤ g.num_free_pages then
      let isDma := fun t : PcieLatency => decide (t.type = .DMA)
      let t := ((front :: rest).find? isDma).getD front
      { g with
        pcie_read_latency_queue := some (startRead cfg g t)
        pcie_read_stage_queue :=
          if (front :: rest).any isDma then (front :: rest).eraseP isDma else rest
        num_free_pages :=
          if t.type = .PCIE_READ then g.num_free_pages - t.page_list.length
          else g.num_free_pages
        aborted := g.aborted ||
          (decide (t.type = .PCIE_READ) && decide (g.num_free_pages < t.page_list.length)) }
    else g
  | _, _ => g

/-! ## The page table walk -/

/-- A faulting fetch that no MSHR entry and no prefetch request waits for. -/
def newFault (g : Gpu) (mf : MemFetch) (page : Nat) : Gpu :=
  let migrate :=
    should_cause_page_migration cfg g mf.access.addr (decide (mf.access.type = .GLOBAL_ACC_W))
  { g with
    pcie_read_stage_queue :=
      if migrate then g.pcie_read_stage_queue
      else g.pcie_read_stage_queue ++ [{ mf := some mf, type := .DMA }]
    page_fault_this_turn :=
      if migrate then g.page_fault_this_turn.alter page [] (· ++ [mf])
      else g.page_fault_this_turn
    m_dma := if migrate then g.m_dma else mf :: g.m_dma }

def PrefetchReq.covers (q : PrefetchReq) (addr : Nat) : Bool :=
  decide (q.start_addr ≤ addr ∧ addr < q.start_addr + q.size)

/-- Parks a fetch with the first request that covers its address. -/
def parkFetch (mf : MemFetch) (page : Nat) : List PrefetchReq → List PrefetchReq
  | [] => []
  | q :: qs =>
    if q.covers mf.access.addr then
      { q with
        incoming_replayable_nacks := q.incoming_replayable_nacks.alter page [] (· ++ [mf]) } :: qs
    else q :: parkFetch mf page qs

/-- A fetch whose page is not valid waits where the page is expected. -/
def fileFetch (g : Gpu) (mf : MemFetch) (page : Nat) : Gpu :=
  if g.req_info.contains page then
    { g with
      req_info := g.req_info.alter page [] (· ++ [mf])
      new_stats := g.new_stats.countPending (cfg.get_page_num mf.access.addr) }
  else if g.prefetch_req_buffer.any (fun q => q.covers mf.access.addr) then
    { g with
      prefetch_req_buffer := parkFetch mf page g.prefetch_req_buffer
      new_stats := g.new_stats.countPending (cfg.get_page_num mf.access.addr) }
  else newFault cfg g mf page

def popWalk (g : Gpu) (mf : MemFetch) : Gpu :=
  { g with
    page_table_walk_queue := g.page_table_walk_queue.tail
    new_stats := g.new_stats.countWalk (cfg.get_page_num mf.access.addr)
      (get_faulty_pages cfg g mf.access.addr mf.access.size).isEmpty
    aborted := g.aborted || !rangeMapped cfg g mf.access.addr mf.access.size ||
      decide (1 < (get_faulty_pages cfg g mf.access.addr mf.access.size).length) }

/-- The walk of one fetch. Its access lies in one page, so at most one page is
faulty, as the source asserts. -/
def walkFetch (g : Gpu) (mf : MemFetch) : Gpu :=
  match get_faulty_pages cfg g mf.access.addr mf.access.size with
  | [] =>
    replay cfg
      (check_write_stage_queue cfg (popWalk cfg g mf) (cfg.get_page_num mf.access.addr)) mf
  | page :: _ => fileFetch cfg (popWalk cfg g mf) mf page

def page_table_walk (g : Gpu) : Gpu :=
  ((g.page_table_walk_queue.takeWhile fun e => decide (e.2 ≤ g.sim_cycle)).map Prod.fst).foldl
    (walkFetch cfg) g

/-! ## The queues of the clusters -/

/-- Takes the fetch in front of one cluster's queue for a walk. -/
def fetchFrom (g : Gpu) (c : Nat) : Gpu :=
  match g.m_cu_gmmu_queue c with
  | [] => g
  | mf :: rest =>
    { g with
      page_table_walk_queue :=
        g.page_table_walk_queue ++ [(mf, g.sim_cycle + cfg.page_table_walk_latency)]
      m_cu_gmmu_queue := fun d => if d = c then rest else g.m_cu_gmmu_queue d
      walked := mf :: g.walked }

def fetch_from_clusters (g : Gpu) : Gpu :=
  (List.range cfg.n_simt_clusters).foldl (fetchFrom cfg) g

/-! ## The cycle -/

def gmmu_cycle (g : Gpu) : Gpu :=
  let g := eviction_check cfg g
  let g := write_back_done cfg g
  let g := write_back_schedule cfg g
  let g := read_done cfg g
  let g := read_schedule cfg g
  let g := page_table_walk cfg g
  let g := do_hardware_prefetch cfg g
  let g := fetch_from_clusters cfg g
  user_prefetch cfg g

end gpgpu_sim_uvm
