-- The producers of migrations: the hardware prefetcher, which turns the page
-- faults of a cycle into transfers, and the user prefetch, which works through
-- the prefetch requests of the streams.
import GpgpuSimUvm.Eviction

namespace gpgpu_sim_uvm

variable (cfg : Config)

/-! ## The hardware prefetcher -/

/-- The locals of `do_hardware_prefetch`. -/
structure Turn where
  /-- The keys of `temp_req_info`, whose lists stay empty. -/
  temp_req_info : List Nat := []
  /-- One list for each transfer, with its faulty pages. -/
  transfers : List (List Nat × List Nat) := []

/-- `temp_req_info[p]` -/
def addPage (temp : List Nat) (p : Nat) : List Nat := if p ∈ temp then temp else temp ++ [p]

/-- The address that the `RANDOM` prefetcher draws from a tree. -/
def random_addr (g : Gpu) (t : LpTree) : Nat :=
  let random_size := cfg.rand g.rand_calls % (t.size / cfg.page_size) * cfg.page_size
  t.addr + if random_size > t.size then random_size - t.size else random_size

/-- The tests on a drawn page. The map of this turn's faults, whose keys are
page numbers, is searched for the address. -/
def takesRandomPage (g : Gpu) (temp : List Nat) (prefetch_addr : Nat) : Bool :=
  let prefetch_page_num := cfg.get_page_num prefetch_addr
  !is_valid g prefetch_page_num && !g.page_fault_this_turn.contains prefetch_addr &&
    !decide (prefetch_page_num ∈ temp) && !g.req_info.contains prefetch_page_num

/-- The call of `rand()`, which fails for a tree below a page. -/
def callRand (g : Gpu) (t : LpTree) (q : Nat) : Gpu :=
  { g with
    rand_calls := g.rand_calls + 1
    aborted := g.aborted || (decide (t.size / cfg.page_size = 0) || !is_mapped g q) }

/-- The page that `RANDOM` adds to the transfer of a faulting page, if any. -/
def drawRandom (g : Gpu) (temp : List Nat) (t : LpTree) : Gpu × List Nat :=
  let prefetch_addr := random_addr cfg g t
  let q := cfg.get_page_num prefetch_addr
  let g' := callRand cfg g t q
  if takesRandomPage cfg g temp prefetch_addr then
    (updateBlock (g'.log (.selected q (g.page_fault_this_turn.contains q)))
      (cfg.get_mem_addr q) cfg.page_size true, [q])
  else (g', [])

def drawIfRandom (g : Gpu) (temp : List Nat) (p : Nat) : Gpu × List Nat :=
  match g.prefetcher, Forest.get_lp_node g.large_page_info (cfg.get_mem_addr p) with
  | .RANDOM, some t => drawRandom cfg g temp t
  | _, _ => (g, [])

/-- One fault under `DISBALED` or `RANDOM`. -/
def prefetchOne (s : Gpu × Turn) (p : Nat) : Gpu × Turn :=
  let g := updateBlock s.1 (cfg.get_mem_addr p) cfg.page_size true
  let temp := addPage s.2.temp_req_info p
  let d := drawIfRandom cfg g temp p
  (d.1,
    { temp_req_info := d.2.foldl addPage temp
      transfers := s.2.transfers ++ [(p :: d.2, [p])] })

/-- The faulting pages of this turn by the address of their tree. -/
def lp_pf_groups (g : Gpu) : StdMap Nat (List Nat) :=
  g.page_fault_this_turn.keys.foldl
    (fun m p =>
      m.alter (Forest.rootAddr g.large_page_info (cfg.get_mem_addr p)) []
        (· ++ [cfg.get_mem_addr p])) .empty

/-- The basic blocks of the faults of one tree, and the tree after them. -/
def scheduleFaults (g : Gpu) (faults : List Nat) : Gpu × BlockSet :=
  faults.foldl
    (fun s a =>
      (updateBlock s.1 a MIN_PREFETCH_SIZE true,
        s.2.alter (Forest.get_basic_block s.1.large_page_info a) () id)) (g, .empty)

/-- The call of `traverse_and_fill_lp_tree` under `TBN`. -/
def fillTree (g : Gpu) (root : Nat) (bbs : BlockSet) : Gpu × BlockSet :=
  ({ g with
      large_page_info :=
        if g.prefetcher = .TBN then
          Forest.modifyTree (fun t => (t.traverse_and_fill_lp_tree bbs).1) root g.large_page_info
        else g.large_page_info },
    if g.prefetcher = .TBN then
      (Forest.get_lp_node g.large_page_info root).elim bbs fun t =>
        (t.traverse_and_fill_lp_tree bbs).2
    else bbs)

/-- The invalid pages of one scheduled block that are not in the turn yet. -/
def collectBlock (s : Gpu × List Nat × List Nat) (bb : Nat) : Gpu × List Nat × List Nat :=
  let g := s.1
  let fresh := (get_faulty_pages cfg g bb MIN_PREFETCH_SIZE).filter fun p => decide (p ∉ s.2.1)
  ({ g with
      block_access_list := g.block_access_list ++ [(g.sim_cycle, bb)]
      history :=
        (fresh.map fun p => Event.selected p (g.req_info.contains p)).reverse ++ g.history
      aborted := g.aborted || !rangeMapped cfg g bb MIN_PREFETCH_SIZE },
    s.2.1 ++ fresh, s.2.2 ++ fresh)

/-- The faults of one tree under `SEQUENTIAL_LOCAL` or `TBN`. -/
def prefetchGroup (s : Gpu × Turn) (group : Nat × List Nat) : Gpu × Turn :=
  let scheduled := scheduleFaults s.1 group.2
  let filled := fillTree scheduled.1 group.1 scheduled.2
  let collected :=
    filled.2.keys.foldl (collectBlock cfg) (filled.1, s.2.temp_req_info, [])
  (collected.1,
    { temp_req_info := collected.2.1
      transfers := s.2.transfers ++ [(collected.2.2, group.2.map cfg.get_page_num)] })

/-! ## The split into transfers -/

def migration (pages : List Nat) : PcieLatency where
  start_addr := cfg.get_mem_addr (pages.headD 0)
  size := pages.length * cfg.page_size
  page_list := pages
  type := .PCIE_READ

/-- Closes the current run of pages. -/
def flushRun (cur : List Nat) : List PcieLatency :=
  if cur = [] then [] else [migration cfg cur]

/-- Walks over the pages of a transfer: a gap closes the current run before the
page, and the next faulty page closes it after. -/
def splitTransfer : List Nat → List Nat → List Nat → List PcieLatency
  | [], cur, _ => flushRun cfg cur
  | p :: ps, cur, faulty =>
    let gap := cur.getLast?.any fun q => decide (p ≠ q + 1)
    let before := if gap then flushRun cfg cur else []
    let run := (if gap then [] else cur) ++ [p]
    if faulty.head? = some p then
      before ++
        (if cfg.enable_accurate_simulation then [{ page_list := [p], type := .PAGE_FAULT }] else []) ++
        migration cfg run :: splitTransfer ps [] faulty.tail
    else before ++ splitTransfer ps run faulty

/-- The faults of one page go to its MSHR entry, which has to be empty. -/
def fileFault (g : Gpu) (e : Nat × List MemFetch) : Gpu :=
  { g with
    req_info := g.req_info.alter e.1 [] fun _ => e.2
    new_stats := g.new_stats.countOutstanding e.1
    aborted := g.aborted || decide (g.req_info.findD e.1 [] ≠ []) }

def fileFaults (g : Gpu) : Gpu := g.page_fault_this_turn.entries.foldl fileFault g

/-- The first time that the memory is oversubscribed. -/
def noteOversubscription (g : Gpu) (pages : Nat) : Gpu :=
  if !g.over_sub && should_evict_page cfg g pages 0 then
    { (if cfg.enable_smart_runtime then update_memory_management_policy g
        else update_hardware_prefetcher_oversubscribed cfg g) with over_sub := true }
  else g

def chooseMigrations (g : Gpu) : Gpu × Turn :=
  if g.prefetcher = .DISBALED ∨ g.prefetcher = .RANDOM then
    g.page_fault_this_turn.keys.foldl (prefetchOne cfg) (g, {})
  else (lp_pf_groups cfg g).entries.foldl (prefetchGroup cfg) (g, {})

/-- The MSHR entries and the transfers of a turn, and its faults. -/
def stageTurn (g : Gpu) (turn : Turn) : Gpu :=
  fileFaults { g with
    req_info := turn.temp_req_info.foldl (fun m p => m.alter p [] id) g.req_info
    pcie_read_stage_queue := g.pcie_read_stage_queue ++
      turn.transfers.flatMap fun t => splitTransfer cfg t.1 [] t.2 }

def do_hardware_prefetch (g : Gpu) : Gpu :=
  if g.page_fault_this_turn.entries = [] then g
  else
    let s := chooseMigrations cfg g
    noteOversubscription cfg
      { stageTurn cfg s.1 s.2 with page_fault_this_turn := .empty }
      (num_pages g.pcie_read_stage_queue + s.2.temp_req_info.length)

/-! ## The user prefetch -/

/-- `push_gmmu_cu_queue` of the cluster of a fetch. -/
def replay (g : Gpu) (mf : MemFetch) : Gpu :=
  let simt_cluster_id := mf.sid / cfg.n_simt_cores_per_cluster
  { g with
    m_gmmu_cu_queue := fun c =>
      if c = simt_cluster_id then g.m_gmmu_cu_queue c ++ [mf] else g.m_gmmu_cu_queue c
    replayed := (mf, simt_cluster_id) :: g.replayed }

/-- Takes an invalid page into the active request and its transfer. -/
def takePage (g : Gpu) (pre_q : PrefetchReq) (page_num : Nat) : Gpu × PrefetchReq :=
  ({ g with
      req_info := g.req_info.alter page_num [] id
      history := .selected page_num (g.req_info.contains page_num) :: g.history },
    { pre_q with
      pending_prefetch := pre_q.pending_prefetch ++ [page_num]
      outgoing_replayable_nacks :=
        if pre_q.incoming_replayable_nacks.contains page_num then
          pre_q.outgoing_replayable_nacks.alter page_num []
            (· ++ pre_q.incoming_replayable_nacks.findD page_num [])
        else pre_q.outgoing_replayable_nacks
      incoming_replayable_nacks := pre_q.incoming_replayable_nacks.erase page_num })

/-- The loop ends at the end of the request, and where the current address is
a multiple of 2MB behind the start of the allocation. -/
def chunkGoesOn (pre_q : PrefetchReq) : Bool :=
  decide (pre_q.cur_addr ≠ pre_q.start_addr + pre_q.size ∧
    sub_size_t pre_q.cur_addr pre_q.allocation_addr % MAX_PREFETCH_SIZE ≠ 0)

/-- The pages of a request from its current address on. -/
def pages_left (pre_q : PrefetchReq) : Nat :=
  (pre_q.start_addr + pre_q.size - pre_q.cur_addr) / cfg.page_size

/-- The loop over the pages of one chunk, at most `n` of them. -/
def selectChunk : Nat → Gpu → PrefetchReq → Gpu × PrefetchReq
  | 0, g, pre_q => (g, pre_q)
  | n + 1, g, pre_q =>
    let page_num := cfg.get_page_num pre_q.cur_addr
    let pre_q := { pre_q with cur_addr := pre_q.cur_addr + cfg.page_size }
    let g := g.require (is_mapped g page_num)
    if is_valid g page_num then
      let g := check_write_stage_queue cfg g page_num
      if pre_q.pending_prefetch ≠ [] then (g, pre_q)
      else if chunkGoesOn pre_q then selectChunk n g pre_q
      else (g, pre_q)
    else
      let s := takePage g pre_q page_num
      if chunkGoesOn s.2 then selectChunk n s.1 s.2 else s

/-- The transfer of a chunk. Its start is the address behind the first page. -/
def chunkTransfer (pages : List Nat) : List PcieLatency :=
  if pages = [] then []
  else [{ migration cfg pages with start_addr := cfg.get_mem_addr (pages.headD 0) + cfg.page_size }]

/-- The fetches that waited for the last chunk go back to their cores. -/
def replayChunk (g : Gpu) (pre_q : PrefetchReq) : Gpu × PrefetchReq :=
  if pre_q.cur_addr > pre_q.start_addr then
    (pre_q.outgoing_replayable_nacks.pooled.foldl (replay cfg) g,
      { pre_q with outgoing_replayable_nacks := .empty })
  else (g, pre_q)

/-- The request is worked off. -/
def finishPrefetch (g : Gpu) (pre_q : PrefetchReq) (rest : List PrefetchReq) : Gpu :=
  { g with
    prefetch_req_buffer := rest
    lost := pre_q.incoming_replayable_nacks.pooled ++ pre_q.outgoing_replayable_nacks.pooled ++
      g.lost }

/-- The selected chunk goes to the read stage queue. -/
def stageChunk (g : Gpu) (pre_q : PrefetchReq) (rest : List PrefetchReq) : Gpu :=
  { g with
    prefetch_req_buffer := pre_q :: rest
    pcie_read_stage_queue :=
      g.pcie_read_stage_queue ++ chunkTransfer cfg pre_q.pending_prefetch }

/-- The last part of the cycle, on the request in front if it is active and
waits for no page. -/
def user_prefetch (g : Gpu) : Gpu :=
  match g.prefetch_req_buffer with
  | [] => g
  | pre_q :: rest =>
    if pre_q.active ∧ pre_q.pending_prefetch = [] then
      let s := replayChunk cfg g pre_q
      if s.2.cur_addr = s.2.start_addr + s.2.size then finishPrefetch s.1 s.2 rest
      else
        let s := selectChunk cfg (pages_left cfg s.2) s.1 s.2
        stageChunk cfg s.1 s.2 rest
    else g

end gpgpu_sim_uvm
