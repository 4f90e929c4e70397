-- The whole simulator: the calls of the CUDA runtime that concern managed
-- memory, the steps of the device, and runs of both in any order.
import GpgpuSimUvm.LdstUnit
import GpgpuSimUvm.Monitor

namespace gpgpu_sim_uvm

variable (cfg : Config)

/-! ## Allocation -/

/-- The doubling loop of `cudaMallocManaged`, with at most `n` doublings. -/
def doubleUntil (remainder : Nat) : Nat → Nat → Nat
  | 0, s => s
  | n + 1, s => if s < remainder then doubleUntil remainder n (s * 2) else s

/-- The size that `cudaMallocManaged` rounds a request to. -/
def roundedSize (size : Nat) : Nat :=
  let num_large_pages := size / MAX_PREFETCH_SIZE
  let remainder := size - num_large_pages * MAX_PREFETCH_SIZE
  (num_large_pages * MAX_PREFETCH_SIZE +
    if remainder = 0 then 0 else doubleUntil remainder 5 MIN_PREFETCH_SIZE) % SIZE_T

/-- The addresses and sizes that `initialize_large_page` is called with. -/
def largePages (addr size : Nat) : List (Nat × Nat) :=
  let n := size / MAX_PREFETCH_SIZE
  (List.range n).map (fun i => (addr + i * MAX_PREFETCH_SIZE, MAX_PREFETCH_SIZE)) ++
    if size % MAX_PREFETCH_SIZE = 0 then []
    else [(addr + n * MAX_PREFETCH_SIZE, size % MAX_PREFETCH_SIZE)]

/-- Both heaps go on behind an allocation, at the next multiple of 256 bytes. -/
def bumped (p size : Nat) : Nat := p + size + if size % 256 ≠ 0 then 256 - size % 256 else 0

/-- `cudaMallocManaged` of a size that is not 0; `cpuMemPtr` is what `malloc`
gives for the rounded size. Where the address would wrap the assertion passes,
but `memcpy_to_gpu` then reads from the NULL that `malloc` gave. -/
def cudaMallocManaged (g : Gpu) (cpuMemPtr size : Nat) : Gpu :=
  let size := roundedSize size
  let gpuMemPtr := g.m_dev_malloc_managed
  { g with
    m_dev_malloc_managed := bumped gpuMemPtr size
    ranges := { addr := gpuMemPtr, size := size, managed := true } :: g.ranges
    managedAllocations := g.managedAllocations.orderedInsert
      (fun a b => a.cpu_mem_addr ≤ b.cpu_mem_addr)
      { cpu_mem_addr := cpuMemPtr, gpu_mem_addr := gpuMemPtr, allocation_size := size }
    device := copyBytes g.device gpuMemPtr g.host cpuMemPtr size
    m_data := set_pages_managed cfg g.m_data gpuMemPtr size
    large_page_info := g.large_page_info ++
      (largePages gpuMemPtr size).map fun r => LpTree.build_lp_tree r.1 r.2
    history := .allocated size :: g.history
    aborted := g.aborted || !decide (gpuMemPtr + size ≤ MEM_SPACE_LIMIT) }

/-- `cudaMalloc`, which gives NULL when the frames do not suffice. -/
def cudaMalloc (g : Gpu) (size : Nat) : Gpu :=
  let n := frames_of_bytes cfg size
  { g with
    m_dev_malloc := if n ≤ g.num_free_pages then bumped g.m_dev_malloc size else g.m_dev_malloc
    ranges :=
      if n ≤ g.num_free_pages then
        { addr := g.m_dev_malloc, size := size, managed := false } :: g.ranges
      else g.ranges
    num_free_pages := if n ≤ g.num_free_pages then g.num_free_pages - n else g.num_free_pages
    unmanaged_frames := if n ≤ g.num_free_pages then g.unmanaged_frames + n else g.unmanaged_frames }

/-! ## The host -/

def AllocationInfo.holds (a : AllocationInfo) (addr : Nat) : Bool :=
  decide (a.cpu_mem_addr ≤ addr ∧ addr < a.cpu_mem_addr + a.allocation_size)

def host_write (g : Gpu) (addr : Nat) (v : UInt8) : Gpu :=
  { g with
    host := writeByte g.host addr v
    history := .host_written (g.managedAllocations.any fun a => a.holds addr && a.copied) ::
      g.history }

/-- Sets `copied` on the allocation at a host address. -/
def setCopied (hostPtr : Nat) (as : List AllocationInfo) : List AllocationInfo :=
  as.map fun a => if a.cpu_mem_addr = hostPtr then { a with copied := true } else a

/-- `cudaSetupArgument` of a pointer to a managed allocation. -/
def cudaSetupArgument (g : Gpu) (hostPtr : Nat) : Gpu :=
  match g.managedAllocations.find? (fun a => decide (a.cpu_mem_addr = hostPtr)) with
  | none => g
  | some a =>
    { g with
      device :=
        if a.copied then g.device
        else copyBytes g.device a.gpu_mem_addr g.host hostPtr a.allocation_size
      managedAllocations := setCopied hostPtr g.managedAllocations }

/-- `register_prefetch`, as `cudaMemPrefetchAsync` calls it: on whole pages,
for the allocation that holds the range. -/
def cudaMemPrefetchAsync (g : Gpu) (devPtr count stream : Nat) : Gpu :=
  match g.managedAllocations.find? (fun a => decide (a.cpu_mem_addr ≤ devPtr ∧
      devPtr + count ≤ a.cpu_mem_addr + a.allocation_size)) with
  | none => { g with aborted := true }
  | some a =>
    let gpuPtr := a.gpu_mem_addr + (devPtr - a.cpu_mem_addr)
    let start_addr := gpuPtr / cfg.page_size * cfg.page_size
    let end_addr := (gpuPtr + count - 1) / cfg.page_size * cfg.page_size + cfg.page_size
    { g with
      prefetch_req_buffer := g.prefetch_req_buffer ++
        [{ start_addr := start_addr, cur_addr := start_addr, allocation_addr := a.gpu_mem_addr,
           size := end_addr - start_addr, m_stream := stream }]
      aborted := g.aborted || decide (start_addr = end_addr) }

def activateFirst (addr cnt stream : Nat) : List PrefetchReq → List PrefetchReq
  | [] => []
  | q :: qs =>
    if q.start_addr = addr ∧ q.size = cnt ∧ q.m_stream = stream then { q with active := true } :: qs
    else q :: activateFirst addr cnt stream qs

/-- The stream comes to its prefetch operation. -/
def activate_prefetch (g : Gpu) (addr cnt stream : Nat) : Gpu :=
  { g with
    prefetch_req_buffer := activateFirst addr cnt stream g.prefetch_req_buffer
    aborted := g.aborted ||
      ((g.prefetch_req_buffer.find? fun q =>
        decide (q.start_addr = addr ∧ q.size = cnt ∧ q.m_stream = stream)).any
          fun q => decide (q.cur_addr ≠ addr)) }

/-! ## Synchronisation -/

/-- The loop over one copied allocation: host address, device address and
length of each copy, one for each page. -/
def syncChunks : Nat → Nat → Nat → Nat → List (Nat × Nat × Nat)
  | 0, _, _, _ => []
  | n + 1, hostPtr, devPtr, size =>
    if size = 0 then []
    else
      let size_in_this_page := cfg.get_data_size devPtr
      (hostPtr, devPtr, if size > size_in_this_page then size_in_this_page else size) ::
        syncChunks n (hostPtr + size_in_this_page) (devPtr + size_in_this_page)
          (size - size_in_this_page)

/-- The chunks of all copied allocations that lie on a dirty page. -/
def dirtyChunks (g : Gpu) : List (Nat × Nat × Nat) :=
  ((g.managedAllocations.filter AllocationInfo.copied).flatMap fun a =>
    syncChunks cfg a.allocation_size a.cpu_mem_addr a.gpu_mem_addr a.allocation_size).filter
      fun c => is_page_dirty g (cfg.get_page_num c.2.1)

def evicted_page_list (g : Gpu) : List Nat :=
  ((dirtyChunks cfg g).map fun c => cfg.get_page_num c.2.1).dedup

def reset_large_page_info (ts : Forest) : Forest := ts.map LpTree.reset_lp_tree_node

/-- `cudaDeviceSynchronize`, once the streams are done. -/
def cudaDeviceSynchronize (g : Gpu) : Gpu :=
  let evicted := evicted_page_list cfg g
  { g with
    host := (dirtyChunks cfg g).foldl
      (fun h c => copyBytes h c.1 g.device c.2.1 c.2.2) g.host
    managedAllocations := g.managedAllocations.map fun a => { a with copied := false }
    m_data := evicted.foldl invalidate_page g.m_data
    ldst := tlb_flush g.ldst evicted
    num_free_pages := cfg.num_gddr_pages
    valid_pages := []
    large_page_info := reset_large_page_info g.large_page_info
    over_sub := false
    sim_cycle := g.sim_cycle +
      if evicted = [] then 0 else cfg.devicesync_cycles (cfg.page_size * evicted.length)
    history := .left_gpu (evicted.any (isExpected cfg g)) ::
      .synchronised g.pcie_write_latency_queue.isSome :: g.history }

def Ldst.isIdle (u : Ldst) : Bool :=
  u.issued.isEmpty && u.m_dispatch_reg.isNone && u.managed_access.isEmpty && u.in_flight.isEmpty

/-- No kernel runs and no stream has an operation left. -/
def isIdle (g : Gpu) : Bool :=
  (List.range (num_shader cfg)).all (fun s => (g.ldst s).isIdle) && g.prefetch_req_buffer.isEmpty

/-! ## The device -/

/-- A byte that an instruction or an atomic writes. -/
def MemAccess.writes (a : MemAccess) (addr : Nat) : Bool :=
  decide (a.addr ≤ addr ∧ addr < a.addr + a.size)

/-- Writes the bytes of a store and makes the page table entries of their pages. -/
def writeDevice (g : Gpu) (bytes : List (Nat × UInt8)) : Gpu :=
  { g with
    device := bytes.foldl (fun m b => writeByte m b.1 b.2) g.device
    m_data := bytes.foldl (fun m b => touchPage cfg m b.1 1) g.m_data }

/-- A core executes a memory instruction and sends it to its load/store unit.
An instruction that is not atomic writes its bytes now. -/
def issue (g : Gpu) (sid : Nat) (w : WarpInst) (bytes : List (Nat × UInt8)) : Gpu :=
  writeDevice cfg
    { g with
      ldst := setLdst g sid { g.ldst sid with issued := (g.ldst sid).issued ++ [w] }
      issued_uids := w.accessq.map MemAccess.uid ++ g.issued_uids } bytes

/-- The bytes of an issued store lie in its write accesses. -/
def bytesCovered (w : WarpInst) (bytes : List (Nat × UInt8)) : Bool :=
  bytes.all fun b => !w.info.isatomic &&
    w.accessq.any fun a => decide (a.type = .GLOBAL_ACC_W) && a.writes b.1

/-- The accesses of an instruction are of its kind, and its atomics are loads.
The local memory of the threads lies below the heap. -/
def accessesAgree (w : WarpInst) : Bool :=
  w.accessq.all fun a =>
    decide (a.isGlobal = w.info.is_global ∧ a.isWrite = w.info.is_store) &&
      (a.isGlobal || decide (a.addr + a.size ≤ GLOBAL_HEAP_START)) &&
      (!w.info.isatomic || !a.isWrite)

/-- Every access that is generated gets a number of its own. -/
def freshAccesses (g : Gpu) (w : WarpInst) : Bool :=
  decide (w.accessq.map MemAccess.uid).Nodup &&
    w.accessq.all fun a => decide (a.uid ∉ g.issued_uids)

/-- An issued instruction moves into the free dispatch register. -/
def dispatch (g : Gpu) (sid k : Nat) : Gpu :=
  let u := g.ldst sid
  { g with
    ldst := setLdst g sid { u with
      m_dispatch_reg := u.issued[k]?
      issued := u.issued.eraseIdx k
      dispatched := (u.issued[k]?).elim [] WarpInst.accessq
      sent := []
      looked_up := [] } }

def logAtomic (g : Gpu) (bytes : List (Nat × UInt8)) : Gpu :=
  { g with
    history := (bytes.map fun b =>
      Event.atomic_written (is_page_managed cfg g b.1 1)
        (is_page_dirty g (cfg.get_page_num b.1))).reverse ++ g.history }

/-- The memory partition performs an atomic in flight on some of its bytes. -/
def do_atomic (g : Gpu) (bytes : List (Nat × UInt8)) : Gpu :=
  writeDevice cfg
    { logAtomic cfg g bytes with
      stored_pages := bytes.map (fun b => cfg.get_page_num b.1) ++ g.stored_pages } bytes

/-- How the L1 and the memory below it go on with an access in flight. -/
inductive Answer
  /-- `L1_latency_queue_cycle` gives the access to the L1. -/
  | l1_access (hit write_sent : Bool)
  /-- The data of a load past the L1. -/
  | data
  /-- The data of a load that missed in the L1. -/
  | fill
  /-- The data that the L1 fetches to allocate a line for a store. The fetch
  has an access of its own. -/
  | write_allocate_fill (uid : Nat)
  /-- An acknowledgement of a store. An L2 of sectors sends several. -/
  | write_ack (more : Bool)

/-- Whether an access in flight can be answered so. -/
def Answer.fits (how : Answer) (e : InFlight) : Bool :=
  match how, e.way with
  | .l1_access _ _, .l1_latency_queue => true
  | .data, .icnt => !e.access.isWrite
  | .fill, .l1 => !e.access.isWrite
  | .write_allocate_fill _, .l1 => e.access.isWrite
  | .write_ack _, .icnt => e.access.isWrite
  | .write_ack _, .l1 => e.access.isWrite
  | _, _ => false

/-- The access that the L1 makes for a store is new. -/
def Answer.isFresh (how : Answer) (g : Gpu) : Bool :=
  match how with
  | .write_allocate_fill uid => decide (uid ∉ g.issued_uids)
  | _ => true

/-- The accesses in flight once `es` took the place of the `k`-th. -/
def setInFlight (g : Gpu) (sid k : Nat) (es : List InFlight) : Gpu :=
  let u := g.ldst sid
  { g with
    ldst := setLdst g sid { u with
      in_flight := u.in_flight.take k ++ es ++ u.in_flight.drop (k + 1) } }

/-- The latency of an access is noted where it was met first. -/
def noteLatency (g : Gpu) (sid : Nat) (a : MemAccess) : Gpu :=
  g.require (decide ((sid, a.uid) ∈ g.new_stats.ma_latency))

def releaseManaged (g : Gpu) (a : MemAccess) : Gpu :=
  if isManaged cfg g a then reserve_pages_remove cfg g a else g

/-- The L1 and the memory go on with the `k`-th access in flight. -/
def answer (g : Gpu) (sid k : Nat) (how : Answer) : Gpu :=
  match (g.ldst sid).in_flight[k]? with
  | none => g
  | some e =>
    let a := e.access
    match how with
    | .l1_access hit write_sent =>
      (setInFlight g sid k (if goesOn a hit write_sent then [{ e with way := .l1 }] else [])).log
        (.cached .latency_queue a (isManaged cfg g a) hit write_sent)
    | .data => setInFlight g sid k []
    | .fill => releaseManaged cfg (noteLatency (setInFlight g sid k []) sid a) a
    | .write_allocate_fill uid =>
      releaseManaged cfg
        (noteLatency (g.log (.allocated_for_store (isManaged cfg g a))) sid { a with uid := uid })
        { a with uid := uid }
    | .write_ack more =>
      releaseManaged cfg
        (noteLatency ((setInFlight g sid k (if more then [e] else [])).log
          (.acknowledged (isManaged cfg g a) more)) sid a) a

/-! ## Steps and runs -/

inductive Action
  | cudaMallocManaged (cpuMemPtr size : Nat)
  | cudaMalloc (size : Nat)
  | host_write (addr : Nat) (v : UInt8)
  | cudaSetupArgument (hostPtr : Nat)
  | cudaMemPrefetchAsync (devPtr count stream : Nat)
  | activate_prefetch (addr cnt stream : Nat)
  | log_kernel_start (kernel_id : Nat)
  | log_kernel_finish (kernel_id : Nat)
  | cudaDeviceSynchronize
  | issue (sid : Nat) (w : WarpInst) (bytes : List (Nat × UInt8))
  | dispatch (sid k : Nat)
  | ldst_cycle (sid : Nat) (p : Port)
  | icnt_cycle (c : Nat)
  | do_atomic (sid k : Nat) (bytes : List (Nat × UInt8))
  | answer (sid k : Nat) (how : Answer)
  | gmmu_cycle
  | tick

/-- When an action can happen. -/
def enabled (g : Gpu) : Action → Bool
  | .cudaMallocManaged cpu size => decide (0 < size ∧ size < SIZE_T) &&
      g.managedAllocations.all fun a =>
        decide (cpu + roundedSize size ≤ a.cpu_mem_addr ∨ a.cpu_mem_addr + a.allocation_size ≤ cpu)
  | .cudaMalloc size => decide (size < SIZE_T)
  | .cudaMemPrefetchAsync _ count _ => decide (0 < count)
  | .cudaDeviceSynchronize => isIdle cfg g
  | .issue sid w bytes =>
      decide (sid < num_shader cfg) && bytesCovered w bytes && accessesAgree w && freshAccesses g w
  | .dispatch sid k =>
      decide (sid < num_shader cfg) && (g.ldst sid).m_dispatch_reg.isNone &&
        decide (k < (g.ldst sid).issued.length)
  | .ldst_cycle sid _ => decide (sid < num_shader cfg)
  | .icnt_cycle c => decide (c < cfg.n_simt_clusters)
  | .do_atomic sid k bytes => decide (sid < num_shader cfg) &&
      (g.ldst sid).in_flight[k]?.any fun e =>
        e.inst.isatomic && bytes.all fun b => e.access.writes b.1
  | .answer sid k how => decide (sid < num_shader cfg) && (g.ldst sid).in_flight[k]?.any how.fits &&
      how.isFresh g
  | _ => true

def perform (g : Gpu) : Action → Gpu
  | .cudaMallocManaged cpu size => cudaMallocManaged cfg g cpu size
  | .cudaMalloc size => cudaMalloc cfg g size
  | .host_write a v => host_write g a v
  | .cudaSetupArgument p => cudaSetupArgument g p
  | .cudaMemPrefetchAsync p n s => cudaMemPrefetchAsync cfg g p n s
  | .activate_prefetch a n s => activate_prefetch g a n s
  | .log_kernel_start k => log_kernel_start g k g.sim_cycle
  | .log_kernel_finish k => log_kernel_finish g k g.sim_cycle
  | .cudaDeviceSynchronize => cudaDeviceSynchronize cfg g
  | .issue sid w bytes => issue cfg g sid w bytes
  | .dispatch sid k => dispatch g sid k
  | .ldst_cycle sid p => ldst_cycle cfg g sid p
  | .icnt_cycle c => icnt_cycle cfg g c
  | .do_atomic _ _ bytes => do_atomic cfg g bytes
  | .answer sid k how => answer cfg g sid k how
  | .gmmu_cycle => gmmu_cycle cfg g
  | .tick => { g with sim_cycle := g.sim_cycle + 1 }

/-- One step. A step that aborts the simulator leads nowhere. -/
def step (g : Gpu) (a : Action) : Option Gpu :=
  if enabled cfg g a then
    let g' := perform cfg g a
    if g'.aborted then none else some g'
  else none

def run (g : Gpu) : List Action → Option Gpu
  | [] => some g
  | a :: as => (step cfg g a).bind fun g => run g as

/-- One step leads from `g` to `g'`. -/
def Next (g g' : Gpu) : Prop := ∃ a, step cfg g a = some g'

/-- The states of all runs. -/
def Reachable : Gpu → Prop := monitor.Reach (boot cfg) (Next cfg)

theorem reachable_run {g g' : Gpu} {as : List Action} (hg : Reachable cfg g)
    (h : run cfg g as = some g') : Reachable cfg g' := by
  induction as generalizing g with
  | nil =>
    cases h
    exact hg
  | cons a as ih =>
    obtain ⟨g1, h1, h2⟩ := Option.bind_eq_some_iff.mp h
    exact ih (hg.step ⟨a, h1⟩) h2

/-- The state behind a run from the start, or the start where it aborts. -/
def stateAfter (as : List Action) : Gpu := (run cfg (boot cfg) as).getD (boot cfg)

theorem reachable_stateAfter (as : List Action) : Reachable cfg (stateAfter cfg as) := by
  unfold stateAfter
  cases h : run cfg (boot cfg) as with
  | none => exact .start
  | some g => exact reachable_run cfg .start h

/-- One step that meets a condition on the state before it. -/
def NextIf (ok : Gpu → Action → Bool) (g g' : Gpu) : Prop :=
  ∃ a, ok g a = true ∧ step cfg g a = some g'

theorem reachable_of_reachIf {ok : Gpu → Action → Bool} {g : Gpu}
    (hr : monitor.Reach (boot cfg) (NextIf cfg ok) g) : Reachable cfg g := by
  induction hr with
  | start => exact .start
  | step _ hn ih =>
    obtain ⟨a, _, ha⟩ := hn
    exact ih.step ⟨a, ha⟩

/-- Every step of the run meets the condition. -/
def runIf (ok : Gpu → Action → Bool) (g : Gpu) : List Action → Bool
  | [] => true
  | a :: as => ok g a && ((step cfg g a).elim false fun g' => runIf ok g' as)

theorem reach_runIf (ok : Gpu → Action → Bool) (as : List Action) {g : Gpu}
    (hg : monitor.Reach (boot cfg) (NextIf cfg ok) g) (h : runIf cfg ok g as = true) :
    ∃ g', run cfg g as = some g' ∧ monitor.Reach (boot cfg) (NextIf cfg ok) g' := by
  induction as generalizing g with
  | nil => exact ⟨g, rfl, hg⟩
  | cons a as ih =>
    simp only [runIf, Bool.and_eq_true] at h
    cases hs : step cfg g a with
    | none => simp [hs] at h
    | some g' =>
      simp only [run, hs, Option.bind_some]
      exact ih (hg.step ⟨a, h.1, hs⟩) (by simpa [hs] using h.2)

theorem reach_stateAfter (ok : Gpu → Action → Bool) (as : List Action)
    (h : runIf cfg ok (boot cfg) as = true) :
    monitor.Reach (boot cfg) (NextIf cfg ok) (stateAfter cfg as) := by
  obtain ⟨g, hrun, hreach⟩ := reach_runIf cfg ok as .start h
  simpa [stateAfter, hrun] using hreach

/-! ## A small machine -/

/-- Two clusters of one core, four TLB entries, and a memory of 100 frames that
never asks for more than it has. -/
def smallConfig : Config where
  page_size := 4096
  page_size_ok := Or.inl rfl
  num_gddr_pages := 100
  eviction_policy := .LRU
  hardware_prefetch := .DISBALED
  hwprefetch_oversub := .DISBALED
  enable_dma := .DISABLED
  invalidate_clean := false
  enable_smart_runtime := false
  enable_accurate_simulation := false
  reserve_accessed_page_percent := 0
  free_page_buffer_percentage := 0
  migrate_threshold := 8
  multiply_dma_penalty := 1
  page_table_walk_latency := 0
  page_fault_latency := 10
  n_simt_clusters := 2
  n_simt_cores_per_cluster := 1
  tlb_size := 4
  gmem_skip_L1D := true
  has_L1D := true
  l1_latency := 1
  l1_banks := 1
  transfer_cycles := fun _ _ => 1
  devicesync_cycles := fun _ => 1
  rand := id

/-- The access of the first 32 bytes of a page of the managed heap. -/
def pageAccess (page : Nat) (type : MemAccessType) (uid : Nat) : MemAccess where
  addr := GLOBAL_HEAP_START + GLOBAL_MEM_SIZE_MAX + 4096 * page
  size := 32
  type := type
  uid := uid
  size_pos := sector_size_pos
  in_page := by
    simp only [GLOBAL_HEAP_START, GLOBAL_MEM_SIZE_MAX]
    omega

def loadInfo : InstInfo where
  warp_id := 0
  is_load := true
  is_store := false
  isatomic := false
  is_global := true
  cache_global := false
  cache_l1 := false

def storeInfo : InstInfo := { loadInfo with is_load := false, is_store := true }

/-- A core issues a load of some accesses, and works on the first. -/
def loadOn (sid : Nat) (accesses : List MemAccess) : List Action :=
  [.issue sid ⟨loadInfo, accesses⟩ [], .dispatch sid 0, .ldst_cycle sid ⟨0, false, false⟩]

/-- One cycle of the clusters and the GMMU. -/
def deviceCycle : List Action := [.icnt_cycle 0, .icnt_cycle 1, .gmmu_cycle, .tick]

def deviceCycles (n : Nat) : List Action := (List.replicate n deviceCycle).flatten

end gpgpu_sim_uvm
