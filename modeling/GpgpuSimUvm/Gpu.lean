-- The state that the simulator steps through: the page table and the frame
-- counter of the global memory, the queues and maps of the GMMU, the queues
-- of the clusters, the load/store units, and the memories of both sides.
import GpgpuSimUvm.LpTree

namespace gpgpu_sim_uvm

/-- Where the L1 takes an access from: the queue, when it has no latency, its
latency queue, or a reply of the GMMU. -/
inductive L1Port
  | queue | latency_queue | reply
  deriving DecidableEq

/-- What holds when an access leaves its unit: the flags of its page, whether
the page is reserved for it, whether it was translated, by a TLB hit at the
front of its queue or by a walk, and whether it was served by DMA. -/
structure Sent where
  access : MemAccess
  managed : Bool
  reserved : Bool
  translated : Bool
  valid : Bool
  marked : Bool
  direct : Bool

/-- What the history of a run remembers. No function of the simulator reads
it: the laws speak of it where they ask what a run has done so far. -/
inductive Event
  /-- A prefetcher selected a page; `pending` tells whether that page had an
  entry in the MSHR map, or faulted in the same turn. -/
  | selected (page : Nat) (pending : Bool)
  /-- `update_basic_block` was called on a tree that has this leaf. -/
  | block_updated (leaf : LpData) (size : Nat) (prefetch : Bool)
  /-- `memory_cycle` took a reply for this page, valid or not. -/
  | reply_taken (page : Nat) (valid : Bool)
  /-- An access hit the TLB; `resident` tells whether its page is valid, and
  `direct` whether the unit took a reply for the page that was served by DMA. -/
  | tlb_hit (resident direct : Bool)
  /-- Pages left the GPU, with a reply on its way for one of them or without. -/
  | left_gpu (expected : Bool)
  /-- `page_eviction_procedure` ran under a policy, on staged evictions that
  start at these addresses. -/
  | eviction_run (policy : EvictionPolicy) (starts : List Nat)
  /-- An allocation of this rounded size was made. -/
  | allocated (size : Nat)
  /-- An access left the queue for the L1 or the interconnect, from the front or
  from behind it. -/
  | left_queue (s : Sent) (behind : Bool)
  /-- An L1 without latency took an access while so many were queued. -/
  | direct_access (queued : Nat)
  /-- The L1 took an access, of a managed page or not, with its answer. -/
  | cached (by_way : L1Port) (access : MemAccess) (managed hit write_sent : Bool)
  /-- A store was acknowledged, with more acknowledgements to come or without. -/
  | acknowledged (managed more : Bool)
  /-- The fetch came back that the L1 makes for a store. -/
  | allocated_for_store (managed : Bool)
  /-- The accesses of a queue were reserved, all of managed pages or not. -/
  | noted (managed : Bool)
  /-- An eviction is about to be staged; `unguarded` tells whether a load past
  the L1 still reads a page that is not reserved. -/
  | evicting (unguarded : Bool)
  /-- An atomic wrote a byte; `marked` tells whether its page was dirty then. -/
  | atomic_written (managed marked : Bool)
  /-- The host wrote to a managed buffer that was, or was not, copied. -/
  | host_written (copied : Bool)
  /-- A write-back was dropped as clean, with a dirty page or without. -/
  | write_back_dropped (dirty : Bool)
  /-- The host synchronised, with a write-back in flight or without. -/
  | synchronised (in_flight : Bool)

/-- Where an access in flight is: past the L1, before it, or in it. -/
inductive Way
  | icnt | l1_latency_queue | l1
  deriving DecidableEq

structure InFlight where
  access : MemAccess
  inst : InstInfo
  way : Way

/-- A load/store unit, with the instructions that its core has issued to it. -/
structure Ldst where
  /-- Issued and executed, not yet in the dispatch register. -/
  issued : List WarpInst := []
  m_dispatch_reg : Option WarpInst := none
  m_cu_gmmu_queue : List MemFetch := []
  m_gmmu_cu_queue : List MemFetch := []
  tlb : List Nat := []
  /-- The fetches that `m_managed_access_outstanding` counts. -/
  managed_access : List MemFetch := []
  /-- The replies that the unit took. -/
  taken : List MemFetch := []
  /-- The accesses that the L1 and the memory below it work on. -/
  in_flight : List InFlight := []
  /-- The accesses of the instruction in the dispatch register when it came. -/
  dispatched : List MemAccess := []
  /-- Those of them that left the unit. -/
  sent : List MemAccess := []
  /-- Those of them that hit the TLB at the front of the queue. -/
  looked_up : List MemAccess := []

/-- The counters of `gpgpu_new_stats` that the report on the pages prints. -/
structure NewStats where
  /-- The keys of `ma_latency`, core and access. -/
  ma_latency : List (Nat × Nat) := []
  page_access_times : Nat → Nat → Nat := fun _ _ => 0
  page_tlb_hit_times : Nat → Nat := fun _ => 0
  page_tlb_miss_times : Nat → Nat := fun _ => 0
  page_tlb_miss_pt_hit_times : Nat → Nat := fun _ => 0
  page_tlb_miss_pt_miss_times : Nat → Nat := fun _ => 0
  page_fault_outstand_times : Nat → Nat := fun _ => 0
  page_fault_pending_times : Nat → Nat := fun _ => 0

/-- A range of device addresses that the runtime returned. -/
structure DeviceRange where
  addr : Nat
  size : Nat
  managed : Bool
  deriving DecidableEq

structure Gpu where
  -- the run so far
  /-- An assertion failed, or a NULL pointer was followed. -/
  aborted : Bool := false
  /-- The newest event comes first. -/
  history : List Event := []
  /-- The fetches that entered `page_table_walk_queue`, the newest first. -/
  walked : List MemFetch := []
  /-- The fetches that went to the `gmmu_cu` queue of a cluster, with that
  cluster. -/
  replayed : List (MemFetch × Nat) := []
  /-- The fetches that were parked with a prefetch request that was taken out. -/
  lost : List MemFetch := []
  /-- The accesses that left their unit for the L1 or the interconnect. -/
  sends : List Sent := []
  /-- The instructions that left the dispatch register: their accesses when they
  came, and those that left the unit. -/
  retired : List (List MemAccess × List MemAccess) := []
  /-- The accesses that the cores issued. -/
  issued_uids : List Nat := []
  /-- The pairs that were put in `reserve_pages`, and those taken out. -/
  reserved : List (Nat × Nat) := []
  released : List (Nat × Nat) := []
  /-- An assertion of `reserve_pages_remove` failed. -/
  release_failed : Bool := false
  /-- The pages stored to since they last became resident. -/
  stored_pages : List Nat := []
  -- the global memory
  m_data : StdMap Nat MemStorage := .empty
  num_free_pages : Nat
  -- the GMMU
  page_table_walk_queue : List (MemFetch × Nat) := []
  pcie_read_stage_queue : List PcieLatency := []
  pcie_write_stage_queue : List PcieLatency := []
  pcie_read_latency_queue : Option PcieLatency := none
  pcie_write_latency_queue : Option PcieLatency := none
  req_info : StdMap Nat (List MemFetch) := .empty
  valid_pages : List EvictionT := []
  large_page_info : Forest := []
  prefetch_req_buffer : List PrefetchReq := []
  reserve_pages : StdMap Nat (List Nat) := .empty
  block_access_list : List (Nat × Nat) := []
  kernel_info : StdMap Nat (Nat × Nat) := .empty
  evict_policy : EvictionPolicy
  prefetcher : HwPrefetcher
  dma_mode : DmaType
  over_sub : Bool := false
  /-- A local of `gmmu_t::cycle`, empty between two cycles. -/
  page_fault_this_turn : StdMap Nat (List MemFetch) := .empty
  /-- The fetches whose `m_dma` is set. -/
  m_dma : List MemFetch := []
  -- the clusters and the cores
  m_cu_gmmu_queue : Nat → List MemFetch := fun _ => []
  m_gmmu_cu_queue : Nat → List MemFetch := fun _ => []
  ldst : Nat → Ldst := fun _ => {}
  -- the runtime and the bytes on both sides
  managedAllocations : List AllocationInfo := []
  m_dev_malloc_managed : Nat := GLOBAL_HEAP_START + GLOBAL_MEM_SIZE_MAX
  device : Nat → UInt8 := fun _ => 0
  host : Nat → UInt8 := fun _ => 0
  new_stats : NewStats := {}
  -- the clock, the calls of `rand()` so far and the next `mem_fetch`
  sim_cycle : Nat := 0
  rand_calls : Nat := 0
  next_fetch : Nat := 0
  /-- The frames that `cudaMalloc` took so far. -/
  unmanaged_frames : Nat := 0
  m_dev_malloc : Nat := GLOBAL_HEAP_START
  /-- What `cudaMalloc` and `cudaMallocManaged` returned, the newest first. -/
  ranges : List DeviceRange := []

variable (cfg : Config)

/-- The number of load/store units. -/
def num_shader : Nat := cfg.n_simt_clusters * cfg.n_simt_cores_per_cluster

/-- The state after the simulator has read its options. -/
def boot : Gpu where
  num_free_pages := cfg.num_gddr_pages
  evict_policy := cfg.eviction_policy
  prefetcher := cfg.hardware_prefetch
  dma_mode := cfg.enable_dma

namespace Gpu

/-- `assert(b)` -/
def require (g : Gpu) (b : Bool) : Gpu := { g with aborted := g.aborted || !b }

def log (g : Gpu) (e : Event) : Gpu := { g with history := e :: g.history }

end Gpu

end gpgpu_sim_uvm
