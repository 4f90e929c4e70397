-- The decisions of the GMMU that only change its own modes: the smart runtime
-- that classifies the access patterns of the data structures, the switch of
-- the hardware prefetcher, and whether a far access migrates its page.
import GpgpuSimUvm.GlobalMem

namespace gpgpu_sim_uvm

/-! ## Access patterns -/

inductive DsPattern
  | UNDECIDED | RANDOM | LINEAR | MIXED | RANDOM_REUSE | LINEAR_REUSE | MIXED_REUSE
  deriving DecidableEq, Repr

/-- The pattern of a data structure after one more kernel. -/
def DsPattern.update : DsPattern → DsPattern → DsPattern
  | UNDECIDED, cur => cur
  | LINEAR, LINEAR_REUSE => LINEAR_REUSE
  | LINEAR, RANDOM => MIXED
  | LINEAR, RANDOM_REUSE => MIXED_REUSE
  | LINEAR_REUSE, RANDOM => MIXED_REUSE
  | LINEAR_REUSE, RANDOM_REUSE => MIXED_REUSE
  | RANDOM, RANDOM_REUSE => RANDOM_REUSE
  | RANDOM, LINEAR => MIXED
  | RANDOM, LINEAR_REUSE => MIXED_REUSE
  | RANDOM_REUSE, LINEAR => MIXED_REUSE
  | RANDOM_REUSE, LINEAR_REUSE => MIXED_REUSE
  | p, _ => p

/-- `sort()` and `unique()` of a list of blocks. -/
def sortUnique (bs : List Nat) : List Nat := (bs.insertionSort (· ≤ ·)).dedup

/-- One kernel's accesses to a data structure, on its pattern and its blocks. -/
def patternOfKernel (s : DsPattern × List Nat) (accesses : List Nat) : DsPattern × List Nat :=
  let curBlocks := sortUnique accesses
  let reuse := curBlocks.length ≠ accesses.length ∨ curBlocks.any (· ∈ s.2)
  let linear := accesses.Pairwise (· ≤ ·)
  let curPattern :=
    if linear then (if reuse then .LINEAR_REUSE else .LINEAR)
    else (if reuse then .RANDOM_REUSE else DsPattern.RANDOM)
  (s.1.update curPattern, sortUnique (s.2 ++ curBlocks))

/-- The blocks of an allocation that were scheduled while a kernel ran, an end
of 0 being that of a kernel that still runs. -/
def dsAccess (blocks : List (Nat × Nat)) (k : Nat × Nat) (a : AllocationInfo) : List Nat :=
  (blocks.filter fun b =>
    decide (k.1 ≤ b.1 ∧ (k.2 = 0 ∨ b.1 ≤ k.2) ∧
      a.gpu_mem_addr ≤ b.2 ∧ b.2 < a.gpu_mem_addr + a.allocation_size)).map Prod.snd

/-- The pattern of an allocation over all kernels. A kernel that never came to
it leaves the pattern alone. -/
def accessPattern (g : Gpu) (a : AllocationInfo) : DsPattern :=
  (((g.kernel_info.values.map fun k => dsAccess g.block_access_list k a).filter
    (· ≠ [])).foldl patternOfKernel (.UNDECIDED, [])).1

def update_memory_management_policy (g : Gpu) : Gpu :=
  let accessPatterns := g.managedAllocations.map (accessPattern g)
  let irregular := accessPatterns.any fun p =>
    decide (p = .RANDOM ∨ p = .RANDOM_REUSE ∨ p = .MIXED ∨ p = .MIXED_REUSE)
  let is_linear_reuse := decide (.LINEAR_REUSE ∈ accessPatterns)
  { g with
    dma_mode := if irregular then .OVERSUB else g.dma_mode
    evict_policy := if irregular || is_linear_reuse then .TBN else g.evict_policy }

variable (cfg : Config)

def update_hardware_prefetcher_oversubscribed (g : Gpu) : Gpu :=
  { g with prefetcher := cfg.hwprefetch_oversub }

/-- The call of the smart runtime before an eviction. -/
def detectPattern (g : Gpu) : Gpu :=
  if cfg.enable_smart_runtime then update_memory_management_policy g else g

/-- `log_kernel_info` at the launch of a kernel. -/
def log_kernel_start (g : Gpu) (kernel_id time : Nat) : Gpu :=
  { g with
    kernel_info :=
      if g.kernel_info.contains kernel_id then g.kernel_info
      else g.kernel_info.alter kernel_id (time, 0) id }

/-- `log_kernel_info` at the end of a kernel. -/
def log_kernel_finish (g : Gpu) (kernel_id time : Nat) : Gpu :=
  { g with
    kernel_info :=
      if g.kernel_info.contains kernel_id then
        g.kernel_info.alter kernel_id (0, 0) (fun k => (k.1, time))
      else g.kernel_info }

/-! ## Migration or direct access -/

/-- The number of pages that the transfers of a queue hold. -/
def num_pages (q : List PcieLatency) : Nat := (q.map fun p => p.page_list.length).sum

/-- What the read of a far access costs before its page migrates, in the
adaptive mode. -/
def derived_threshold (g : Gpu) (addr : Nat) : Int :=
  if g.over_sub then
    cfg.migrate_threshold * cfg.multiply_dma_penalty *
      (Forest.get_bb_round_trip g.large_page_info addr + 1)
  else
    ⌊1 + (cfg.migrate_threshold : ℚ) *
      get_projected_occupancy cfg g (num_pages g.pcie_read_stage_queue)
        (num_pages g.pcie_write_stage_queue)⌋

def should_cause_page_migration (g : Gpu) (addr : Nat) (is_write : Bool) : Bool :=
  let counter := Forest.get_bb_access_counter g.large_page_info addr
  match g.dma_mode with
  | .DISABLED => true
  | .ALWAYS => is_write || decide (cfg.migrate_threshold ≤ counter)
  | .OVERSUB => !g.over_sub || is_write || decide (cfg.migrate_threshold ≤ counter)
  | .ADAPTIVE => is_write || decide (derived_threshold cfg g addr ≤ counter)

/-- The smart runtime only ever turns the eviction policy into TBN. -/
theorem the_policy_stays_or_becomes_tbn (g : Gpu) :
    (update_memory_management_policy g).evict_policy = g.evict_policy ∨
      (update_memory_management_policy g).evict_policy = .TBN := by
  simp only [update_memory_management_policy]
  split
  · exact Or.inr rfl
  · exact Or.inl rfl

end gpgpu_sim_uvm
