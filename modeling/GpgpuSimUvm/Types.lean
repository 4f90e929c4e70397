-- The data of the unified-memory simulator: the configuration, memory
-- accesses and fetches, PCI-e transactions, prefetch requests and eviction
-- candidates, under the names of gmmu.h, memory.h and shader.h.
import GpgpuSimUvm.StdMap
import Mathlib.Data.Rat.Defs
import Mathlib.Algebra.Order.Ring.Rat
import Mathlib.Tactic

namespace gpgpu_sim_uvm

def MAX_PREFETCH_SIZE : Nat := 2 * 1024 * 1024
def MIN_PREFETCH_SIZE : Nat := 64 * 1024
def MEM_SPACE_LIMIT : Nat := 0x100000000
def GLOBAL_HEAP_START : Nat := 0x80000000
def GLOBAL_MEM_SIZE_MAX : Nat := 1024 * 1024 * 1024

/-- Values of a `size_t` wrap here. -/
def SIZE_T : Nat := 2 ^ 64

/-- `a - b` in `size_t`. -/
def sub_size_t (a b : Nat) : Nat := (a + SIZE_T - b) % SIZE_T

inductive EvictionPolicy
  | LRU | TBN | SEQUENTIAL_LOCAL | RANDOM | LFU | LRU4K
  deriving DecidableEq, Repr

/-- `hwardware_prefetcher`, and also `hwardware_prefetcher_oversub`. -/
inductive HwPrefetcher
  | DISBALED | TBN | SEQUENTIAL_LOCAL | RANDOM
  deriving DecidableEq, Repr

inductive DmaType
  | DISABLED | ADAPTIVE | ALWAYS | OVERSUB
  deriving DecidableEq, Repr

inductive MemAccessType
  | GLOBAL_ACC_R | GLOBAL_ACC_W | LOCAL_ACC_R | LOCAL_ACC_W
  deriving DecidableEq, Repr

inductive LatencyType
  | PCIE_READ | PCIE_WRITE_BACK | INVALIDATE | PAGE_FAULT | DMA
  deriving DecidableEq, Repr

/-- `allocation_info`, with the host address that keys it. -/
structure AllocationInfo where
  cpu_mem_addr : Nat
  gpu_mem_addr : Nat
  allocation_size : Nat
  copied : Bool := false
  deriving DecidableEq

/-- What the options of the simulator fix for a whole run. -/
structure Config where
  page_size : Nat
  page_size_ok : page_size = 4096 ∨ page_size = 2097152
  num_gddr_pages : Nat
  eviction_policy : EvictionPolicy
  hardware_prefetch : HwPrefetcher
  hwprefetch_oversub : HwPrefetcher
  enable_dma : DmaType
  invalidate_clean : Bool
  enable_smart_runtime : Bool
  enable_accurate_simulation : Bool
  reserve_accessed_page_percent : ℚ
  free_page_buffer_percentage : ℚ
  migrate_threshold : Nat
  multiply_dma_penalty : Nat
  page_table_walk_latency : Nat
  page_fault_latency : Nat
  n_simt_clusters : Nat
  n_simt_cores_per_cluster : Nat
  tlb_size : Nat
  gmem_skip_L1D : Bool
  /-- `m_L1D` is not NULL. -/
  has_L1D : Bool
  l1_latency : Nat
  l1_banks : Nat
  /-- The cycles that the PCI-e model gives a transfer of these pages. The
  model itself is floating-point arithmetic over the allocations. -/
  transfer_cycles : List AllocationInfo → List Nat → Nat
  /-- The cycles that `calculate_devicesync_time` gives so many bytes. -/
  devicesync_cycles : Nat → Nat
  /-- The values of `rand()`, one after the other. -/
  rand : Nat → Nat

/-- One coalesced access of a warp. The coalescer aligns a segment to its
size, so an access never crosses a page. -/
structure MemAccess where
  addr : Nat
  size : Nat
  type : MemAccessType
  uid : Nat
  size_pos : 0 < size
  in_page : addr % 4096 + size ≤ 4096
  deriving DecidableEq

/-- The size of a sector. -/
theorem sector_size_pos : 0 < 32 := by decide

/-- Pairs are looked up in lists by their two numbers. -/
instance lawful_pair : LawfulBEq (Nat × Nat) := inferInstance

namespace MemAccess

/-- `GLOBAL_ACC_R` and `GLOBAL_ACC_W` -/
def isGlobal (a : MemAccess) : Bool :=
  decide (a.type = .GLOBAL_ACC_R ∨ a.type = .GLOBAL_ACC_W)

/-- `get_is_write` -/
def isWrite (a : MemAccess) : Bool :=
  decide (a.type = .GLOBAL_ACC_W ∨ a.type = .LOCAL_ACC_W)

end MemAccess

/-- What the load/store unit reads of a warp instruction, its accesses apart. -/
structure InstInfo where
  warp_id : Nat
  is_load : Bool
  is_store : Bool
  isatomic : Bool
  /-- `space` is `global_space`; else it is a local space. -/
  is_global : Bool
  /-- `cache_op` is `CACHE_GLOBAL`. -/
  cache_global : Bool
  /-- `cache_op` is `CACHE_L1`. -/
  cache_l1 : Bool
  deriving DecidableEq

structure WarpInst where
  info : InstInfo
  accessq : List MemAccess
  deriving DecidableEq

/-- `mem_fetch`. The serial number stands for the identity of the object. -/
structure MemFetch where
  serial : Nat
  sid : Nat
  access : MemAccess
  inst : InstInfo
  deriving DecidableEq

/-- `pcie_latency_t` -/
structure PcieLatency where
  start_addr : Nat := 0
  size : Nat := 0
  page_list : List Nat := []
  ready_cycle : Nat := 0
  mf : Option MemFetch := none
  type : LatencyType
  deriving DecidableEq

/-- `eviction_t` -/
structure EvictionT where
  addr : Nat
  size : Nat
  cycle : Nat
  access_counter : BitVec 32 := 0
  RW : Nat := 0
  deriving DecidableEq

/-- `prefetch_req` -/
structure PrefetchReq where
  start_addr : Nat
  cur_addr : Nat
  allocation_addr : Nat
  size : Nat
  m_stream : Nat
  incoming_replayable_nacks : StdMap Nat (List MemFetch) := .empty
  outgoing_replayable_nacks : StdMap Nat (List MemFetch) := .empty
  pending_prefetch : List Nat := []
  active : Bool := false

/-- The flags of `mem_storage`, the page table entry of a page. -/
structure MemStorage where
  managed : Bool := false
  valid : Bool := false
  dirty : Bool := false
  access : Bool := false
  deriving DecidableEq

namespace Config

variable (cfg : Config)

def get_page_num (addr : Nat) : Nat := addr / cfg.page_size

def get_mem_addr (pg_index : Nat) : Nat := pg_index * cfg.page_size

/-- The bytes from `addr` to the end of its page. -/
def get_data_size (addr : Nat) : Nat :=
  cfg.page_size - (addr - addr / cfg.page_size * cfg.page_size)

theorem page_size_pos : 0 < cfg.page_size := by
  rcases cfg.page_size_ok with h | h <;> omega

theorem four_k_dvd : 4096 ∣ cfg.page_size := by
  rcases cfg.page_size_ok with h | h
  · rw [h]
  · rw [h]; decide

@[simp] theorem get_page_num_get_mem_addr (p : Nat) :
    cfg.get_page_num (cfg.get_mem_addr p) = p :=
  Nat.mul_div_cancel p cfg.page_size_pos

theorem get_mem_addr_le (a : Nat) : cfg.get_mem_addr (cfg.get_page_num a) ≤ a :=
  Nat.div_mul_le_self a cfg.page_size

theorem lt_next_page (a : Nat) :
    a < cfg.get_mem_addr (cfg.get_page_num a) + cfg.page_size :=
  Nat.lt_div_mul_add cfg.page_size_pos

/-- An access lies in one page. -/
theorem access_in_one_page (m : MemAccess) :
    cfg.get_page_num (m.addr + m.size - 1) = cfg.get_page_num m.addr := by
  obtain ⟨k, hk⟩ := cfg.four_k_dvd
  have hpos := m.size_pos
  have hin := m.in_page
  unfold get_page_num
  have hlt : (m.addr + m.size - 1) / 4096 = m.addr / 4096 := by omega
  rw [hk, ← Nat.div_div_eq_div_mul, ← Nat.div_div_eq_div_mul, hlt]

end Config

end gpgpu_sim_uvm
