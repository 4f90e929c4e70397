-- The cost of a transfer under protected allocations: `get_ready_cycle` splits the bytes of
-- its pages among the managed allocations, and some of them are encrypted.
import GpgpuSimUvm.System
import Mathlib.Algebra.Order.Floor.Ring
import Mathlib.Data.Rat.Floor

namespace gpgpu_sim_uvm

/-! ## Sensitive allocations -/

inductive CryptoLevel
  | NIL | C | I | F | CI | IF | CF | CIF
  deriving DecidableEq, Repr

def CryptoLevel.all : List CryptoLevel := [.NIL, .C, .I, .F, .CI, .IF, .CF, .CIF]

structure SensitivityInfo where
  _cl : CryptoLevel
  _protected : Bool
  protect_percentage : Int
  deriving DecidableEq

structure SensitiveAllocation extends AllocationInfo where
  si : SensitivityInfo
  deriving DecidableEq

/-- What the options fix. The percentage is one that the assertion accepts. The cycles of so
many bytes, pages or encrypted bytes are floating-point arithmetic. -/
structure CryptoConfig extends Config where
  per_alloc_secure_percentage : Nat
  percentage_ok : 0 < per_alloc_secure_percentage ∧ per_alloc_secure_percentage ≤ 100
  unprotected_cycles : Nat → Nat
  protected_cycles : CryptoLevel → Nat → Nat
  need_cycles : Nat → Nat

/-- The members of `gpgpu_t` that managed memory is allocated from. -/
structure ManagedHeap where
  m_dev_malloc_managed : Nat := GLOBAL_HEAP_START + GLOBAL_MEM_SIZE_MAX
  managedAllocations : List SensitiveAllocation := []
  contain_crypto_info : Bool := false

variable (cfg : CryptoConfig)

def gpu_insert_managed_allocation (h : ManagedHeap) (cpuMemAddr gpuMemAddr size : Nat)
    (cl : CryptoLevel) : ManagedHeap :=
  { h with
    contain_crypto_info := h.contain_crypto_info || decide (cl ≠ .NIL)
    managedAllocations := h.managedAllocations.orderedInsert
      (fun a b => a.cpu_mem_addr ≤ b.cpu_mem_addr)
      { cpu_mem_addr := cpuMemAddr
        gpu_mem_addr := gpuMemAddr
        allocation_size := size
        si :=
          if cl ≠ .NIL then
            { _cl := cl, _protected := true, protect_percentage := cfg.per_alloc_secure_percentage }
          else { _cl := cl, _protected := false, protect_percentage := -1 } } }

/-- `cudaMallocCryptoManaged` of a size that is not 0; `cudaMallocManaged` does the same with
the level `NIL`. -/
def cudaMallocCryptoManaged (h : ManagedHeap) (cpuMemPtr size : Nat) (crypto_level : CryptoLevel) :
    Option ManagedHeap :=
  let size := roundedSize size
  let gpuMemPtr := h.m_dev_malloc_managed
  if gpuMemPtr + size ≤ MEM_SPACE_LIMIT then
    some (gpu_insert_managed_allocation cfg
      { h with m_dev_malloc_managed := bumped gpuMemPtr size } cpuMemPtr gpuMemPtr size crypto_level)
  else none

/-- The heaps of all runs of the two allocators. `malloc` gives each buffer an address of its
own. -/
inductive Heaps : ManagedHeap → Prop
  | start : Heaps {}
  | allocate {h h' : ManagedHeap} (hh : Heaps h) (cpuMemPtr size : Nat) (level : CryptoLevel)
    (fresh : ∀ a ∈ h.managedAllocations, a.cpu_mem_addr ≠ cpuMemPtr)
    (done : cudaMallocCryptoManaged cfg h cpuMemPtr size level = some h') : Heaps h'

/-! ## The cost of a transfer -/

/-- The locals of the loop over the allocations. -/
structure Tally where
  calculated_size : Nat := 0
  crypto_cal_size : ℚ := 0
  /-- The entries that the map has. -/
  crypto_overhead : CryptoLevel → Option Nat := fun _ => none

/-- The four tests on a transfer and an allocation, with both ends included. -/
def regionsMeet (start_addr end_addr gpu_start_addr gpu_end_addr : Nat) : Bool :=
  let region1 := (start_addr ≤ gpu_start_addr ∧ gpu_start_addr ≤ end_addr) ∧
    start_addr ≤ gpu_end_addr ∧ gpu_end_addr ≤ end_addr
  let region2 := (gpu_start_addr ≤ start_addr ∧ gpu_start_addr ≤ end_addr) ∧
    start_addr ≤ gpu_end_addr ∧ gpu_end_addr ≤ end_addr
  let region3 := (start_addr ≤ gpu_start_addr ∧ gpu_start_addr ≤ end_addr) ∧
    start_addr ≤ gpu_end_addr ∧ end_addr ≤ gpu_end_addr
  let region4 := (gpu_start_addr ≤ start_addr ∧ gpu_start_addr ≤ end_addr) ∧
    start_addr ≤ gpu_end_addr ∧ end_addr ≤ gpu_end_addr
  decide (region1 ∨ region2 ∨ region3 ∨ region4)

/-- One turn of the loop. -/
def countAllocation (start_addr end_addr : Nat) (t : Tally) (ali : SensitiveAllocation) : Tally :=
  let gpu_end_addr := ali.gpu_mem_addr + ali.allocation_size
  if regionsMeet start_addr end_addr ali.gpu_mem_addr gpu_end_addr then
    let processed_size := min end_addr gpu_end_addr - max start_addr ali.gpu_mem_addr
    let crypto_protect_size : ℚ :=
      (ali.si.protect_percentage : ℚ) / 100 * processed_size * if ali.si._protected then 1 else 0
    { calculated_size := t.calculated_size + processed_size
      crypto_cal_size := t.crypto_cal_size + crypto_protect_size
      crypto_overhead := fun cl =>
        if cl = ali.si._cl then
          some ((t.crypto_overhead cl).getD 0 + ⌈crypto_protect_size / 16⌉.toNat * 16)
        else t.crypto_overhead cl }
  else t

def startAddr (page_list : List Nat) : Nat := cfg.get_mem_addr (page_list.headD 0)

def endAddr (page_list : List Nat) : Nat :=
  startAddr cfg page_list + cfg.page_size * page_list.length

def tally (h : ManagedHeap) (page_list : List Nat) : Tally :=
  h.managedAllocations.foldl
    (countAllocation (startAddr cfg page_list) (endAddr cfg page_list)) {}

def Tally.remained_normal_size (t : Tally) : Nat :=
  t.calculated_size - ⌈t.crypto_cal_size⌉.toNat

/-- The cycle in which a transfer is ready. No result is a failed assertion. -/
def get_ready_cycle (h : ManagedHeap) (now : Nat) (page_list : List Nat) : Option Nat :=
  if h.contain_crypto_info then
    let t := tally cfg h page_list
    if t.calculated_size = cfg.page_size * page_list.length ∧ 0 < t.remained_normal_size then
      let crypto := (CryptoLevel.all.filterMap fun cl =>
        (t.crypto_overhead cl).map (cfg.protected_cycles cl)).sum
      some (now + (cfg.unprotected_cycles t.remained_normal_size + crypto) % 4294967296)
    else none
  else some (now + cfg.need_cycles page_list.length)

end gpgpu_sim_uvm
