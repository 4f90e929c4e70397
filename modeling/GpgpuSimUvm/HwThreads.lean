-- The hardware threads of one SM when kernels run side by side (gpu-sim.cc):
-- each CTA takes a range of thread ids, and the SM counts threads, shared
-- memory, registers and CTAs. The search for a range steps by the size of the
-- new CTA, so that its last probe can reach behind the last thread.
import GpgpuSimUvm.StdMap
import GpgpuSimUvm.Monitor
import Mathlib.Algebra.BigOperators.Group.Finset.Basic
import Mathlib.Tactic

namespace gpgpu_sim_uvm

open monitor

/-! ## The source -/

/-- What `shader_core_config` says about the room of one SM. -/
structure ShaderCoreConfig where
  n_thread_per_shader : Nat
  warp_size : Nat
  gpgpu_shmem_size : Nat
  gpgpu_shader_registers : Nat
  max_cta_per_core : Nat
  /-- The length of the bitset `m_occupied_hwtid`. -/
  MAX_THREAD_PER_SM : Nat

/-- What `kernel_info_t` and `gpgpu_ptx_sim_info` say about the CTAs of a kernel. -/
structure KernelInfo where
  threads_per_cta : Nat
  threads_pos : 0 < threads_per_cta
  smem : Nat
  regs : Nat

/-- The part of `shader_core_ctx` that hands out hardware threads. -/
structure ShaderCore where
  m_occupied_n_threads : Nat := 0
  m_occupied_shmem : Nat := 0
  m_occupied_regs : Nat := 0
  m_occupied_ctas : Nat := 0
  m_occupied_hwtid : Nat → Bool := fun _ => false
  m_occupied_cta_to_hwtid : StdMap Nat Nat := .empty
  /-- The threads of each CTA slot that have not exited. -/
  m_cta_status : Nat → Nat := fun _ => 0
  /-- The kernel that the threads of a CTA slot belong to. -/
  kernel_of : Nat → KernelInfo

variable (cfg : ShaderCoreConfig)

/-- `padded_cta_size`: whole warps. -/
def padded_cta_size (k : KernelInfo) : Nat :=
  if k.threads_per_cta % cfg.warp_size ≠ 0 then
    (k.threads_per_cta / cfg.warp_size + 1) * cfg.warp_size
  else k.threads_per_cta

/-- `padded_cta_size * ((kernel_info->regs + 3) & ~3)` -/
def used_regs (k : KernelInfo) : Nat := padded_cta_size cfg k * ((k.regs + 3) / 4 * 4)

/-- Whether none of `size` threads from `t` on is occupied, and none where the
bitset is asked for a bit that it does not have. -/
def rangeFree (occupied : Nat → Bool) : Nat → Nat → Option Bool
  | _, 0 => some true
  | t, size + 1 =>
    if cfg.MAX_THREAD_PER_SM ≤ t then none
    else if occupied t then some false
    else rangeFree occupied (t + 1) size

/-- The search loop from `step` on, with at most `n` probes. -/
def probe (occupied : Nat → Bool) (cta_size : Nat) : Nat → Nat → Option (Option Nat)
  | 0, _ => some none
  | n + 1, step =>
    if cfg.n_thread_per_shader ≤ step then some none
    else
      (rangeFree cfg occupied step cta_size).bind fun free =>
        if free then some (some step) else probe occupied cta_size n (step + cta_size)

/-- `find_available_hwtid` without its marks. The inner none is its -1. -/
def find_available_hwtid (s : ShaderCore) (cta_size : Nat) : Option (Option Nat) :=
  probe cfg s.m_occupied_hwtid cta_size (cfg.n_thread_per_shader + 1) 0

/-- The tests of `occupy_shader_resource_1block`. -/
def occupy_shader_resource_1block (s : ShaderCore) (k : KernelInfo) : Option Bool :=
  let padded := padded_cta_size cfg k
  if cfg.n_thread_per_shader < s.m_occupied_n_threads + padded then some false
  else
    (find_available_hwtid cfg s padded).map fun found =>
      found.isSome &&
        decide (s.m_occupied_shmem + k.smem ≤ cfg.gpgpu_shmem_size ∧
          s.m_occupied_regs + used_regs cfg k ≤ cfg.gpgpu_shader_registers ∧
          s.m_occupied_ctas + 1 ≤ cfg.max_cta_per_core)

/-- The state behind `issue_block2core`, on the CTA slot and the range that it
has found. -/
def takeRange (s : ShaderCore) (k : KernelInfo) (free_cta_hw_id start_thread : Nat) :
    ShaderCore where
  m_occupied_n_threads := s.m_occupied_n_threads + padded_cta_size cfg k
  m_occupied_shmem := s.m_occupied_shmem + k.smem
  m_occupied_regs := s.m_occupied_regs + used_regs cfg k
  m_occupied_ctas := s.m_occupied_ctas + 1
  m_occupied_hwtid := fun t =>
    s.m_occupied_hwtid t ||
      decide (start_thread ≤ t ∧ t < start_thread + padded_cta_size cfg k)
  m_occupied_cta_to_hwtid :=
    s.m_occupied_cta_to_hwtid.alter free_cta_hw_id 0 fun _ => start_thread
  m_cta_status := fun i => if i = free_cta_hw_id then k.threads_per_cta else s.m_cta_status i
  kernel_of := fun i => if i = free_cta_hw_id then k else s.kernel_of i

/-- The first CTA slot without threads. -/
def freeSlot (s : ShaderCore) : Option Nat :=
  (List.range cfg.max_cta_per_core).find? fun i => decide (s.m_cta_status i = 0)

/-- `issue_block2core`; none where an assertion fails or the bitset throws. -/
def issue_block2core (s : ShaderCore) (k : KernelInfo) : Option ShaderCore :=
  match occupy_shader_resource_1block cfg s k, freeSlot cfg s,
      find_available_hwtid cfg s (padded_cta_size cfg k) with
  | some true, some free_cta_hw_id, some (some start_thread) =>
    if s.m_occupied_cta_to_hwtid.contains free_cta_hw_id then none
    else some (takeRange cfg s k free_cta_hw_id start_thread)
  | _, _, _ => none

/-- `release_shader_resource_1block`; none where an assertion fails. -/
def release_shader_resource_1block (s : ShaderCore) (hw_ctaid : Nat) (k : KernelInfo) :
    Option ShaderCore :=
  let padded := padded_cta_size cfg k
  let start_thread := s.m_occupied_cta_to_hwtid.findD hw_ctaid 0
  if padded ≤ s.m_occupied_n_threads ∧ k.smem ≤ s.m_occupied_shmem ∧
      used_regs cfg k ≤ s.m_occupied_regs ∧ 1 ≤ s.m_occupied_ctas then
    some { s with
      m_occupied_n_threads := s.m_occupied_n_threads - padded
      m_occupied_shmem := s.m_occupied_shmem - k.smem
      m_occupied_regs := s.m_occupied_regs - used_regs cfg k
      m_occupied_ctas := s.m_occupied_ctas - 1
      m_occupied_hwtid := fun t =>
        s.m_occupied_hwtid t && !decide (start_thread ≤ t ∧ t < start_thread + padded)
      m_occupied_cta_to_hwtid := s.m_occupied_cta_to_hwtid.erase hw_ctaid }
  else none

/-- `register_cta_thread_exit`. The last thread of a CTA completes it. -/
def register_cta_thread_exit (s : ShaderCore) (cta_num : Nat) : Option ShaderCore :=
  if s.m_cta_status cta_num = 0 then none
  else
    let left := s.m_cta_status cta_num - 1
    let s := { s with m_cta_status := fun i => if i = cta_num then left else s.m_cta_status i }
    if left = 0 then release_shader_resource_1block cfg s cta_num (s.kernel_of cta_num) else some s

/-- The CTA slots that have threads. -/
def liveCtas (s : ShaderCore) : Finset Nat :=
  (Finset.range cfg.max_cta_per_core).filter fun i => 0 < s.m_cta_status i

/-- The sum of a need of the live CTAs. -/
def total (s : ShaderCore) (need : KernelInfo → Nat) : Nat :=
  ∑ i ∈ liveCtas cfg s, need (s.kernel_of i)

end gpgpu_sim_uvm
