-- The dispatch of CTAs (gpu-sim.cc, shader.cc): which kernel is selected, which core takes
-- its next CTA, and what the exit of the last thread of a CTA and of a kernel does.
import GpgpuSimUvm.Grids
import GpgpuSimUvm.HwThreads
import Mathlib.Logic.Function.Basic

namespace gpgpu_sim_uvm.cta_dispatch

/-! ## Kernels and configurations -/

/-- What a launch fixes of a `kernel_info_t`, with the needs of its function. -/
structure Launch where
  m_grid_dim : Dim3
  m_block_dim : Dim3
  threads_pos : 0 < (m_block_dim.x * m_block_dim.y * m_block_dim.z).toNat
  smem : Nat := 0
  regs : Nat := 0
  m_kernel_TB_latency : Nat := 0

namespace Launch

variable (k : Launch)

def num_blocks : Nat := (k.m_grid_dim.x * k.m_grid_dim.y * k.m_grid_dim.z).toNat

def info : KernelInfo where
  threads_per_cta := (k.m_block_dim.x * k.m_block_dim.y * k.m_block_dim.z).toNat
  threads_pos := k.threads_pos
  smem := k.smem
  regs := k.regs

/-- The kernel with a CTA to issue next. -/
def next (cta : Dim3) : LaunchInfo := ⟨k.m_grid_dim, k.m_block_dim, cta, ⟨0, 0, 0⟩⟩

end Launch

structure DispatchConfig extends ShaderCoreConfig where
  n_simt_clusters : Nat
  n_simt_cores_per_cluster : Nat
  max_concurrent_kernel : Nat
  gpu_max_cta_opt : Nat := 0
  gpgpu_concurrent_kernel_sm : Bool := false
  gpgpu_ignore_resources_limitation : Bool := false

def MAX_CTA_PER_SHADER : Nat := 32

namespace DispatchConfig

variable (cfg : DispatchConfig)

def num_shader : Nat := cfg.n_simt_clusters * cfg.n_simt_cores_per_cluster

/-- `shader_core_config::max_cta`. None is an `abort` or a failed assertion, here and
in what follows. -/
def max_cta (k : Launch) : Option Nat :=
  let result := cfg.n_thread_per_shader / padded_cta_size cfg.toShaderCoreConfig k.info
  let result := if 0 < k.smem then min result (cfg.gpgpu_shmem_size / k.smem) else result
  let result :=
    if 0 < k.regs then
      min result (cfg.gpgpu_shader_registers / used_regs cfg.toShaderCoreConfig k.info)
    else result
  let result := min result cfg.max_cta_per_core
  -- a small grid is spread over the cores
  let result :=
    if k.num_blocks < result * cfg.num_shader then
      k.num_blocks / cfg.num_shader + if k.num_blocks % cfg.num_shader = 0 then 0 else 1
    else result
  if MAX_CTA_PER_SHADER < result then none
  else if result < 1 then if cfg.gpgpu_ignore_resources_limitation then some 1 else none
  else some result

end DispatchConfig

/-! ## The state -/

/-- What changes of a `kernel_info_t` that runs. -/
structure Kernel where
  m_next_cta : Dim3 := ⟨0, 0, 0⟩
  m_num_cores_running : Nat := 0
  m_kernel_TB_latency : Nat := 0

/-- A cluster and one of its cores. -/
abbrev Sid := Nat × Nat

/-- A `shader_core_ctx`, with the kernel and the CTA that the threads of a slot belong to. -/
structure Core where
  hw : ShaderCore
  cta_of : Nat → Nat × Dim3 := fun _ => (0, ⟨0, 0, 0⟩)
  m_kernel : Option Nat := none
  m_n_active_cta : Nat := 0
  m_not_completed : Nat := 0

/-- A CTA with threads that have not exited. -/
structure Cta where
  sid : Sid
  slot : Nat
  kernel : Nat
  ctaid : Dim3

def Cta.place (x : Cta) : Sid × Nat := (x.sid, x.slot)

def Cta.entry (x : Cta) : Nat × Dim3 := (x.kernel, x.ctaid)

/-- `gpgpu_sim`. A kernel is known by its uid. The last five fields are read by the
theorems only. -/
structure Gpu where
  m_running_kernels : List (Option Nat)
  m_last_issued_kernel : Nat := 0
  m_executed_kernel_uids : List Nat := []
  m_finished_kernel : List Nat := []
  m_last_cluster_issue : Nat
  /-- With `gpu_tot_issued_cta`. -/
  m_total_cta_launched : Nat := 0
  m_cta_issue_next_core : Nat → Nat
  m_core : Sid → Core
  kernels : Nat → Kernel := fun _ => {}
  launched : List Nat := []
  issued : List (Nat × Dim3) := []
  live : List Cta := []
  completed : List (Nat × Dim3) := []
  /-- All that `m_finished_kernel` was given. -/
  reported : List Nat := []

def Gpu.start (cfg : DispatchConfig) : Gpu where
  m_running_kernels := List.replicate cfg.max_concurrent_kernel none
  m_last_cluster_issue := cfg.n_simt_clusters - 1
  m_cta_issue_next_core := fun _ => cfg.n_simt_cores_per_cluster - 1
  m_core := fun _ => { hw := { kernel_of := fun _ => ⟨1, Nat.one_pos, 0, 0⟩ } }

namespace Gpu

variable (launches : Nat → Launch) (cfg : DispatchConfig) (g : Gpu)

/-! ## Selecting a kernel -/

def no_more_ctas_to_run (k : Nat) : Bool :=
  ((launches k).next (g.kernels k).m_next_cta).no_more_ctas_to_run

def running (k : Nat) : Bool := decide (0 < (g.kernels k).m_num_cores_running)

def done (k : Nat) : Bool := g.no_more_ctas_to_run launches k && !g.running k

def hit_max_cta_count : Bool :=
  decide (cfg.gpu_max_cta_opt ≠ 0) && decide (cfg.gpu_max_cta_opt ≤ g.m_total_cta_launched)

def kernel_more_cta_left (kernel : Option Nat) : Bool :=
  !g.hit_max_cta_count cfg && kernel.any fun k => !g.no_more_ctas_to_run launches k

/-- A place of `m_running_kernels` that a launch can take. -/
def isFree (kernel : Option Nat) : Bool := kernel.all fun k => g.done launches k

def can_start_kernel : Bool := g.m_running_kernels.any (g.isFree launches)

def launch (k : Nat) : Option Gpu :=
  if cfg.n_thread_per_shader < (launches k).info.threads_per_cta then none
  else
    (g.m_running_kernels.findIdx? (g.isFree launches)).map fun n =>
      { g with
        m_running_kernels := g.m_running_kernels.set n (some k)
        kernels := Function.update g.kernels k
          { m_kernel_TB_latency := (launches k).m_kernel_TB_latency }
        launched := g.launched ++ [k] }

/-- The kernel that is asked first. -/
def lastIssued : Option Nat :=
  g.m_running_kernels[g.m_last_issued_kernel]?.join.filter fun k =>
    !g.no_more_ctas_to_run launches k && decide ((g.kernels k).m_kernel_TB_latency = 0)

/-- The kernel at `idx`, if the loop takes it. -/
def candidate (idx : Nat) : Option (Nat × Nat) :=
  (g.m_running_kernels[idx]?.join.filter fun k =>
    g.kernel_more_cta_left launches cfg (some k) &&
      decide ((g.kernels k).m_kernel_TB_latency = 0)).map fun k => (idx, k)

def select_kernel : Option (Gpu × Option Nat) :=
  match g.lastIssued launches with
  | some k =>
    if k ∈ g.m_executed_kernel_uids then some (g, some k)
    else some ({ g with m_executed_kernel_uids := g.m_executed_kernel_uids ++ [k] }, some k)
  | none =>
    match (List.range g.m_running_kernels.length).findSome? fun n =>
        g.candidate launches cfg
          ((n + g.m_last_issued_kernel + 1) % cfg.max_concurrent_kernel) with
    | some (idx, k) =>
      if k ∈ g.m_executed_kernel_uids then none
      else
        some ({ g with
          m_last_issued_kernel := idx
          m_executed_kernel_uids := g.m_executed_kernel_uids ++ [k] }, some k)
    | none => some (g, none)

/-! ## Issuing a CTA -/

def setCore (c : Sid) (core : Core) : Gpu :=
  { g with m_core := Function.update g.m_core c core }

/-- The kernel of a core, or a new one when the core is empty. -/
def kernelFor (c : Sid) : Option (Gpu × Option Nat) :=
  if cfg.gpgpu_concurrent_kernel_sm then g.select_kernel launches cfg
  else if g.kernel_more_cta_left launches cfg (g.m_core c).m_kernel then
    some (g, (g.m_core c).m_kernel)
  else if (g.m_core c).m_not_completed = 0 then
    (g.select_kernel launches cfg).map fun
      | (g, some k) => (g.setCore c { g.m_core c with m_kernel := some k }, some k)
      | (g, none) => (g, none)
  else some (g, (g.m_core c).m_kernel)

def can_issue_1block (c : Sid) (k : Nat) : Option Bool :=
  (cfg.max_cta (launches k)).bind fun most =>
    if cfg.gpgpu_concurrent_kernel_sm then
      if most < 1 then some false
      else
        occupy_shader_resource_1block cfg.toShaderCoreConfig (g.m_core c).hw (launches k).info
    else some (decide ((g.m_core c).m_n_active_cta < most))

end Gpu

/-- The free CTA context that is found, with its threads counted. -/
def takeSlot (cfg : DispatchConfig) (hw : ShaderCore) (k : Launch) : Option (Nat × ShaderCore) :=
  if cfg.gpgpu_concurrent_kernel_sm then
    (freeSlot cfg.toShaderCoreConfig hw).bind fun i =>
      (issue_block2core cfg.toShaderCoreConfig hw k.info).map fun hw => (i, hw)
  else
    (cfg.max_cta k).bind fun most =>
      ((List.range most).find? fun i => decide (hw.m_cta_status i = 0)).map fun i =>
        (i, { hw with
          m_cta_status := Function.update hw.m_cta_status i k.info.threads_per_cta })

/-- A thread of the CTA context exits. -/
def exitSlot (cfg : DispatchConfig) (hw : ShaderCore) (i : Nat) : Option ShaderCore :=
  if cfg.gpgpu_concurrent_kernel_sm then
    register_cta_thread_exit cfg.toShaderCoreConfig hw i
  else if hw.m_cta_status i = 0 then none
  else some { hw with m_cta_status := Function.update hw.m_cta_status i (hw.m_cta_status i - 1) }

namespace Gpu

variable (launches : Nat → Launch) (cfg : DispatchConfig) (g : Gpu)

/-- `shader_core_ctx::issue_block2core`. The threads are those that `ptx_sim_init_thread`
makes of the block, which the assertion there bounds by the size of the CTA. -/
def issueOnCore (c : Sid) (k : Nat) : Option Gpu :=
  if (launches k).info.threads_per_cta < (launches k).m_block_dim.volume then none
  else
    (takeSlot cfg (g.m_core c).hw (launches k)).map fun (slot, hw) =>
      let kernel := g.kernels k
      let core := g.m_core c
      { g with
        kernels := Function.update g.kernels k { kernel with
          m_next_cta := ((launches k).next kernel.m_next_cta).increment_cta_id.m_next_cta
          m_num_cores_running := kernel.m_num_cores_running + 1 }
        m_core := Function.update g.m_core c { core with
          hw := hw
          cta_of := Function.update core.cta_of slot (k, kernel.m_next_cta)
          m_n_active_cta := core.m_n_active_cta + 1
          m_not_completed := core.m_not_completed + (launches k).info.threads_per_cta }
        issued := g.issued ++ [(k, kernel.m_next_cta)]
        live := g.live ++ [⟨c, slot, k, kernel.m_next_cta⟩] }

/-- `simt_core_cluster::issue_block2core` over the cores that are left, with the number
of CTAs issued. -/
def issueOnCluster (cluster : Nat) (g : Gpu) : List Nat → Option (Gpu × Nat)
  | [] => some (g, 0)
  | core :: cores =>
    (g.kernelFor launches cfg (cluster, core)).bind fun
      | (g, none) => issueOnCluster cluster g cores
      | (g, some k) =>
        if g.kernel_more_cta_left launches cfg (some k) then
          (g.can_issue_1block launches cfg (cluster, core) k).bind fun ok =>
            if ok then
              (g.issueOnCore launches cfg (cluster, core) k).map fun g =>
                ({ g with
                  m_cta_issue_next_core :=
                    Function.update g.m_cta_issue_next_core cluster core }, 1)
            else issueOnCluster cluster g cores
        else issueOnCluster cluster g cores

/-- The indices behind the last one, around the ring. -/
def around (n last : Nat) : List Nat := (List.range n).map fun i => (i + last + 1) % n

/-- `gpgpu_sim::issue_block2core` over the clusters that are left. -/
def issueOnClusters (g : Gpu) : List Nat → Option Gpu
  | [] => some g
  | idx :: idxs =>
    (issueOnCluster launches cfg idx g
        (around cfg.n_simt_cores_per_cluster (g.m_cta_issue_next_core idx))).bind fun (g, num) =>
      if num = 0 then issueOnClusters g idxs
      else
        issueOnClusters { g with
          m_last_cluster_issue := idx
          m_total_cta_launched := g.m_total_cta_launched + num } idxs

def issue_block2core : Option Gpu :=
  issueOnClusters launches cfg g (around cfg.n_simt_clusters g.m_last_cluster_issue)

/-! ## The end of a CTA and of a kernel -/

def set_kernel_done (k : Nat) : Option Gpu :=
  (g.m_running_kernels.findIdx? fun kernel => decide (kernel = some k)).map fun n =>
    { g with
      m_running_kernels := g.m_running_kernels.set n none
      m_finished_kernel := g.m_finished_kernel ++ [k]
      reported := g.reported ++ [k] }

/-- The CTA of a context is complete. -/
def retire (c : Sid) (core : Core) (slot : Nat) (m_kernel : Option Nat) : Gpu :=
  let k := (core.cta_of slot).1
  { g with
    kernels := Function.update g.kernels k { g.kernels k with
      m_num_cores_running := (g.kernels k).m_num_cores_running - 1 }
    m_core := Function.update g.m_core c { core with
      m_n_active_cta := core.m_n_active_cta - 1
      m_kernel := m_kernel }
    completed := g.completed ++ [core.cta_of slot]
    live := g.live.filter fun x => decide (x.place ≠ (c, slot)) }

/-- What `register_cta_thread_exit` does for the last thread of a CTA. -/
def finishCta (c : Sid) (core : Core) (slot : Nat) : Option Gpu :=
  let k := (core.cta_of slot).1
  -- the core is empty while its kernel has CTAs left
  if core.m_n_active_cta - 1 = 0 ∧ core.m_kernel ≠ some k ∧
      g.kernel_more_cta_left launches cfg core.m_kernel = true then none
  else if (g.kernels k).m_num_cores_running = 0 then none
  else
    let m_kernel := if core.m_n_active_cta - 1 = 0 then none else core.m_kernel
    let last := (g.kernels k).m_num_cores_running - 1 = 0 ∧
      g.kernel_more_cta_left launches cfg (some k) = false
    let g := g.retire c core slot (if last ∧ m_kernel = some k then none else m_kernel)
    if last then g.set_kernel_done k else some g

/-- A thread exits in `shader_core_ctx::fetch`. -/
def thread_exit (c : Sid) (slot : Nat) : Option Gpu :=
  (exitSlot cfg (g.m_core c).hw slot).bind fun hw =>
    let core := { g.m_core c with
      hw := hw
      m_not_completed := (g.m_core c).m_not_completed - 1 }
    if hw.m_cta_status slot = 0 then g.finishCta launches cfg c core slot
    else some (g.setCore c core)

end Gpu

/-! ## What the simulator calls -/

inductive GpuCall
  | launch (k : Nat)
  | issue_block2core
  | thread_exit (c : Sid) (slot : Nat)
  /-- The stream manager takes a finished kernel. -/
  | finished_kernel
  | decrement_kernel_latency
  /-- The statistics of a kernel were printed. -/
  | clear_executed_kernel_info

namespace Gpu

variable (launches : Nat → Launch) (cfg : DispatchConfig)

def decrement_kernel_latency (g : Gpu) : Gpu :=
  { g with
    kernels := fun k =>
      if g.m_running_kernels.any fun kernel => decide (kernel = some k) then
        { g.kernels k with m_kernel_TB_latency := (g.kernels k).m_kernel_TB_latency - 1 }
      else g.kernels k }

def step (g : Gpu) : GpuCall → Option Gpu
  | .launch k => g.launch launches cfg k
  | .issue_block2core => g.issue_block2core launches cfg
  | .thread_exit c slot => g.thread_exit launches cfg c slot
  | .finished_kernel => some { g with m_finished_kernel := g.m_finished_kernel.tail }
  | .decrement_kernel_latency => some g.decrement_kernel_latency
  | .clear_executed_kernel_info => some { g with m_executed_kernel_uids := [] }

/-- A kernel is launched once, with a grid that is not empty. -/
def Proper (g : Gpu) : GpuCall → Prop
  | .launch k => k ∉ g.launched ∧ (launches k).m_grid_dim.Positive
  | .issue_block2core | .thread_exit _ _ | .finished_kernel | .decrement_kernel_latency
  | .clear_executed_kernel_info => True

end Gpu

end gpgpu_sim_uvm.cta_dispatch
