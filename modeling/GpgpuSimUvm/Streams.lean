-- The streams: the operations that the host pushes, the stream manager that starts them one by
-- one, and the kernels and prefetches that complete later. Each host thread inside `push`, and
-- the GPU thread when it launches a kernel for the device, is a call with a phase of its own.
import GpgpuSimUvm.System
import GpgpuSimUvm.InOrder
import Mathlib.Logic.Function.Basic

namespace gpgpu_sim_uvm.stream_manager

/-! ## Operations and streams -/

inductive MemcpyType
  | host_to_device
  | device_to_host
  | device_to_device
  | to_symbol
  | from_symbol
  deriving DecidableEq

/-- `stream_operation_type`, with what the operation reads. The no-op of the manager is the
missing operation. -/
inductive StreamOperationType
  | stream_memcpy (type : MemcpyType)
  | stream_prefetch_host_to_device (m_device_address_dst m_cnt : Nat)
  | stream_kernel_launch (grid_uid : Nat) (m_sim_mode : Bool)
  | stream_event (event : Nat)
  | stream_wait_event (event m_cnt : Nat)
  deriving DecidableEq

/-- `stream_operation`, with the number of its push. -/
structure StreamOperation where
  m_type : StreamOperationType
  m_stream : Option Nat
  number : Nat := 0
  deriving DecidableEq

def StreamOperation.grid (op : StreamOperation) : Option Nat :=
  match op.m_type with
  | .stream_kernel_launch uid _ => some uid
  | _ => none

/-- `CUstream_st`, by its uid. The default stream has the uid 0. -/
structure CUstream where
  m_operations : List StreamOperation := []
  m_pending : Bool := false
  deriving DecidableEq

/-- `kernel_info_t` -/
structure KernelInfo where
  m_launch_latency : Nat := 0
  m_parent_kernel : Option Nat := none
  m_child_kernels : List Nat := []
  done : Bool := false

def KernelInfo.is_finished (k : KernelInfo) : Bool := k.done && k.m_child_kernels.isEmpty

/-- Where a call of `push` stands: it waits for the concurrent streams, it is about to push, or
it waits until all streams are empty. -/
inductive PushPhase
  | blocked
  | ready
  | waiting
  deriving DecidableEq

structure PushCall where
  op : StreamOperation
  phase : PushPhase
  /-- The GPU thread makes the call, for a kernel that the device launches. -/
  device : Bool
  deriving DecidableEq

/-- The stream manager, and what of the simulator it works with. -/
structure Streams where
  m_cuda_launch_blocking : Bool
  m_streams : List Nat := []
  stream : Nat → CUstream := fun _ => {}
  sm_next_stream_uid : Nat := 1
  m_service_stream_zero : Bool := false
  /-- none is `m_streams.end()` -/
  m_last_stream : Option Nat := none
  m_grid_id_to_stream : Nat → Option Nat := fun _ => none
  kernel : Nat → KernelInfo := fun _ => {}
  kernel_info_m_next_uid : Nat := 1
  /-- `m_cta_streams` of all kernels, the stream behind its kernel. -/
  m_cta_streams : List (Nat × Nat) := []
  m_running_kernels : List (Option Nat)
  m_finished_kernel : List Nat := []
  m_functional_sim_kernel : Option Nat := none
  num_issued : Nat → Nat := fun _ => 0
  num_updates : Nat → Nat := fun _ => 0
  prefetch_req_buffer : List PrefetchReq := []
  g_cuda_device_launch_op : List (Nat × Nat) := []
  calls : List PushCall := []
  pushes : Nat := 0
  /-- What happened to the operations of each stream, the latest event last. -/
  events : List (Nat × in_order.Event Nat) := []
  aborted : Bool := false

namespace Streams

variable (m : Streams)

/-- An assertion, or a pointer that must not be NULL. -/
def assert (b : Bool) : Streams := { m with aborted := m.aborted || !b }

def note (s : Nat) (e : in_order.Event Nat) : Streams := { m with events := m.events ++ [(s, e)] }

def setStream (s : Nat) (st : CUstream) : Streams :=
  { m with stream := Function.update m.stream s st }

/-- The first operation of a stream. -/
def head (s : Nat) : Option StreamOperation := (m.stream s).m_operations.head?

def empty (s : Nat) : Bool := (m.stream s).m_operations.isEmpty

def busy (s : Nat) : Bool := (m.stream s).m_pending

def record_next_done (s : Nat) : Streams :=
  match m.head s with
  | none => m.assert false
  | some op =>
    ((m.assert (m.busy s)).note s (.finished op.number)).setStream s
      { m_operations := (m.stream s).m_operations.tail }

def cancel_front (s : Nat) : Streams :=
  match m.head s with
  | none => m.assert false
  | some op =>
    ((m.assert (m.busy s)).note s (.cancelled op.number)).setStream s
      { m.stream s with m_pending := false }

/-- `next`, and for a kernel the entry of its grid. -/
def startNext (s : Nat) (op : StreamOperation) : Streams :=
  { (m.note s (.started op.number)).setStream s { m.stream s with m_pending := true } with
    m_grid_id_to_stream :=
      match op.grid with
      | some uid => Function.update m.m_grid_id_to_stream uid (some s)
      | none => m.m_grid_id_to_stream }

/-! ## The operations -/

def can_start_kernel : Bool := decide (none ∈ m.m_running_kernels)

/-- Puts the kernel into the first free slot. -/
def fillSlot (uid : Nat) : List (Option Nat) → List (Option Nat)
  | [] => []
  | none :: ks => some uid :: ks
  | some k :: ks => some k :: fillSlot uid ks

def launch (uid : Nat) : Streams :=
  { m with
    m_running_kernels := fillSlot uid m.m_running_kernels
    aborted := m.aborted || !m.can_start_kernel }

/-- The test of `activate_prefetch` on a request. -/
def isRequest (addr cnt s : Nat) (q : PrefetchReq) : Bool :=
  decide (q.start_addr = addr ∧ q.size = cnt ∧ q.m_stream = s)

def activate_prefetch (addr cnt s : Nat) : Streams :=
  { m with
    prefetch_req_buffer := activateFirst addr cnt s m.prefetch_req_buffer
    aborted := m.aborted ||
      (m.prefetch_req_buffer.find? (isRequest addr cnt s)).any fun q => decide (q.cur_addr ≠ addr) }

/-- `do_operation`, and whether it could be done. An operation takes effect where it copies,
launches, updates, goes on behind its event or finds the prefetch request that it activates. -/
def do_operation (op : StreamOperation) : Streams × Bool :=
  let s := op.m_stream.getD 0
  let m := m.assert op.m_stream.isSome
  let performed := m.note s (.performed op.number)
  match op.m_type with
  | .stream_memcpy _ => (performed.record_next_done s, true)
  | .stream_prefetch_host_to_device addr cnt =>
    if m.prefetch_req_buffer.any (isRequest addr cnt s) then
      (performed.activate_prefetch addr cnt s, true)
    else (m, true)
  | .stream_kernel_launch uid m_sim_mode =>
    if m_sim_mode then ({ performed with m_functional_sim_kernel := some uid }, true)
    else if m.can_start_kernel ∧ (m.kernel uid).m_launch_latency = 0 then
      (performed.launch uid, true)
    else
      ({ m with
          kernel := Function.update m.kernel uid
            { m.kernel uid with m_launch_latency := (m.kernel uid).m_launch_latency - 1 } }, false)
  | .stream_event event =>
    ({ performed with
        num_updates :=
          Function.update m.num_updates event (m.num_updates event + 1) }.record_next_done s, true)
  | .stream_wait_event event cnt =>
    if m.num_updates event ≥ cnt then (performed.record_next_done s, true) else (m, false)

/-! ## The manager -/

def concurrent_streams_empty : Bool := m.m_streams.all m.empty

def all_empty : Bool := m.concurrent_streams_empty && m.empty 0

/-- The streams in the order in which `front` visits them: from the one behind `m_last_stream`
on, once round. -/
def visits : List Nat :=
  match m.m_last_stream with
  | none => m.m_streams
  | some l =>
    (m.m_streams.dropWhile (· ≠ l)).tail ++ m.m_streams.takeWhile (· ≠ l) ++
      (m.m_streams.dropWhile (· ≠ l)).take 1

/-- The stream can start its first operation. -/
def servable (s : Nat) : Bool := !m.busy s && !m.empty s

/-- The stream that `front` serves, none for a no-op. -/
def served : Option Nat :=
  if m.servable 0 then some 0 else m.visits.find? m.servable

/-- The iterators behind `front`, which must point into the list. -/
def turnRound : Streams :=
  if m.servable 0 then { m with m_service_stream_zero := true }
  else
    { m with
      m_service_stream_zero := false
      m_last_stream :=
        match m.visits.find? m.servable with
        | some s => some s
        | none => m.visits.getLast?.or m.m_last_stream
      aborted := m.aborted || m.m_last_stream.any fun l => decide (l ∉ m.m_streams) }

/-- `destroy_stream`, on a stream that is empty. -/
def destroy_stream (s : Nat) : Streams :=
  { m with
    m_streams := m.m_streams.erase s
    stream := Function.update m.stream s {}
    m_last_stream := (m.m_streams.erase s).head?
    aborted := m.aborted || !(decide (s ∈ m.m_streams) && m.empty s) }

def destroy_cta_streams (uid : Nat) : Streams :=
  let streams := (m.m_cta_streams.filter fun c => decide (c.1 = uid)).map Prod.snd
  let m' := { m with m_cta_streams := m.m_cta_streams.filter fun c => decide (c.1 ≠ uid) }
  streams.foldl destroy_stream m'

def remove_child (parent uid : Nat) : Streams :=
  { m with
    kernel := Function.update m.kernel parent
      { m.kernel parent with m_child_kernels := (m.kernel parent).m_child_kernels.erase uid }
    aborted := m.aborted || decide (uid ∉ (m.kernel parent).m_child_kernels) }

/-- `m_grid_id_to_stream.erase` -/
def eraseGrid (uid : Nat) : Streams :=
  { m with m_grid_id_to_stream := Function.update m.m_grid_id_to_stream uid none }

/-- `register_finished_kernel`. A kernel that is finished tells its parent, which is an older
kernel: the recursion ends after at most `n` kernels. A grid without an entry is a NULL stream. -/
def register_finished_kernel : Nat → Streams → Nat → Streams × Bool
  | 0, m, _ => (m.assert false, false)
  | n + 1, m, grid_uid =>
    if grid_uid = 0 then (m, false)
    else
      match m.m_grid_id_to_stream grid_uid with
      | none => (m.assert false, false)
      | some s =>
        match (m.head s).bind StreamOperation.grid with
        | none => (m.assert false, false)
        | some uid =>
          let m := m.assert (decide (grid_uid = uid))
          if (m.kernel uid).is_finished then
            let m := (m.record_next_done s).eraseGrid grid_uid
            let m :=
              match (m.kernel uid).m_parent_kernel with
              | none => m
              | some parent => (register_finished_kernel n (m.remove_child parent uid) parent).1
            (m.destroy_cta_streams uid, true)
          else (m, false)

def check_finished_kernel : Streams × Bool :=
  register_finished_kernel m.kernel_info_m_next_uid
    { m with m_finished_kernel := m.m_finished_kernel.tail } (m.m_finished_kernel.headD 0)

/-- The front operation is tried, and cancelled if it could not be done. -/
def tryOperation (s : Nat) (op : StreamOperation) : Streams :=
  let d := (m.startNext s op).do_operation op
  if d.2 then d.1
  else
    (match op.grid with
      | some uid => d.1.eraseGrid uid
      | none => d.1).cancel_front (op.m_stream.getD 0)

def operation : Streams × Bool :=
  let c := m.check_finished_kernel
  let m := c.1.turnRound
  match c.1.served with
  | none => (m, c.2)
  | some s =>
    match m.head s with
    | none => (m, c.2)
    | some op => (m.tryOperation s op, c.2)

/-! ## The calls of the host -/

/-- `push` comes in. -/
def beginPush (op : StreamOperation) (device : Bool) : Streams :=
  let block := op.m_stream.isNone || m.m_cuda_launch_blocking
  { m with calls := m.calls ++ [⟨op, if block then .blocked else .ready, device⟩] }

/-- The stream that an operation is pushed to. -/
def target (op : StreamOperation) : Nat :=
  if m.m_cuda_launch_blocking then 0 else op.m_stream.getD 0

def pushOperation (op : StreamOperation) : Streams :=
  let s := m.target op
  let op := { op with m_stream := some s, number := m.pushes }
  ({ m with pushes := m.pushes + 1 }.note s (.pushed op.number)).setStream s
    { m.stream s with m_operations := (m.stream s).m_operations ++ [op] }

/-- The call waits at the end of `push`. -/
def waitsForAll (op : StreamOperation) : Bool :=
  m.m_cuda_launch_blocking || op.m_stream.isNone || op.grid.isSome

/-- The call number `i` pushes, unless a maximum count was hit. -/
def finishPush (i : Nat) (c : PushCall) (max_hit : Bool) : Streams :=
  let m' := if max_hit then m else m.pushOperation c.op
  { m' with
    calls :=
      if m.waitsForAll c.op then m.calls.set i { c with phase := .waiting }
      else m.calls.eraseIdx i }

def register_prefetch (addr allocation cnt : Nat) (s : Option Nat) : Streams :=
  { m with
    prefetch_req_buffer := m.prefetch_req_buffer ++
      [{ start_addr := addr, cur_addr := addr, allocation_addr := allocation, size := cnt,
         m_stream := s.getD 0 }] }

def newKernel (latency : Nat) (parent : Option Nat) : Streams :=
  { m with
    kernel := Function.update m.kernel m.kernel_info_m_next_uid
      { m_launch_latency := latency, m_parent_kernel := parent }
    kernel_info_m_next_uid := m.kernel_info_m_next_uid + 1 }

def add_stream : Streams :=
  { m with
    m_streams := m.m_streams ++ [m.sm_next_stream_uid]
    stream := Function.update m.stream m.sm_next_stream_uid {}
    sm_next_stream_uid := m.sm_next_stream_uid + 1 }

/-! ## The steps -/

inductive Action
  | cudaStreamCreate
  | cudaStreamDestroy (s : Nat)
  | cudaMemcpyAsync (type : MemcpyType) (s : Option Nat)
  | cudaLaunch (latency : Nat) (sim_mode : Bool) (s : Option Nat)
  | cudaEventRecord (event : Nat) (s : Option Nat)
  /-- For the default stream, the host makes this call on each stream of `m_streams` in turn. -/
  | cudaStreamWaitEvent (event s : Nat)
  | cudaMemPrefetchAsync (addr allocation cnt : Nat) (s : Option Nat)
  /-- A blocked call finds the concurrent streams empty. -/
  | unblock (i : Nat)
  | push (i : Nat) (max_hit : Bool)
  /-- A waiting call finds all streams empty. -/
  | leave (i : Nat)
  | operation
  /-- The kernel of `functional_launch` runs to its end. -/
  | functional_sim
  /-- A running kernel ends, with all of its CTAs or stopped. -/
  | set_kernel_done (uid : Nat) (complete : Bool)
  | create_stream_cta (uid : Nat)
  /-- A thread of a running kernel makes a grid for a stream of its CTA. -/
  | device_grid (parent latency s : Nat) (sim_mode : Bool)
  | launch_one_device_kernel (sim_mode : Bool)
  /-- The GMMU works on the request in front. -/
  | prefetch_advance (n : Nat)
  | prefetch_done

/-- The stream of a CTA, which a thread on the device created. -/
def deviceStream (s : Nat) : Bool := decide (s ∈ m.m_cta_streams.map Prod.snd)

/-- A stream that the host can name: the default one, or one that it created. -/
def hostStream (s : Option Nat) : Bool :=
  s.all fun s => decide (s ∈ m.m_streams) && !m.deviceStream s

/-- The operations that are not pushed yet. -/
def coming : List StreamOperation :=
  (m.calls.filter fun c => decide (c.phase ≠ .waiting)).map PushCall.op

/-- The GPU thread is in no call of `push`. -/
def gpuFree : Bool := m.calls.all fun c => !c.device

/-- The GPU thread can go on with a cycle. -/
def gpuCycles : Bool := m.gpuFree && m.m_functional_sim_kernel.isNone

/-- The kernel has threads that run. -/
def runs (uid : Nat) : Bool :=
  decide (some uid ∈ m.m_running_kernels ∨ m.m_functional_sim_kernel = some uid)

def guard : Action → Bool
  | .cudaStreamCreate => true
  | .cudaStreamDestroy s =>
    m.hostStream (some s) && m.empty s && decide (∀ op ∈ m.coming, op.m_stream ≠ some s)
  | .cudaMemcpyAsync _ s | .cudaLaunch _ _ s | .cudaEventRecord _ s
  | .cudaMemPrefetchAsync _ _ _ s => m.hostStream s
  | .cudaStreamWaitEvent event s => decide (s ∈ m.m_streams) && decide (m.num_issued event ≠ 0)
  | .unblock i =>
    (m.calls[i]?).any (fun c => decide (c.phase = .blocked)) && m.concurrent_streams_empty
  | .push i _ => (m.calls[i]?).any fun c => decide (c.phase = .ready)
  | .leave i => (m.calls[i]?).any (fun c => decide (c.phase = .waiting)) && m.all_empty
  | .operation => m.gpuCycles
  | .functional_sim =>
    m.gpuFree && m.m_functional_sim_kernel.isSome && m.g_cuda_device_launch_op.isEmpty
  | .set_kernel_done uid _ => m.gpuCycles && decide (some uid ∈ m.m_running_kernels)
  | .create_stream_cta uid => m.gpuFree && m.runs uid
  | .device_grid parent _ s _ =>
    m.gpuFree && m.runs parent && decide ((parent, s) ∈ m.m_cta_streams)
  | .launch_one_device_kernel _ => m.gpuFree && !m.g_cuda_device_launch_op.isEmpty
  | .prefetch_advance n =>
    m.gpuCycles && m.prefetch_req_buffer.head?.any fun q =>
      q.active && decide (q.cur_addr + n ≤ q.start_addr + q.size)
  | .prefetch_done =>
    m.gpuCycles && m.prefetch_req_buffer.head?.any fun q =>
      q.active && decide (q.cur_addr = q.start_addr + q.size)

def perform : Action → Streams
  | .cudaStreamCreate => m.add_stream
  | .cudaStreamDestroy s => m.destroy_stream s
  | .cudaMemcpyAsync type s => m.beginPush ⟨.stream_memcpy type, s, 0⟩ false
  | .cudaLaunch latency sim_mode s =>
    (m.newKernel latency none).beginPush
      ⟨.stream_kernel_launch m.kernel_info_m_next_uid sim_mode, s, 0⟩ false
  | .cudaEventRecord event s =>
    { m with
      num_issued := Function.update m.num_issued event (m.num_issued event + 1) }.beginPush
        ⟨.stream_event event, s, 0⟩ false
  | .cudaStreamWaitEvent event s =>
    m.beginPush ⟨.stream_wait_event event (m.num_issued event), some s, 0⟩ false
  | .cudaMemPrefetchAsync addr allocation cnt s =>
    (m.register_prefetch addr allocation cnt s).beginPush
      ⟨.stream_prefetch_host_to_device addr cnt, s, 0⟩ false
  | .unblock i =>
    { m with calls := m.calls.modify i fun c => { c with phase := .ready } }
  | .push i max_hit =>
    match m.calls[i]? with
    | none => m
    | some c => m.finishPush i c max_hit
  | .leave i => { m with calls := m.calls.eraseIdx i }
  | .operation => m.operation.1
  | .functional_sim =>
    match m.m_functional_sim_kernel with
    | none => m
    | some uid =>
      { (register_finished_kernel m.kernel_info_m_next_uid
          { m with
            kernel := Function.update m.kernel uid { m.kernel uid with done := true } } uid).1 with
        m_functional_sim_kernel := none }
  | .set_kernel_done uid complete =>
    { m with
      m_running_kernels :=
        m.m_running_kernels.map fun k => if k = some uid then none else k
      m_finished_kernel := m.m_finished_kernel ++ [uid]
      kernel := Function.update m.kernel uid { m.kernel uid with done := complete } }
  | .create_stream_cta uid =>
    { m.add_stream with m_cta_streams := m.m_cta_streams ++ [(uid, m.sm_next_stream_uid)] }
  | .device_grid parent latency s _ =>
    let child := m.kernel_info_m_next_uid
    let m := m.newKernel latency (some parent)
    { m with
      kernel := Function.update m.kernel parent
        { m.kernel parent with m_child_kernels := (m.kernel parent).m_child_kernels ++ [child] }
      g_cuda_device_launch_op := m.g_cuda_device_launch_op ++ [(child, s)] }
  | .launch_one_device_kernel sim_mode =>
    match m.g_cuda_device_launch_op with
    | [] => m
    | (child, s) :: rest =>
      { m with g_cuda_device_launch_op := rest }.beginPush
        ⟨.stream_kernel_launch child sim_mode, some s, 0⟩ true
  | .prefetch_advance n =>
    { m with
      prefetch_req_buffer :=
        m.prefetch_req_buffer.modifyHead fun q => { q with cur_addr := q.cur_addr + n } }
  | .prefetch_done =>
    match m.prefetch_req_buffer with
    | [] => m
    | q :: rest => { m.record_next_done q.m_stream with prefetch_req_buffer := rest }

/-- A step that goes on after no failed assertion. -/
def step (a : Action) : Option Streams :=
  if m.guard a ∧ m.aborted = false then some (m.perform a) else none

/-- The simulator before the first call of the host, with `n` slots for kernels. -/
def boot (m_cuda_launch_blocking : Bool) (n : Nat) : Streams :=
  { m_cuda_launch_blocking, m_running_kernels := List.replicate n none }

end Streams

end gpgpu_sim_uvm.stream_manager
