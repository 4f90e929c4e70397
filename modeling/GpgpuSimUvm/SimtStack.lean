-- The SIMT stack of a warp (abstract_hardware_model.cc). The threads of a warp
-- share one program counter, that of the entry on top; where they diverge, the
-- stack keeps those that wait for their turn or for the others.
import Mathlib.Algebra.Group.Nat.Defs
import Mathlib.Data.Nat.Basic
import Mathlib.Order.Nat
import GpgpuSimUvm.StdMap
import GpgpuSimUvm.PostDominators

namespace gpgpu_sim_uvm

/-! ## The stack -/

/-- `(address_type)-1` -/
def null_pc : Nat := 2 ^ 64 - 1

inductive StackEntryType
  | NORMAL | CALL
  deriving DecidableEq

/-- What `update` asks of an `op_type`. -/
inductive OpType
  | CALL_OPS | RET_OPS | OTHER
  deriving DecidableEq

/-- `simt_stack_entry`. A mask tells which threads of the warp are in. -/
structure SimtStackEntry where
  m_pc : Nat := null_pc
  m_active_mask : Nat → Bool := fun _ => false
  m_recvg_pc : Nat := null_pc
  m_type : StackEntryType := .NORMAL

def SimtStackEntry.setPc (e : SimtStackEntry) (pc : Nat) : SimtStackEntry := { e with m_pc := pc }

def callEntry (tmp_next_pc : Nat) (tmp_active_mask : Nat → Bool) : SimtStackEntry where
  m_pc := tmp_next_pc
  m_active_mask := tmp_active_mask
  m_type := .CALL

/-- `mask.any()` in a warp of `m_warp_size` threads. -/
def anyThread (m_warp_size : Nat) (mask : Nat → Bool) : Bool :=
  (List.range m_warp_size).any mask

/-! ## The divergent paths -/

/-- The locals of one pass over the active threads. -/
structure PathGroup where
  top_active_mask : Nat → Bool
  tmp_next_pc : Nat := null_pc
  tmp_active_mask : Nat → Bool := fun _ => false

/-- `mask.reset(i)` -/
def resetThread (mask : Nat → Bool) (i : Nat) : Nat → Bool := fun j => if j = i then false else mask j

/-- `mask.set(i)` -/
def setThread (mask : Nat → Bool) (i : Nat) : Nat → Bool := fun j => if j = i then true else mask j

def groupThread (thread_done : Nat → Bool) (next_pc : Nat → Nat) (g : PathGroup) (i : Nat) :
    PathGroup :=
  if g.top_active_mask i then
    if thread_done i then { g with top_active_mask := resetThread g.top_active_mask i }
    else if g.tmp_next_pc = null_pc ∨ g.tmp_next_pc = next_pc i then
      { top_active_mask := resetThread g.top_active_mask i
        tmp_next_pc := next_pc i
        tmp_active_mask := setThread g.tmp_active_mask i }
    else g
  else g

/-- The pass, from the last thread down to the first. -/
def groupThreads (thread_done : Nat → Bool) (next_pc : Nat → Nat) : Nat → PathGroup → PathGroup
  | 0, g => g
  | i + 1, g => groupThreads thread_done next_pc i (groupThread thread_done next_pc g i)

/-- The passes that take the active threads apart, at most `n` of them: the
paths by their pc, and how many passes found one. None is a failed assertion. -/
def divergentPaths (m_warp_size : Nat) (thread_done : Nat → Bool) (next_pc : Nat → Nat) :
    Nat → (Nat → Bool) → StdMap Nat (Nat → Bool) × Nat → Option (StdMap Nat (Nat → Bool) × Nat)
  | 0, _, paths => some paths
  | n + 1, top_active_mask, paths =>
    if anyThread m_warp_size top_active_mask then
      let g := groupThreads thread_done next_pc m_warp_size { top_active_mask := top_active_mask }
      if g.tmp_next_pc = null_pc then
        if anyThread m_warp_size g.top_active_mask then none else some paths
      else
        divergentPaths m_warp_size thread_done next_pc n g.top_active_mask
          (paths.1.alter g.tmp_next_pc (fun _ => false) (fun _ => g.tmp_active_mask), paths.2 + 1)
    else some paths

/-- The paths in the order in which they are worked off. -/
def pathOrder (paths : StdMap Nat (Nat → Bool)) (not_taken_pc : Nat) : List (Nat × (Nat → Bool)) :=
  match paths.find not_taken_pc with
  | some mask => (not_taken_pc, mask) :: (paths.erase not_taken_pc).entries
  | none => paths.entries

/-! ## The update -/

/-- The locals of the loop over the paths. The top of the stack comes first. -/
structure Divergence where
  m_stack : List SimtStackEntry
  warp_diverged : Bool := false
  new_recvg_pc : Nat := null_pc

/-- The first path that does not reconverge turns the top entry into the one
that the paths reconverge to. -/
def diverge (recvg_pc top_recvg_pc : Nat) (s : Divergence) : Divergence where
  m_stack :=
    if recvg_pc ≠ top_recvg_pc then
      match s.m_stack with
      | [] => []
      | top :: rest => {} :: top.setPc recvg_pc :: rest
    else s.m_stack
  warp_diverged := true
  new_recvg_pc := recvg_pc

/-- The path becomes the top entry, under a new one. -/
def pushPath (top_recvg_pc : Nat) (s : Divergence) (p : Nat × (Nat → Bool)) : Divergence :=
  match s.m_stack with
  | [] => s
  | top :: rest => { s with
      m_stack := {} ::
        { top with
          m_pc := p.1
          m_active_mask := p.2
          m_recvg_pc := if s.warp_diverged then s.new_recvg_pc else top_recvg_pc } :: rest }

/-- One path of an instruction that is no call and no return from one. -/
def takePath (num_divergent_paths recvg_pc : Nat) (top : SimtStackEntry) (s : Divergence)
    (p : Nat × (Nat → Bool)) : Divergence :=
  if p.1 = top.m_recvg_pc ∧ top.m_type ≠ .CALL then s
  else
    let s := if 1 < num_divergent_paths ∧ !s.warp_diverged then
      diverge recvg_pc top.m_recvg_pc s else s
    if s.warp_diverged ∧ p.1 = s.new_recvg_pc then s else pushPath top.m_recvg_pc s p

/-- The return from a call: its entry goes, and the one below moves on. -/
def popCall (m_stack : List SimtStackEntry) (tmp_next_pc : Nat) : Option (List SimtStackEntry) :=
  match m_stack.tail with
  | [] => none
  | back :: rest =>
    if tmp_next_pc = back.m_recvg_pc ∧ back.m_type ≠ .CALL then some rest
    else some (back.setPc tmp_next_pc :: rest)

/-- `simt_stack::update`; none is a failed assertion. -/
def simtUpdate (m_warp_size : Nat) (m_stack : List SimtStackEntry) (thread_done : Nat → Bool)
    (next_pc : Nat → Nat) (recvg_pc : Nat) (next_inst_op : OpType) (next_inst_size next_inst_pc : Nat) :
    Option (List SimtStackEntry) :=
  match m_stack with
  | [] => none
  | top :: rest =>
    if top.m_pc ≠ next_inst_pc ∨ !anyThread m_warp_size top.m_active_mask then none
    else
      (divergentPaths m_warp_size thread_done next_pc m_warp_size top.m_active_mask
          (.empty, 0)).bind fun paths =>
        if 2 < paths.2 then none
        else
          match pathOrder paths.1 (next_inst_pc + next_inst_size) with
          | [] => some rest
          | p :: ps =>
            if next_inst_op = .CALL_OPS then
              if paths.2 ≠ 1 then none
              else some (callEntry p.1 p.2 :: top :: rest)
            else if next_inst_op = .RET_OPS ∧ top.m_type = .CALL then
              if paths.2 ≠ 1 then none else popCall (top :: rest) p.1
            else
              some ((p :: ps).foldl (takePath paths.2 recvg_pc top)
                { m_stack := top :: rest }).m_stack.tail

/-! ## The warp -/

/-- What the threads of a warp run: the instructions with their reconvergence
points, the edges between them, and where each thread goes. -/
structure WarpProgram where
  start_pc : Nat
  op : Nat → OpType
  isize : Nat → Nat
  reconvergence_pc : Nat → Nat
  /-- The edges of the control-flow graph. -/
  succ : Nat → Nat → Prop
  /-- The node behind the last instruction. -/
  exit_pc : Nat
  /-- Where a thread goes that has executed these instructions, the newest in
  front. None is the end of the thread. -/
  outcome : Nat → List Nat → Option Nat

/-- A warp with the state of its threads. -/
structure Warp where
  m_stack : List SimtStackEntry
  /-- `get_pc()` of each thread. -/
  pc : Nat → Nat
  thread_done : Nat → Bool
  /-- The instructions that each thread has executed, the newest in front. -/
  trace : Nat → List Nat

variable (m_warp_size : Nat) (prog : WarpProgram)

/-- `simt_stack::launch` -/
def launchWarp (active_mask : Nat → Bool) : Warp where
  m_stack := [{ m_pc := prog.start_pc, m_active_mask := active_mask }]
  pc := fun _ => prog.start_pc
  thread_done := fun t => !active_mask t
  trace := fun _ => []

/-- A thread takes part in the execution of the top entry. -/
def executes (w : Warp) (top : SimtStackEntry) (t : Nat) : Bool :=
  top.m_active_mask t && !w.thread_done t

/-- `execute_warp_inst_t` on the instruction of the top entry. -/
def executeWarp (w : Warp) (top : SimtStackEntry) : Warp where
  m_stack := w.m_stack
  trace := fun t => if executes w top t then top.m_pc :: w.trace t else w.trace t
  pc := fun t =>
    if executes w top t then (prog.outcome t (top.m_pc :: w.trace t)).getD null_pc else w.pc t
  thread_done := fun t =>
    w.thread_done t || (executes w top t && (prog.outcome t (top.m_pc :: w.trace t)).isNone)

/-- `updateSIMTStack` behind the execution. -/
def warpStep (w : Warp) : Option Warp :=
  match w.m_stack with
  | [] => none
  | top :: _ =>
    let w' := executeWarp prog w top
    (simtUpdate m_warp_size w.m_stack w'.thread_done
      (fun t => if w'.thread_done t then null_pc else w'.pc t) (prog.reconvergence_pc top.m_pc)
      (prog.op top.m_pc) (prog.isize top.m_pc) top.m_pc).map fun s => { w' with m_stack := s }

end gpgpu_sim_uvm
