-- The scoreboard (scoreboard.h and scoreboard.cc) and the pending writes of the load-store
-- unit (shader.cc): the registers that are reserved at issue, and what releases them.
import GpgpuSimUvm.StdMap
import Mathlib.Data.Finset.Erase
import Mathlib.Data.Finset.Insert
import Mathlib.Logic.Function.Basic

namespace gpgpu_sim_uvm.scoreboard

inductive MemorySpace
  | global_space | local_space | shared_space | const_space | tex_space | param_space_kernel
  | param_space_local | param_space_unclassified | undefined_space
  deriving DecidableEq, Repr

/-- What the scoreboard and the load-store unit read of a `warp_inst_t`. A register
that is zero is none. -/
structure WarpInst where
  warp_id : Nat
  /-- The `MAX_OUTPUT_VALUES` registers that it writes. -/
  out : List Nat
  /-- The `MAX_INPUT_VALUES` registers that it reads. -/
  in_ : List Nat
  pred : Nat := 0
  ar1 : Nat := 0
  ar2 : Nat := 0
  is_load : Bool
  space : MemorySpace
  deriving DecidableEq

namespace WarpInst

variable (inst : WarpInst)

/-- As `pre_decode` counts them. -/
def outcount : Nat := inst.out.countP fun r => decide (0 < r)

def incount : Nat := inst.in_.countP fun r => decide (0 < r)

/-- The test of `reserveRegisters` for a long operation. -/
def isLongOp : Bool :=
  inst.is_load && decide (inst.space = .global_space ∨ inst.space = .local_space ∨
    inst.space = .param_space_kernel ∨ inst.space = .param_space_local ∨
      inst.space = .param_space_unclassified ∨ inst.space = .tex_space)

/-- The set that `checkCollision` looks up. -/
def inst_regs : List Nat :=
  inst.out.take inst.outcount ++ inst.in_.take inst.incount ++
    [inst.pred, inst.ar1, inst.ar2].filter fun r => decide (0 < r)

end WarpInst

/-! ## The scoreboard -/

structure Scoreboard where
  reg_table : Nat → Finset Nat := fun _ => ∅
  longopregs : Nat → Finset Nat := fun _ => ∅

namespace Scoreboard

variable (s : Scoreboard)

/-- None is an `abort` or a failed assertion, here and in what follows. -/
def reserveRegister (wid regnum : Nat) : Option Scoreboard :=
  if regnum ∈ s.reg_table wid then none
  else
    some { s with
      reg_table := Function.update s.reg_table wid (insert regnum (s.reg_table wid)) }

def releaseRegister (wid regnum : Nat) : Scoreboard :=
  { s with reg_table := Function.update s.reg_table wid ((s.reg_table wid).erase regnum) }

def markLongOp (wid regnum : Nat) : Scoreboard :=
  { s with longopregs := Function.update s.longopregs wid (insert regnum (s.longopregs wid)) }

def reserveRegisters (inst : WarpInst) : Option Scoreboard :=
  (inst.out.foldlM (fun s r => if 0 < r then reserveRegister s inst.warp_id r else some s) s).map
    fun s =>
      if inst.isLongOp then
        inst.out.foldl (fun s r => if 0 < r then markLongOp s inst.warp_id r else s) s
      else s

/-- A register that `releaseRegisters` releases is no long operation any more. -/
def releaseOutput (wid regnum : Nat) : Scoreboard :=
  let s := s.releaseRegister wid regnum
  { s with longopregs := Function.update s.longopregs wid ((s.longopregs wid).erase regnum) }

def releaseRegisters (inst : WarpInst) : Scoreboard :=
  inst.out.foldl (fun s r => if 0 < r then releaseOutput s inst.warp_id r else s) s

def checkCollision (wid : Nat) (inst : WarpInst) : Bool :=
  inst.inst_regs.any fun r => decide (r ∈ s.reg_table wid)

def pendingWrites (wid : Nat) : Bool := decide (s.reg_table wid ≠ ∅)

def islongop (wid regnum : Nat) : Bool := decide (regnum ∈ s.longopregs wid)

end Scoreboard

/-! ## The pending writes of the load-store unit -/

/-- The scoreboard of a core, and `m_pending_writes` of its load-store unit. -/
structure Registers where
  m_scoreboard : Scoreboard := {}
  m_pending_writes : Nat → StdMap Nat Nat := fun _ => .empty

/-- `--n`, of an `unsigned`. -/
def decrement (n : Nat) : Nat := if n = 0 then 0xFFFFFFFF else n - 1

namespace Registers

variable (g : Registers)

def alterPending (wid r : Nat) (f : Nat → Nat) : Registers :=
  { g with
    m_pending_writes :=
      Function.update g.m_pending_writes wid ((g.m_pending_writes wid).alter r 0 f) }

def erasePending (wid r : Nat) : Registers :=
  { g with
    m_pending_writes := Function.update g.m_pending_writes wid ((g.m_pending_writes wid).erase r) }

/-- What `ldst_unit::issue` counts. -/
def issue (inst : WarpInst) (n_accesses : Nat) : Registers :=
  if inst.is_load ∧ inst.space ≠ .shared_space then
    inst.out.foldl
      (fun g r => if 0 < r then alterPending g inst.warp_id r fun n => n + n_accesses else g) g
  else g

/-- An access hits in `process_cache_access`. -/
def cacheHit (inst : WarpInst) : Registers :=
  if inst.is_load then
    inst.out.foldl
      (fun g r => if 0 < r then alterPending g inst.warp_id r decrement else g) g
  else g

/-- The loop that looks for a write that is pending, with `pending_requests` at its end. -/
def pending_requests (wid : Nat) : Registers → List Nat → Registers × Bool
  | g, [] => (g, false)
  | g, reg_id :: regs =>
    if 0 < reg_id then
      match (g.m_pending_writes wid).find reg_id with
      | some n =>
        if 0 < n then (g, true) else pending_requests wid (g.erasePending wid reg_id) regs
      | none => pending_requests wid g regs
    else pending_requests wid g regs

/-- Releases the registers of a load if none of `regs` is pending. -/
def releaseIfDone (inst : WarpInst) (regs : List Nat) : Registers :=
  match pending_requests inst.warp_id g regs with
  | (g, true) => g
  | (g, false) => { g with m_scoreboard := g.m_scoreboard.releaseRegisters inst }

/-- A load leaves the dispatch register in `ldst_unit::cycle`. -/
def loadDispatched (inst : WarpInst) : Registers := g.releaseIfDone inst inst.out

/-- An access hits in `process_managed_cache_access`, which sees four registers only. -/
def managedHit (inst : WarpInst) : Registers :=
  if inst.is_load then
    let g := (inst.out.take 4).foldl
      (fun g r => if 0 < r then alterPending g inst.warp_id r decrement else g) g
    g.releaseIfDone inst (inst.out.take 4)
  else g

/-- One register in `ldst_unit::writeback` and in `L1_latency_queue_cycle`. -/
def writeRegister (wid r : Nat) : Option Registers :=
  match (g.m_pending_writes wid).find r with
  | some n =>
    if 0 < n then
      if decrement n = 0 then
        let g := g.erasePending wid r
        some { g with m_scoreboard := g.m_scoreboard.releaseRegister wid r }
      else some (g.alterPending wid r decrement)
    else none
  | none => none

def writeRegisters (inst : WarpInst) : Option Registers :=
  inst.out.foldlM (fun g r => if 0 < r then writeRegister g inst.warp_id r else some g) g

/-- An access hits at the end of the L1 latency queue. -/
def latencyHit (inst : WarpInst) : Option Registers :=
  if inst.is_load then g.writeRegisters inst else some g

/-- `ldst_unit::writeback` of `m_next_wb`. -/
def writeback (inst : WarpInst) : Option Registers :=
  if inst.space ≠ .shared_space then g.writeRegisters inst
  else
    some { g with
      m_scoreboard := inst.out.foldl
        (fun s r => if 0 < r then s.releaseRegister inst.warp_id r else s) g.m_scoreboard }

end Registers

end gpgpu_sim_uvm.scoreboard
