-- The barriers of a shader core (`barrier_set_t` of shader.cc): the warps that have
-- reached each barrier, their release by the last arrival or by an exit, and the
-- reductions that the threads of a `bar.red` hand in and get back.
import GpgpuSimUvm.StdMap
import GpgpuSimUvm.Monitor
import Mathlib.Data.Finset.Card
import Mathlib.Logic.Function.Basic

namespace gpgpu_sim_uvm.barrier_set

/-- `(unsigned)-1` -/
def UNSIGNED_MAX : Nat := 0xFFFFFFFF

/-- `warp_set_t` -/
abbrev WarpSet := Finset Nat

inductive BarrierType
  | SYNC | ARRIVE | RED
  deriving DecidableEq, Repr

inductive ReductionType
  | POPC_RED | AND_RED | OR_RED
  deriving DecidableEq, Repr

/-- What the barriers read of a `warp_inst_t`, with the operands of its active
threads where it is a reduction. -/
structure WarpInst where
  bar_type : BarrierType
  red_type : ReductionType
  bar_id : Nat
  bar_count : Nat
  values : List Bool
  deriving DecidableEq

/-- The warp waits until the barrier releases it. -/
def WarpInst.waits (inst : WarpInst) : Bool :=
  decide (inst.bar_type = .SYNC ∨ inst.bar_type = .RED)

structure BarrierConfig where
  m_max_cta_per_core : Nat
  m_max_barriers_per_cta : Nat
  m_warp_size : Nat

/-- `barrier_set_t`, with what its shader core keeps for reductions. -/
structure BarrierSet where
  m_cta_to_warps : StdMap Nat WarpSet := .empty
  m_bar_id_to_warps : Nat → WarpSet := fun _ => ∅
  m_warp_active : WarpSet := ∅
  m_warp_at_barrier : WarpSet := ∅
  /-- By the CTA and the number of the barrier. -/
  reduction_storage : Nat → Nat → Nat := fun _ _ => 0
  m_inst_at_barrier : Nat → Option WarpInst := fun _ => none
  /-- What the callbacks wrote to the destination of the last barrier of a warp. -/
  dst : Nat → Option Nat := fun _ => none
  /-- An assertion failed. -/
  aborted : Bool := false
  -- what the functions below do not read: how a warp last reached a barrier, the count of
  -- the last arrival, the operands since the release before, and the storage then
  arrival : Nat → Nat → Option WarpInst := fun _ _ => none
  last_count : Nat → Nat → Nat := fun _ _ => UNSIGNED_MAX
  operands : Nat → Nat → List (ReductionType × Bool) := fun _ _ => []
  seed : Nat → Nat → Nat := fun _ _ => 0

/-- A value for a pair of a CTA and a barrier, or of a barrier and a warp. -/
def update₂ {V : Type} (f : Nat → Nat → V) (i j : Nat) (v : V) : Nat → Nat → V :=
  Function.update f i (Function.update (f i) j v)

variable (cfg : BarrierConfig)

namespace BarrierSet

variable (s : BarrierSet)

/-- `assert(b)` -/
def require (b : Bool) : BarrierSet := { s with aborted := s.aborted || !b }

/-- The warps of a CTA, none where the CTA is not there. -/
def warpsOf (cta_id : Nat) : WarpSet := s.m_cta_to_warps.findD cta_id ∅

end BarrierSet

/-! ## Reductions -/

/-- `popc_reduction`, `and_reduction` and `or_reduction` on what the storage holds. -/
def reduce (held : Nat) (operand : ReductionType × Bool) : Nat :=
  match operand.1 with
  | .POPC_RED => (held + operand.2.toNat) % (UNSIGNED_MAX + 1)
  | .AND_RED => held &&& operand.2.toNat
  | .OR_RED => held ||| operand.2.toNat

/-- What the threads of an instruction hand in. -/
def WarpInst.operands (inst : WarpInst) : List (ReductionType × Bool) :=
  match inst.bar_type with
  | .RED => inst.values.map fun v => (inst.red_type, v)
  | _ => []

/-- `bar_impl` of all threads of a warp. -/
def bar_impl (s : BarrierSet) (cta_id : Nat) (inst : WarpInst) : BarrierSet :=
  { s with
    reduction_storage := update₂ s.reduction_storage cta_id inst.bar_id
      (inst.operands.foldl reduce (s.reduction_storage cta_id inst.bar_id))
    operands := update₂ s.operands cta_id inst.bar_id
      (s.operands cta_id inst.bar_id ++ inst.operands) }

/-- `broadcast_barrier_reduction`: the callbacks of the last barrier of each warp. Only the
threads of a reduction have one. -/
def broadcast_barrier_reduction (s : BarrierSet) (cta_id : Nat) (warps : WarpSet) : BarrierSet :=
  { s with
    dst := fun w =>
      match s.m_inst_at_barrier w with
      | some inst =>
        if w ∈ warps ∧ inst.bar_type = .RED then some (s.reduction_storage cta_id inst.bar_id)
        else s.dst w
      | none => s.dst w }

/-! ## The barriers -/

def allocate_barrier (s : BarrierSet) (cta_id : Nat) (warps : WarpSet) : BarrierSet :=
  let s := s.require (decide (cta_id < cfg.m_max_cta_per_core) && !s.m_cta_to_warps.contains cta_id)
  let s := { s with m_cta_to_warps := s.m_cta_to_warps.alter cta_id ∅ fun _ => warps }
  let s := s.require (decide (s.m_cta_to_warps.entries.length ≤ cfg.m_max_cta_per_core))
  { s with
    m_warp_active := s.m_warp_active ∪ warps
    m_warp_at_barrier := s.m_warp_at_barrier \ warps
    m_bar_id_to_warps := fun i =>
      if i < cfg.m_max_barriers_per_cta then s.m_bar_id_to_warps i \ warps else s.m_bar_id_to_warps i
    operands := Function.update s.operands cta_id fun _ => []
    seed := Function.update s.seed cta_id (s.reduction_storage cta_id) }

def deallocate_barrier (s : BarrierSet) (cta_id : Nat) : BarrierSet :=
  match s.m_cta_to_warps.find cta_id with
  | none => s
  | some warps =>
    let s := s.require (decide (warps ∩ s.m_warp_at_barrier = ∅) &&
      decide (warps ∩ s.m_warp_active = ∅) &&
        (List.range cfg.m_max_barriers_per_cta).all fun i =>
          decide (warps ∩ s.m_bar_id_to_warps i = ∅))
    { s with
      m_warp_active := s.m_warp_active \ warps
      m_warp_at_barrier := s.m_warp_at_barrier \ warps
      m_bar_id_to_warps := fun i =>
        if i < cfg.m_max_barriers_per_cta then s.m_bar_id_to_warps i \ warps
        else s.m_bar_id_to_warps i
      m_cta_to_warps := s.m_cta_to_warps.erase cta_id }

/-- The release of the warps that a barrier holds. -/
def release (s : BarrierSet) (cta_id bar_id : Nat) (at_barrier : WarpSet) : BarrierSet :=
  { s with
    m_bar_id_to_warps := Function.update s.m_bar_id_to_warps bar_id
      (s.m_bar_id_to_warps bar_id \ at_barrier)
    m_warp_at_barrier := s.m_warp_at_barrier \ at_barrier
    operands := update₂ s.operands cta_id bar_id []
    seed := update₂ s.seed cta_id bar_id (s.reduction_storage cta_id bar_id) }

/-- The warp is put down at the barrier. -/
def marked (s : BarrierSet) (cta_id warp_id : Nat) (inst : WarpInst) : BarrierSet :=
  { s with
    m_bar_id_to_warps := Function.update s.m_bar_id_to_warps inst.bar_id
      (insert warp_id (s.m_bar_id_to_warps inst.bar_id))
    m_warp_at_barrier :=
      if inst.waits then insert warp_id s.m_warp_at_barrier else s.m_warp_at_barrier
    arrival := update₂ s.arrival inst.bar_id warp_id (some inst)
    last_count := update₂ s.last_count cta_id inst.bar_id inst.bar_count }

/-- The release by an arrival, with the broadcast where the arrival is a reduction. -/
def releaseByArrival (s : BarrierSet) (cta_id : Nat) (inst : WarpInst) (at_barrier : WarpSet) :
    BarrierSet :=
  let released := release s cta_id inst.bar_id at_barrier
  if inst.bar_type = .RED then broadcast_barrier_reduction released cta_id at_barrier else released

def warp_reaches_barrier (s : BarrierSet) (cta_id warp_id : Nat) (inst : WarpInst) : BarrierSet :=
  let s := s.require (decide (inst.bar_id ≠ UNSIGNED_MAX ∧ warp_id ∈ s.warpsOf cta_id))
  let s := marked s cta_id warp_id inst
  let at_barrier := s.warpsOf cta_id ∩ s.m_bar_id_to_warps inst.bar_id
  let active := s.warpsOf cta_id ∩ s.m_warp_active
  if inst.bar_count = UNSIGNED_MAX then
    if at_barrier = active then releaseByArrival s cta_id inst at_barrier else s
  else
    if at_barrier.card * cfg.m_warp_size = inst.bar_count then
      releaseByArrival s cta_id inst at_barrier
    else s

/-- `issue_warp` of a barrier. -/
def issue_barrier (s : BarrierSet) (cta_id warp_id : Nat) (inst : WarpInst) : BarrierSet :=
  let s := bar_impl s cta_id inst
  let s := { s with
    m_inst_at_barrier := Function.update s.m_inst_at_barrier warp_id (some inst)
    dst := Function.update s.dst warp_id none }
  warp_reaches_barrier cfg s cta_id warp_id inst

/-- The loop of `warp_exit` over the barriers. -/
def exitRelease (cta_id : Nat) (warps active : WarpSet) (s : BarrierSet) (i : Nat) : BarrierSet :=
  if warps ∩ s.m_bar_id_to_warps i = active then
    release s cta_id i (warps ∩ s.m_bar_id_to_warps i)
  else s

/-- The CTA of a warp: the first in the map that has it. -/
def ctaOf (s : BarrierSet) (warp_id : Nat) : Option (Nat × WarpSet) :=
  s.m_cta_to_warps.entries.find? fun w => decide (warp_id ∈ w.2)

def warp_exit (s : BarrierSet) (warp_id : Nat) : BarrierSet :=
  let s := { s with m_warp_active := s.m_warp_active.erase warp_id }
  match ctaOf s warp_id with
  | none => s.require false
  | some w =>
    (List.range cfg.m_max_barriers_per_cta).foldl
      (exitRelease w.1 w.2 (w.2 ∩ s.m_warp_active)) s

/-! ## Runs -/

inductive BarrierAction
  | allocate_barrier (cta_id : Nat) (warps : WarpSet)
  | deallocate_barrier (cta_id : Nat)
  | issue_barrier (cta_id warp_id : Nat) (inst : WarpInst)
  | warp_exit (warp_id : Nat)

/-- The warp can issue: it has not exited, and it does not wait at a barrier. -/
def issues (s : BarrierSet) (warp_id : Nat) : Bool :=
  decide (warp_id ∈ s.m_warp_active ∧ warp_id ∉ s.m_warp_at_barrier)

/-- What the core asks for: the warps of a new CTA are those of no other, a warp that
issues is one of its CTA, and a reduction has threads. -/
def canHappen (s : BarrierSet) : BarrierAction → Bool
  | .allocate_barrier _ warps => s.m_cta_to_warps.entries.all fun w => decide (warps ∩ w.2 = ∅)
  | .deallocate_barrier _ => true
  | .issue_barrier cta_id warp_id inst =>
    issues s warp_id && decide (warp_id ∈ s.warpsOf cta_id) &&
      decide (inst.bar_type = .RED → inst.values ≠ [])
  | .warp_exit warp_id => issues s warp_id

def happens (s : BarrierSet) : BarrierAction → BarrierSet
  | .allocate_barrier cta_id warps => allocate_barrier cfg s cta_id warps
  | .deallocate_barrier cta_id => deallocate_barrier cfg s cta_id
  | .issue_barrier cta_id warp_id inst => issue_barrier cfg s cta_id warp_id inst
  | .warp_exit warp_id => warp_exit cfg s warp_id

end gpgpu_sim_uvm.barrier_set
