-- Break targets (cuda-sim/ptx_ir.cc): a break goes where the breakaddr above it
-- in the dominator tree says, so the loop of do_pdom connects the breaks and
-- looks for the dominators in turns.
import GpgpuSimUvm.Dominance
import GpgpuSimUvm.LoopRounds

namespace gpgpu_sim_uvm

open control_flow

/-- What ends `do_pdom` early. -/
inductive Fault
  | abort (a : Abort)
  /-- A pointer is NULL, or an index was never set. -/
  | null
  deriving DecidableEq

/-! ## The search for a breakaddr -/

section

variable (f : FunctionInfo)

/-- The name in the first operand of `m_instr_mem[insn_addr]`, where that is a
breakaddr. -/
def FunctionInfo.breakaddrAt (insn_addr : Nat) : Option Symbol :=
  ((m_instr_mem f.m_instructions insn_addr).bind fun p => f.m_instructions[p]?).bind fun pI =>
    if pI.get_opcode = some .BREAKADDR_OP then some pI.dst else none

/-- The reverse search through the instructions of a basic block. -/
def FunctionInfo.breakaddrIn (p_bb : BasicBlock) : Except Fault (Option Symbol) :=
  match p_bb.ptx_begin.bind (get_m_instr_mem_index f.m_instructions),
      p_bb.ptx_end.bind (get_m_instr_mem_index f.m_instructions) with
  | some first, some last =>
    match (List.range' first (last + 1 - first)).reverse.findSome? f.breakaddrAt with
    | some name => .ok (some name)
    -- below address 0 the unsigned `insn_addr` would start again at the top
    | none => if first = 0 then .error .null else .ok none
  | _, _ => .error .null

/-- Through the dominator tree, from the block of the break upwards. The entry
block has no `immediatedominator_id` and is not searched. -/
def FunctionInfo.find_break_target (m_basic_blocks : List BasicBlock) :
    Nat → Nat → Except Fault Symbol
  | 0, _ => .error (.abort .unfinished)
  | fuel + 1, p_bb =>
    match (block m_basic_blocks p_bb).immediatedominator_id with
    | .negSucc _ => .error (.abort .assertion)
    | .ofNat d =>
      match f.breakaddrIn (block m_basic_blocks p_bb) with
      | .error e => .error e
      | .ok (some name) => .ok name
      | .ok none => FunctionInfo.find_break_target m_basic_blocks fuel d

/-! ## Connecting the breaks -/

/-- The linkage of block `a` with its successors is erased. -/
def unlink (m_basic_blocks : List BasicBlock) (a : Nat) : List BasicBlock :=
  ((inSetOrder (block m_basic_blocks a).successor_ids).foldl
    (fun bs s => bs.modify s fun x => { x with predecessor_ids := x.predecessor_ids.erase a })
    m_basic_blocks).modify a fun x => { x with successor_ids := ∅ }

/-- The blocks that the break at `p` leads to: that of its target, and the next
one where it has a predicate. -/
def FunctionInfo.breakTargets (fuel : Nat) (m_basic_blocks : List BasicBlock) (p : Nat) :
    Except Fault (List Nat) :=
  match f.m_bb[p]?, f.m_instructions[p]? with
  | some break_bb, some pI =>
    match f.find_break_target m_basic_blocks fuel break_bb with
    | .error e => .error e
    | .ok name =>
      match f.bbAt (labels f.m_instructions name) with
      | none => .error .null
      | some target_bb =>
        if pI.has_pred then
          match (f.next_addr p).bind f.bbAt with
          | none => .error .null
          | some next_bb => .ok [target_bb, next_bb]
        else .ok [target_bb]
  | _, _ => .error .null

/-- One turn of the loop, with the blocks and `modified` so far. -/
def FunctionInfo.connectBreak (fuel : Nat) (r : List BasicBlock × Bool) (i : Nat) :
    Except Fault (List BasicBlock × Bool) :=
  if (block r.1 i).is_exit then .ok r
  else
    match (block r.1 i).ptx_end with
    | none => .error .null
    | some p =>
      if (f.m_instructions[p]?.bind PtxInstruction.get_opcode) = some .BREAK_OP then
        match f.breakTargets fuel (unlink r.1 i) p with
        | .error e => .error e
        | .ok targets =>
          let linked := targets.foldl (link i) (unlink r.1 i)
          .ok (linked,
            r.2 || decide ((block r.1 i).successor_ids ≠ (block linked i).successor_ids))
      else .ok r

def FunctionInfo.connect_break_targets (fuel : Nat) (m_basic_blocks : List BasicBlock) :
    Except Fault (List BasicBlock × Bool) :=
  (List.range m_basic_blocks.length).foldlM (f.connectBreak fuel) (m_basic_blocks, false)

/-! ## The loop of do_pdom -/

/-- One turn of `do .. while (modified)`. -/
def FunctionInfo.pdomRound (fuel : Nat) (m_basic_blocks : List BasicBlock) :
    Except Fault (List BasicBlock × Bool) :=
  match find_dominators fuel m_basic_blocks with
  | .error a => .error (.abort a)
  | .ok dominated =>
    match find_idominators dominated with
    | .error a => .error (.abort a)
    | .ok idominated => f.connect_break_targets fuel idominated

/-- `do_pdom` up to the end of its loop, on a function whose blocks are
connected. -/
def FunctionInfo.do_pdom (fuel : Nat) : Except Fault (List BasicBlock) :=
  rounds (.abort .unfinished) f.pdomRound fuel f.m_basic_blocks

end

end gpgpu_sim_uvm
