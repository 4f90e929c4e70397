-- The basic blocks of a PTX function (cuda-sim/ptx_ir.cc): how its instruction
-- list is cut into blocks, and how the blocks are connected.
import Mathlib.Algebra.GroupWithZero.Nat
import Mathlib.Data.Finset.Max
import Mathlib.Data.Finset.Lattice.Fold
import Mathlib.Tactic.Common

namespace gpgpu_sim_uvm

/-! ## The instructions -/

/-- The opcodes that the control-flow analysis tells apart. -/
inductive Opcode
  | BRA_OP | RET_OP | EXIT_OP | RETP_OP | BREAK_OP | BREAKADDR_OP | CALL_OP | CALLP_OP | OTHER
  deriving DecidableEq, Repr

/-- The name of a label. -/
abbrev Symbol := Nat

/-- `ptx_instruction`: a label, or a real instruction with its opcode, whether
it has a predicate, the name in its first operand, and `HALF_OPTION`. -/
inductive PtxInstruction
  | label (m_label : Symbol)
  | real (m_opcode : Opcode) (m_pred : Bool) (dst : Symbol) (half_option : Bool)
  deriving DecidableEq, Repr

namespace PtxInstruction

def is_label : PtxInstruction → Bool
  | label _ => true
  | real .. => false

/-- None is the `-1` of a label. -/
def get_opcode : PtxInstruction → Option Opcode
  | label _ => none
  | real op .. => some op

def has_pred : PtxInstruction → Bool
  | label _ => false
  | real _ p .. => p

def dst : PtxInstruction → Symbol
  | label _ => 0
  | real _ _ d _ => d

def inst_size : PtxInstruction → Nat
  | label _ => 8
  | real _ _ _ half => if half then 4 else 8

end PtxInstruction

/-! ## The blocks -/

/-- `basic_block_t`. A pointer to an instruction is its place in
`m_instructions`, and none is NULL. -/
structure BasicBlock where
  bb_id : Nat := 0
  ptx_begin : Option Nat := none
  ptx_end : Option Nat := none
  is_entry : Bool := false
  is_exit : Bool := false
  predecessor_ids : Finset Nat := ∅
  successor_ids : Finset Nat := ∅
  postdominator_ids : Finset Nat := ∅
  dominator_ids : Finset Nat := ∅
  Tmp_ids : Finset Nat := ∅
  immediatepostdominator_id : Int := -1
  immediatedominator_id : Int := -1
  deriving DecidableEq

/-- `m_basic_blocks[i]` -/
def block (m_basic_blocks : List BasicBlock) (i : Nat) : BasicBlock := m_basic_blocks.getD i {}

theorem block_eq {bs : List BasicBlock} {i : Nat} (h : i < bs.length) : block bs i = bs[i] := by
  simp [block, h]

/-- `function_info`: the instructions as the parser has read them, where they
start, the blocks, and the `get_bb()` of each instruction. -/
structure FunctionInfo where
  m_instructions : List PtxInstruction
  m_start_PC : Nat := 0
  m_basic_blocks : List BasicBlock := []
  m_bb : List Nat := []

/-- The edges between the blocks. -/
def FunctionInfo.succ (f : FunctionInfo) (a b : Nat) : Prop :=
  b ∈ (block f.m_basic_blocks a).successor_ids

/-- The exit block is the last. -/
def FunctionInfo.exit (f : FunctionInfo) : Nat := f.m_basic_blocks.length - 1

/-! ## Where the assembler puts the instructions -/

section

variable (m_instructions : List PtxInstruction)

/-- The bytes of the real instructions before place `p`: what `ptx_assemble`
counts in `n`. -/
def assembledBytes (p : Nat) : Nat :=
  (((m_instructions.take p).filter fun pI => !pI.is_label).map PtxInstruction.inst_size).sum

/-- `get_m_instr_mem_index()`. `ptx_assemble` gives a label none. -/
def get_m_instr_mem_index (p : Nat) : Option Nat :=
  match m_instructions[p]? with
  | some (.real ..) => some (assembledBytes m_instructions p)
  | _ => none

/-- `m_instr_mem[addr]`, with NULL also where nothing was written. -/
def m_instr_mem (addr : Nat) : Option Nat :=
  (List.range m_instructions.length).find? fun p =>
    get_m_instr_mem_index m_instructions p = some addr

/-- `labels[name]`: the last label of the name wins, and a name that no label
has gets the 0 of a new entry. -/
def labels (name : Symbol) : Nat :=
  match (List.range m_instructions.length).reverse.find? fun p =>
      m_instructions[p]? = some (.label name) with
  | some p => assembledBytes m_instructions p
  | none => 0

end

/-- `get_PC()` -/
def FunctionInfo.get_PC (f : FunctionInfo) (p : Nat) : Nat :=
  f.m_start_PC + assembledBytes f.m_instructions p

/-! ## Cutting the list into blocks -/

/-- The place of the next real instruction, or the end of the list. -/
def find_next_real_instruction (m_instructions : List PtxInstruction) (i : Nat) : Nat :=
  i + ((m_instructions.drop i).takeWhile PtxInstruction.is_label).length

/-- The leaders that the loop of `create_basic_blocks` finds from `i` on, in at
most `n` turns. -/
def leadersFrom (m_instructions : List PtxInstruction) : Nat → Nat → List Nat
  | 0, _ => []
  | n + 1, i =>
    let behindTransfer := (if i + 1 < m_instructions.length then [i + 1] else []) ++
      leadersFrom m_instructions n (find_next_real_instruction m_instructions (i + 1))
    match m_instructions[i]? with
    | none => []
    | some (.label _) =>
      i :: leadersFrom m_instructions n (find_next_real_instruction m_instructions (i + 1))
    | some (.real .BRA_OP ..) => behindTransfer
    | some (.real .RET_OP ..) => behindTransfer
    | some (.real .EXIT_OP ..) => behindTransfer
    | some (.real .RETP_OP ..) => behindTransfer
    | some (.real .BREAK_OP ..) => behindTransfer
    | some (.real .CALL_OP has_pred ..) =>
      if has_pred then behindTransfer else leadersFrom m_instructions n (i + 1)
    | some (.real .CALLP_OP has_pred ..) =>
      if has_pred then behindTransfer else leadersFrom m_instructions n (i + 1)
    | some (.real ..) => leadersFrom m_instructions n (i + 1)

/-- The locals of the second loop: the blocks so far, the leaders from `l` on,
and the `assign_bb` of the instructions so far. -/
structure Cutting where
  m_basic_blocks : List BasicBlock
  l : List Nat
  last_real_inst : Nat
  m_bb : List Nat := []

/-- `m_basic_blocks.back()->ptx_end = last_real_inst` -/
def closeBlock (m_basic_blocks : List BasicBlock) (last_real_inst : Nat) : List BasicBlock :=
  m_basic_blocks.modify (m_basic_blocks.length - 1) fun b =>
    { b with ptx_end := some last_real_inst }

/-- The start of the next basic block is at `i`. -/
def Cutting.startBlock (m_instructions : List PtxInstruction) (c : Cutting) (i : Nat) : Cutting :=
  let closed := closeBlock c.m_basic_blocks c.last_real_inst
  let next := find_next_real_instruction m_instructions i
  -- if not bogus trailing label
  if next < m_instructions.length then
    { c with
      m_basic_blocks := closed ++ [{ bb_id := closed.length, ptx_begin := some next }]
      last_real_inst := next
      l := c.l.tail }
  else { c with m_basic_blocks := closed, l := c.l.tail }

/-- One turn of the second loop. -/
def Cutting.cutAt (m_instructions : List PtxInstruction) (c : Cutting) (i : Nat) : Cutting :=
  let c := if c.l.head? = some i then c.startBlock m_instructions i else c
  { c with
    m_bb := c.m_bb ++ [c.m_basic_blocks.length - 1]
    last_real_inst := match m_instructions[i]? with
      | some (.real ..) => i
      | _ => c.last_real_inst }

/-- The second loop, behind the leader that is the first instruction. -/
def cutBlocks (m_instructions : List PtxInstruction) : Cutting :=
  (List.range m_instructions.length).foldl (Cutting.cutAt m_instructions)
    { m_basic_blocks := [{
        bb_id := 0
        ptx_begin := some (find_next_real_instruction m_instructions 0)
        is_entry := true }]
      l := leadersFrom m_instructions m_instructions.length 1
      last_real_inst := 0 }

/-- None where the list has no real instruction to begin with. -/
def FunctionInfo.create_basic_blocks (f : FunctionInfo) : Option FunctionInfo :=
  if find_next_real_instruction f.m_instructions 0 < f.m_instructions.length then
    let c := cutBlocks f.m_instructions
    let closed := closeBlock c.m_basic_blocks c.last_real_inst
    some { f with
      m_basic_blocks := closed ++ [{ bb_id := closed.length, is_exit := true }]
      m_bb := c.m_bb }
  else none

/-! ## Connecting the blocks -/

/-- The two `insert`s that make an edge. -/
def link (a : Nat) (m_basic_blocks : List BasicBlock) (b : Nat) : List BasicBlock :=
  (m_basic_blocks.modify a fun x => { x with successor_ids := insert b x.successor_ids }).modify b
    fun x => { x with predecessor_ids := insert a x.predecessor_ids }

section

variable (f : FunctionInfo)

/-- `m_instr_mem[addr]->get_bb()`; none where there is no instruction. -/
def FunctionInfo.bbAt (addr : Nat) : Option Nat :=
  (m_instr_mem f.m_instructions addr).bind fun q => f.m_bb[q]?

/-- `pI->get_m_instr_mem_index() + pI->inst_size()` -/
def FunctionInfo.next_addr (p : Nat) : Option Nat :=
  match get_m_instr_mem_index f.m_instructions p, f.m_instructions[p]? with
  | some index, some pI => some (index + pI.inst_size)
  | _, _ => none

/-- The blocks that `connect_basic_blocks` links to the one that ends in `p`;
none where it reads an instruction that is not there. -/
def FunctionInfo.targetsOf (p : Nat) : Option (List Nat) :=
  let exit_bb := f.m_basic_blocks.length - 1
  match f.m_instructions[p]? with
  | none => none
  | some pI =>
    match pI.get_opcode with
    | some .RETP_OP | some .RET_OP | some .EXIT_OP =>
      if pI.has_pred then
        (f.next_addr p).map fun addr =>
          match f.bbAt addr with
          | some next_bb => [exit_bb, next_bb]
          | none => [exit_bb]
      else some [exit_bb]
    | some .BRA_OP =>
      (f.bbAt (labels f.m_instructions pI.dst)).bind fun target_bb =>
        if pI.has_pred then
          ((f.next_addr p).bind f.bbAt).map fun next_bb => [target_bb, next_bb]
        else some [target_bb]
    | _ => ((f.next_addr p).bind f.bbAt).map fun next_bb => [next_bb]

/-- One turn of the loop, on the blocks as linked so far. -/
def FunctionInfo.connectBlock (m_basic_blocks : List BasicBlock) (i : Nat) :
    Option (List BasicBlock) :=
  if (block m_basic_blocks i).is_exit then some m_basic_blocks
  else
    (block m_basic_blocks i).ptx_end.bind fun p =>
      (f.targetsOf p).map fun targets => targets.foldl (link i) m_basic_blocks

def FunctionInfo.connect_basic_blocks : Option FunctionInfo :=
  ((List.range f.m_basic_blocks.length).foldlM f.connectBlock f.m_basic_blocks).map fun bs =>
    { f with m_basic_blocks := bs }

end

end gpgpu_sim_uvm
