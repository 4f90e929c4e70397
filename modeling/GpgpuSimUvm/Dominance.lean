-- The dominance analyses of a PTX function (cuda-sim/ptx_ir.cc): dominators and
-- post-dominators, the immediate ones, and the reconvergence points of branches.
import GpgpuSimUvm.BasicBlocks
import GpgpuSimUvm.Sweeps
import Mathlib.Order.Lattice.Nat

namespace gpgpu_sim_uvm

open control_flow

/-! ## Sets of block ids -/

/-- A `std::set<int>` as an iterator walks it. -/
def inSetOrder (A : Finset Nat) : List Nat := (List.range (A.sup id + 1)).filter (· ∈ A)

/-- `intersect`: the intersection of `A` and `B`, in `A`. -/
def intersect (A B : Finset Nat) : Finset Nat :=
  (inSetOrder A).foldl (fun A a => if a ∈ B then A else A.erase a) A

def is_equal (A B : Finset Nat) : Bool :=
  if A.card ≠ B.card then false else (inSetOrder B).all (· ∈ A)

/-! ## The sets of all blocks -/

/-- Why an analysis gives no result. -/
inductive Abort
  | assertion
  /-- The loop was not over when its fuel was spent. -/
  | unfinished
  deriving DecidableEq

/-- What tells the two analyses apart: the fields that they read and write. -/
structure Analysis where
  nbrs : BasicBlock → Finset Nat
  ids : BasicBlock → Finset Nat
  set_ids : BasicBlock → Finset Nat → BasicBlock
  ids_set : ∀ b A, ids (set_ids b A) = A
  nbrs_set : ∀ b A, nbrs (set_ids b A) = nbrs b
  bb_id_set : ∀ b A, (set_ids b A).bb_id = b.bb_id
  set_set : ∀ b A B, set_ids (set_ids b A) B = set_ids b B

def postdominance : Analysis where
  nbrs := BasicBlock.successor_ids
  ids := BasicBlock.postdominator_ids
  set_ids b A := { b with postdominator_ids := A }
  ids_set _ _ := rfl
  nbrs_set _ _ := rfl
  bb_id_set _ _ := rfl
  set_set _ _ _ := rfl

def dominance : Analysis where
  nbrs := BasicBlock.predecessor_ids
  ids := BasicBlock.dominator_ids
  set_ids b A := { b with dominator_ids := A }
  ids_set _ _ := rfl
  nbrs_set _ _ := rfl
  bb_id_set _ _ := rfl
  set_set _ _ _ := rfl

section

variable (an : Analysis)

/-- The sets before the first pass: `root` has itself, the others have all. -/
def fillSets (root : Nat) (m_basic_blocks : List BasicBlock) : List BasicBlock :=
  m_basic_blocks.mapIdx fun i b =>
    if i = root then an.set_ids b (insert b.bb_id (an.ids b))
    else an.set_ids b (an.ids b ∪ Finset.range m_basic_blocks.length)

/-- The `T` of block `h`. -/
def meetAt (m_basic_blocks : List BasicBlock) (h : Nat) : Finset Nat :=
  insert h ((inSetOrder (an.nbrs (block m_basic_blocks h))).foldl
    (fun T s => intersect T (an.ids (block m_basic_blocks s)))
    (Finset.range m_basic_blocks.length))

/-- One turn of the `for` loop, with the `change` so far. -/
def visitBlock (r : List BasicBlock × Bool) (h : Nat) : Except Abort (List BasicBlock × Bool) :=
  if (block r.1 h).bb_id ≠ h then .error .assertion
  else if is_equal (meetAt an r.1 h) (an.ids (block r.1 h)) then .ok r
  else .ok (r.1.set h (an.set_ids (block r.1 h) (meetAt an r.1 h)), true)

/-- One turn of `while (change)`. -/
def sweepBlocks (order : List Nat) (m_basic_blocks : List BasicBlock) :
    Except Abort (List BasicBlock × Bool) :=
  order.foldlM (visitBlock an) (m_basic_blocks, false)

def findSets (root : Nat) (order : List Nat) (fuel : Nat) (m_basic_blocks : List BasicBlock) :
    Except Abort (List BasicBlock) :=
  if m_basic_blocks.length < 2 then .error .assertion
  else while_change .unfinished (sweepBlocks an order) fuel (fillSets an root m_basic_blocks)

end

/-- From the block before the exit down to the first. -/
def find_postdominators (fuel : Nat) (m_basic_blocks : List BasicBlock) :
    Except Abort (List BasicBlock) :=
  findSets postdominance (m_basic_blocks.length - 1) (List.range (m_basic_blocks.length - 1)).reverse
    fuel m_basic_blocks

/-- A block without predecessors has no dominators, but for the entry block. -/
def clearUnentered (m_basic_blocks : List BasicBlock) : List BasicBlock :=
  m_basic_blocks.mapIdx fun i b =>
    if i ≠ 0 ∧ b.predecessor_ids = ∅ then { b with dominator_ids := ∅ } else b

/-- From the block behind the entry up to the last. -/
def find_dominators (fuel : Nat) (m_basic_blocks : List BasicBlock) :
    Except Abort (List BasicBlock) :=
  (findSets dominance 0 (List.range' 1 (m_basic_blocks.length - 1)) fuel m_basic_blocks).map
    clearUnentered

/-! ## The immediate ones -/

/-- The inner loop: what is beyond `s` goes. -/
def eraseBeyond (ids : Nat → Finset Nat) (Tmp_ids : Finset Nat) (bb_s : Nat) : Finset Nat :=
  (inSetOrder Tmp_ids).foldl
    (fun T bb_t => if bb_t = bb_s then T else if bb_t ∈ ids bb_s then T.erase bb_t else T) Tmp_ids

/-- The two loops over `Tmp_ids`. Elements only go, so the iterator passes over
those of the first set that are still there. -/
def eraseAllBeyond (ids : Nat → Finset Nat) (Tmp_ids : Finset Nat) : Finset Nat :=
  (inSetOrder Tmp_ids).foldl (fun T bb_s => if bb_s ∈ T then eraseBeyond ids T bb_s else T) Tmp_ids

section

variable (an : Analysis)

/-- The `Tmp_ids` of the blocks. `order` lists those whose sets are thinned: each
turn of that loop changes its own block only. -/
def findNearest (order : List Nat) (m_basic_blocks : List BasicBlock) : List BasicBlock :=
  m_basic_blocks.mapIdx fun i b =>
    { b with Tmp_ids :=
        if i ∈ order then
          eraseAllBeyond (fun s => an.ids (block m_basic_blocks s)) ((an.ids b).erase i)
        else (an.ids b).erase i }

end

/-- `assert(m_basic_blocks[i]->bb_id == i)` for all blocks. -/
def idsInOrder (m_basic_blocks : List BasicBlock) : Bool :=
  (List.range m_basic_blocks.length).all fun i => (block m_basic_blocks i).bb_id = i

/-- `*Tmp_ids.begin()`, and what the field was where the set is empty. -/
def firstOr (Tmp_ids : Finset Nat) (old : Int) : Int :=
  match inSetOrder Tmp_ids with
  | [] => old
  | d :: _ => d

def find_ipostdominators (m_basic_blocks : List BasicBlock) : Except Abort (List BasicBlock) :=
  if m_basic_blocks.length < 2 ∨ !idsInOrder m_basic_blocks then .error .assertion
  else
    let bs := findNearest postdominance (List.range (m_basic_blocks.length - 1)) m_basic_blocks
    if bs.any fun b => 1 < b.Tmp_ids.card then .error .assertion
    else
      let num_ipdoms := bs.countP fun b => b.Tmp_ids ≠ ∅
      if num_ipdoms ≠ m_basic_blocks.length - 1 then .error .assertion
      else .ok (bs.map fun b =>
        { b with immediatepostdominator_id := firstOr b.Tmp_ids b.immediatepostdominator_id })

/-- The assertion on the size of `Tmp_ids` is commented out here. -/
def find_idominators (m_basic_blocks : List BasicBlock) : Except Abort (List BasicBlock) :=
  if m_basic_blocks.length < 2 ∨ !idsInOrder m_basic_blocks then .error .assertion
  else
    let bs := findNearest dominance (List.range m_basic_blocks.length) m_basic_blocks
    let num_idoms := bs.countP fun b => b.Tmp_ids ≠ ∅
    let num_nopred := bs.countP fun b => b.Tmp_ids = ∅ ∧ b.predecessor_ids = ∅
    if num_idoms ≠ m_basic_blocks.length - num_nopred then .error .assertion
    else .ok (bs.map fun b =>
      { b with immediatedominator_id := firstOr b.Tmp_ids b.immediatedominator_id })

/-! ## The reconvergence points -/

/-- `gpgpu_recon_t` -/
structure ReconPoint where
  source_pc : Nat
  target_pc : Nat
  source_inst : Nat
  target_inst : Option Nat
  deriving DecidableEq

/-- `RECONVERGE_RETURN_PC`: -2 as an `address_type`. -/
def RECONVERGE_RETURN_PC : Nat := 2 ^ 64 - 2

/-- `m_basic_blocks[i]->ptx_end->get_opcode() == BRA_OP` -/
def FunctionInfo.endsInBranch (f : FunctionInfo) (i : Nat) : Bool :=
  match (block f.m_basic_blocks i).ptx_end with
  | some p => (f.m_instructions[p]?.bind PtxInstruction.get_opcode) = some .BRA_OP
  | none => false

/-- The last basic block is the exit and has no pair. -/
def FunctionInfo.branchBlocks (f : FunctionInfo) : List Nat :=
  (List.range (f.m_basic_blocks.length - 1)).filter f.endsInBranch

/-- The pair of block `i`; none where an index is negative. -/
def FunctionInfo.reconPoint (f : FunctionInfo) (i : Nat) : Option ReconPoint :=
  (block f.m_basic_blocks i).ptx_end.bind fun source =>
    match (block f.m_basic_blocks i).immediatepostdominator_id with
    | .negSucc _ => none
    | .ofNat d =>
      match (block f.m_basic_blocks d).ptx_begin with
      | some target => some
          { source_pc := f.get_PC source
            target_pc := f.get_PC target
            source_inst := source
            target_inst := some target }
      -- reconverge after function return
      | none => some
          { source_pc := f.get_PC source
            target_pc := RECONVERGE_RETURN_PC
            source_inst := source
            target_inst := none }

def FunctionInfo.get_reconvergence_pairs (f : FunctionInfo) : Option (List ReconPoint) :=
  f.branchBlocks.mapM f.reconPoint

end gpgpu_sim_uvm
