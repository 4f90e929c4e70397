-- The files of a checkpoint (abstract_hardware_model.cc): the SIMT stack of a warp, one line
-- an entry, and the pages of a memory space, one line a word.
import GpgpuSimUvm.CText
import GpgpuSimUvm.SimtStack

namespace gpgpu_sim_uvm

namespace checkpoint

open c_text

/-! ## Integer conversions -/

/-- The value of the low 32 bits as an `int`. -/
def toInt (x : Nat) : Int := if x % 2 ^ 32 < 2 ^ 31 then (x % 2 ^ 32 : Nat) else (x % 2 ^ 32 : Nat) - 2 ^ 32

/-- The value of 64 bits as a `long long`. -/
def toLongLong (x : Nat) : Int := if x % 2 ^ 64 < 2 ^ 63 then (x % 2 ^ 64 : Nat) else (x % 2 ^ 64 : Nat) - 2 ^ 64

/-- `atoi`: the `long` that is read, cut to an `int`. -/
def atoi (cs : List Char) : Int := toInt (readInt cs % 2 ^ 32).toNat

/-- An `int` as an `unsigned int`, and as an `unsigned long long`. -/
def ofInt32 (v : Int) : Nat := (v % 2 ^ 32).toNat

def ofInt64 (v : Int) : Nat := (v % 2 ^ 64).toNat

/-! ## The SIMT stack -/

/-- All fields of `simt_stack_entry`. -/
structure StackEntry extends SimtStackEntry where
  m_calldepth : Nat := 0
  m_branch_div_cycle : Nat := 0

/-- The characters of a mask. -/
def printMask (m_warp_size : Nat) (mask : Nat → Bool) : List Char :=
  (List.range m_warp_size).flatMap fun j => [if mask j then '1' else '0', ' ']

def printType : StackEntryType → Int
  | .NORMAL => 0
  | .CALL => 1

/-- The line of one entry, its newline apart. -/
def printEntry (m_warp_id m_warp_size : Nat) (e : StackEntry) : List Char :=
  printMask m_warp_size e.m_active_mask ++
    (printInt (toInt e.m_pc) ++ ' ' :: (printInt (toInt e.m_calldepth) ++ ' ' ::
      (printInt (toInt e.m_recvg_pc) ++ ' ' :: (printInt (toLongLong e.m_branch_div_cycle) ++ ' ' ::
        (printInt (printType e.m_type) ++ ' ' :: (printInt (toInt m_warp_id) ++ ' ' ::
          printInt (toInt m_warp_size)))))))

def print_checkpoint (m_warp_id m_warp_size : Nat) (m_stack : List StackEntry) : List Char :=
  m_stack.flatMap fun e => printEntry m_warp_id m_warp_size e ++ ['\n']

/-- One line of `resume`. No result is a NULL token. -/
def resumeEntry (m_warp_size : Nat) (line : List Char) : Option StackEntry :=
  match (tokens line).drop m_warp_size with
  | pc :: calldepth :: recvg_pc :: branch_div_cycle :: type :: _ =>
    some
      { m_active_mask := fun j =>
          decide (j < m_warp_size) && decide ((tokens line)[j]?.bind List.head? = some '1')
        m_pc := ofInt64 (atoi pc)
        m_calldepth := ofInt32 (atoi calldepth)
        m_recvg_pc := ofInt64 (atoi recvg_pc)
        m_branch_div_cycle := ofInt64 (atoi branch_div_cycle)
        m_type := if type.head? = some '0' then .NORMAL else .CALL }
  | _ => none

/-- `resume`, with `char line[200]`. -/
def resume (m_warp_size : Nat) (file : List Char) : Option (List StackEntry) :=
  (lines 199 file).mapM (resumeEntry m_warp_size)

/-! ## The memory -/

/-- The bytes of one block. -/
abbrev Block := Nat → UInt8

/-- What `calloc` gives. -/
def blankBlock : Block := fun _ => 0

/-- The memory spaces that are written to a checkpoint, by their names. -/
inductive Space
  | global_mem (large_pages : Bool)
  | shared_mem (sid : Nat)
  | local_mem (sid tid : Nat)

namespace Space

def BSIZE : Space → Nat
  | global_mem large_pages => if large_pages then 2 * 1024 * 1024 else 4096
  | shared_mem _ => 16 * 1024
  | local_mem _ _ => 32

def m_name : Space → List Char
  | global_mem _ => ['g', 'l', 'o', 'b', 'a', 'l']
  | shared_mem sid => ['s', 'h', 'a', 'r', 'e', 'd', '_'] ++ printInt (sid % 2 ^ 32 : Nat)
  | local_mem sid tid =>
    ['l', 'o', 'c', 'a', 'l', '_'] ++ printInt (sid % 2 ^ 32 : Nat) ++ ['_'] ++
      printInt (tid % 2 ^ 32 : Nat)

end Space

/-- The map from the index of a block to its bytes. -/
abbrev BlockMap := StdMap Nat Block

/-- A byte of the memory. Blocks that are not there read as zeros. -/
def byteAt (m_data : BlockMap) (index offset : Nat) : UInt8 := m_data.findD index blankBlock offset

theorem byteAt_alter (m_data : BlockMap) (index i o : Nat) (f : Block → Block) :
    byteAt (m_data.alter index blankBlock f) i o =
      if i = index then f (m_data.findD index blankBlock) o else byteAt m_data i o := by
  rw [byteAt]
  split_ifs with h
  · rw [h, StdMap.findD_alter_self]
  · rw [StdMap.findD_alter_ne _ _ _ _ h]
    rfl

/-- `i_data[d]` -/
def wordAt (b : Block) (d : Nat) : Nat :=
  (b (4 * d)).toNat + 256 * (b (4 * d + 1)).toNat + 65536 * (b (4 * d + 2)).toNat +
    16777216 * (b (4 * d + 3)).toNat

/-- A block over, with the bytes of a word in it. -/
def writeWord (offset data : Nat) (b : Block) : Block := fun o =>
  if offset ≤ o ∧ o < offset + 4 then UInt8.ofNat (data / 256 ^ (o - offset)) else b o

/-- `mem_storage::print` with the format `%08x`. -/
def printBlock (BSIZE : Nat) (b : Block) : List Char :=
  (List.range (BSIZE / 4)).flatMap (fun d => '\n' :: (printHex (wordAt b d) ++ [' '])) ++ ['\n']

/-- `store_global_mem`. The blocks come in the order of the hash map, and the format takes 32
bits of an index. -/
def store_global_mem (s : Space) (blocks : List (Nat × Block)) : List Char :=
  blocks.flatMap fun e =>
    s.m_name ++ ' ' :: (printHex (e.1 % 2 ^ 32) ++ ':' :: printBlock s.BSIZE e.2)

/-- The locals of `load_global_mem`, with the memory it writes. -/
structure Loading where
  offset : Nat := 0
  index : Nat := 0
  m_data : BlockMap

/-- One line of `load_global_mem`. No result is a NULL token, or a write past the block. -/
def loadLine (BSIZE : Nat) (s : Loading) (line : List Char) : Option Loading :=
  match tokens line with
  | [] => none
  | pch :: rest =>
    if pch.head? = some 'g' ∨ pch.head? = some 's' ∨ pch.head? = some 'l' then
      match rest with
      | [] => none
      | pch :: _ => some { s with index := readHex 0 pch, offset := 0 }
    else if s.offset + 4 ≤ BSIZE then
      some
        { s with
          m_data := s.m_data.alter s.index blankBlock (writeWord s.offset (readHex 0 pch))
          offset := s.offset + 4 }
    else none

/-- `load_global_mem`, with `char line[128]`. -/
def load_global_mem (BSIZE : Nat) (temp_mem : BlockMap) (file : List Char) : Option BlockMap :=
  ((lines 127 file).foldlM (loadLine BSIZE) { m_data := temp_mem }).map Loading.m_data

end checkpoint

end gpgpu_sim_uvm
