-- Memory coalescing (abstract_hardware_model.cc): the requests of the threads of a
-- warp are gathered by segment, and each transaction is sent as small as its
-- chunks allow. Atomics share a transaction only where their bytes do not meet.
import GpgpuSimUvm.Bitset
import GpgpuSimUvm.Types

namespace gpgpu_sim_uvm

namespace warp_inst_t

open bitset

/-! ## The data -/

def MAX_ACCESSES_PER_INSN_PER_THREAD : Nat := 8

/-- `_memory_space_t` -/
inductive MemorySpace where
  | undefined_space
  | reg_space
  | local_space
  | shared_space
  | sstarr_space
  | param_space_unclassified
  | param_space_kernel
  | param_space_local
  | const_space
  | tex_space
  | surf_space
  | global_space
  | generic_space
  | instruction_space
  deriving DecidableEq

/-- What coalescing reads of the `core_config`. -/
structure CoreConfig where
  warp_size : Nat
  mem_warp_parts : Nat
  gpgpu_coalesce_arch : Nat
  gmem_skip_L1D : Bool
  warp_size_le : warp_size ≤ 32
  parts_pos : 0 < mem_warp_parts

/-- What coalescing reads of a `warp_inst_t`: `memreqaddr` gives the addresses of a
thread. -/
structure MemInst where
  m_config : CoreConfig
  m_warp_active_mask : BitVec 32
  data_size : Nat
  /-- `cache_op == CACHE_GLOBAL` -/
  cache_global : Bool
  space : MemorySpace
  is_write : Bool
  access_type : MemAccessType
  memreqaddr : Nat → Nat → Nat
  addr_lt : ∀ thread access, memreqaddr thread access < 2 ^ 64

/-- `transaction_info` -/
structure TransactionInfo where
  chunks : BitVec 4 := 0
  bytes : BitVec 128 := 0
  active : BitVec 32 := 0

/-- `mem_access_t` -/
structure MemAccessT where
  m_type : MemAccessType
  m_addr : Nat
  m_req_size : Nat
  m_write : Bool
  m_warp_mask : BitVec 32
  m_byte_mask : BitVec 128
  m_sector_mask : BitVec 4
  deriving DecidableEq

def MemInst.active (w : MemInst) (thread : Nat) : Bool := w.m_warp_active_mask.getLsbD thread

/-- `address & ~(line_size - 1)` -/
def line_size_based_tag_func (address line_size : Nat) : Nat :=
  address &&& (2 ^ 64 - 1 - sub_size_t line_size 1)

def MemInst.sector_segment_size (w : MemInst) : Bool :=
  if 20 ≤ w.m_config.gpgpu_coalesce_arch ∧ w.m_config.gpgpu_coalesce_arch < 39 then
    w.m_config.gmem_skip_L1D || w.cache_global
  else decide (40 ≤ w.m_config.gpgpu_coalesce_arch)

def MemInst.segment_size (w : MemInst) : Nat :=
  match w.data_size with
  | 1 => 32
  | 2 => if w.sector_segment_size then 32 else 64
  | 4 => if w.sector_segment_size then 32 else 128
  | 8 => if w.sector_segment_size then 32 else 128
  | 16 => if w.sector_segment_size then 32 else 128
  | _ => 0

def MemInst.subwarp_size (w : MemInst) : Nat := w.m_config.warp_size / w.m_config.mem_warp_parts

/-- The active threads of a subwarp, in the order of the loop. -/
def MemInst.threadsOf (w : MemInst) (subwarp : Nat) : List Nat :=
  (List.range' (subwarp * w.subwarp_size) w.subwarp_size).filter w.active

def MemInst.block_address (w : MemInst) (addr : Nat) : Nat :=
  line_size_based_tag_func addr w.segment_size

/-- What a request adds to its transaction. Bytes past the 128 of the mask are left
out. -/
def TransactionInfo.record (info : TransactionInfo) (thread addr size : Nat) : TransactionInfo where
  chunks := set info.chunks ((addr % 128) / 32)
  active := set info.active thread
  bytes := setRange info.bytes (addr % 128) size

/-! ## Reducing a transaction -/

/-- The end of the reduction, for 64 bytes with these halves. -/
def reduceHalves (lower upper : Bool) (addr : Nat) : Nat × Nat :=
  if lower && !upper then (addr, 32)
  else if !lower && upper then (addr + 32, 32)
  else (addr, 64)

/-- The address and size that are left. -/
def reduceSegment (q : BitVec 4) (addr segment_size : Nat) : Nat × Nat :=
  if segment_size = 128 then
    let lower_half_used := q.getLsbD 0 || q.getLsbD 1
    let upper_half_used := q.getLsbD 2 || q.getLsbD 3
    if lower_half_used && !upper_half_used then reduceHalves (q.getLsbD 0) (q.getLsbD 1) addr
    else if !lower_half_used && upper_half_used then
      reduceHalves (q.getLsbD 2) (q.getLsbD 3) (addr + 64)
    else (addr, 128)
  else if segment_size = 64 then
    if addr % 128 = 0 then reduceHalves (q.getLsbD 0) (q.getLsbD 1) addr
    else reduceHalves (q.getLsbD 2) (q.getLsbD 3) addr
  else (addr, segment_size)

/-- The assertions of the reduction. -/
def reduceAsserts (q : BitVec 4) (addr segment_size : Nat) : Bool :=
  addr &&& ((segment_size + 2 ^ 32 - 1) % 2 ^ 32) = 0 && decide (1 ≤ count q) &&
    (if segment_size = 64 then
      if addr % 128 = 0 then q.getLsbD 0 || q.getLsbD 1
      else decide (addr % 128 = 64) && (q.getLsbD 2 || q.getLsbD 3)
    else true)

/-- The access that is pushed to `m_accessq`. -/
def MemInst.reducedAccess (w : MemInst) (info : TransactionInfo) (addr : Nat) : MemAccessT where
  m_type := w.access_type
  m_addr := (reduceSegment info.chunks addr w.segment_size).1
  m_req_size := (reduceSegment info.chunks addr w.segment_size).2
  m_write := w.is_write
  m_warp_mask := info.active
  m_byte_mask := info.bytes
  m_sector_mask := info.chunks

/-- None is a failed assertion. -/
def MemInst.memory_coalescing_arch_reduce_and_send (w : MemInst) (info : TransactionInfo)
    (addr : Nat) : Option MemAccessT :=
  if reduceAsserts info.chunks addr w.segment_size then some (w.reducedAccess info addr) else none

/-! ## Ordinary accesses -/

/-- The addresses of a thread, up to the first that is 0. -/
def MemInst.requestsOf (w : MemInst) (thread : Nat) : List Nat :=
  ((List.range MAX_ACCESSES_PER_INSN_PER_THREAD).map (w.memreqaddr thread)).takeWhile (· ≠ 0)

def MemInst.is_local (w : MemInst) : Prop :=
  w.space = .local_space ∨ w.space = .param_space_local

instance (w : MemInst) : Decidable w.is_local := inferInstanceAs (Decidable (_ ∨ _))

def MemInst.data_size_coales (w : MemInst) : Nat :=
  if w.is_local ∧ 4 ≤ w.data_size then 4 else w.data_size

def MemInst.num_accesses (w : MemInst) : Nat :=
  if w.is_local ∧ 4 ≤ w.data_size then w.data_size / 4 else 1

/-- `addr + data_size_coales - 1` -/
def MemInst.lastByte (w : MemInst) (addr : Nat) : Nat :=
  sub_size_t (addr + w.data_size_coales) 1

def MemInst.touch (w : MemInst) (thread : Nat) (m : StdMap Nat TransactionInfo) (addr : Nat) :
    StdMap Nat TransactionInfo :=
  m.alter (w.block_address addr) {} fun info => info.record thread addr w.data_size_coales

/-- One address of a thread. Where it runs over its segment the last byte is taken
for a request of its own. -/
def MemInst.request (w : MemInst) (thread : Nat) (m : StdMap Nat TransactionInfo) (addr : Nat) :
    StdMap Nat TransactionInfo :=
  let m := w.touch thread m addr
  if w.block_address addr ≠ w.block_address (w.lastByte addr) then
    w.touch thread m (w.lastByte addr)
  else m

/-- The transactions of a subwarp. -/
def MemInst.subwarp_transactions (w : MemInst) (subwarp : Nat) : StdMap Nat TransactionInfo :=
  (w.threadsOf subwarp).foldl (fun m thread => (w.requestsOf thread).foldl (w.request thread) m)
    .empty

/-- The accesses of a subwarp. None is a failed assertion, of the number of accesses
too, which is checked for each active thread. -/
def MemInst.coalesceSubwarp (w : MemInst) (subwarp : Nat) : Option (List MemAccessT) :=
  if w.threadsOf subwarp ≠ [] ∧ MAX_ACCESSES_PER_INSN_PER_THREAD < w.num_accesses then none
  else (w.subwarp_transactions subwarp).entries.mapM fun t =>
    w.memory_coalescing_arch_reduce_and_send t.2 t.1

/-- What the call pushes to `m_accessq`. None is a failed assertion. -/
def MemInst.memory_coalescing_arch (w : MemInst) : Option (List MemAccessT) :=
  ((List.range w.m_config.mem_warp_parts).mapM w.coalesceSubwarp).map List.flatten

/-! ## Atomics -/

def TransactionInfo.test_bytes (info : TransactionInfo) (start_bit size : Nat) : Bool :=
  (List.range' start_bit size).any info.bytes.getLsbD

/-- The first transaction whose bytes the thread does not meet, or a new one. The
loop over the list has looked at the bytes that are asserted to be free. -/
def placeAtomic (thread addr size : Nat) : List TransactionInfo → List TransactionInfo
  | [] => [({} : TransactionInfo).record thread addr size]
  | info :: rest =>
    if info.test_bytes (addr % 128) size then info :: placeAtomic thread addr size rest
    else info.record thread addr size :: rest

/-- None where the atomic is not contained in one segment. -/
def MemInst.atomicThread (w : MemInst) (m : StdMap Nat (List TransactionInfo)) (thread : Nat) :
    Option (StdMap Nat (List TransactionInfo)) :=
  let addr := w.memreqaddr thread 0
  if w.block_address addr ≠ w.block_address (sub_size_t (addr + w.data_size) 1) then none
  else some (m.alter (w.block_address addr) [] (placeAtomic thread addr w.data_size))

def MemInst.atomicSubwarp (w : MemInst) (subwarp : Nat) : Option (List MemAccessT) :=
  ((w.threadsOf subwarp).foldlM w.atomicThread .empty).bind fun m =>
    (m.entries.flatMap fun t_list => t_list.2.map fun info => (info, t_list.1)).mapM fun t =>
      w.memory_coalescing_arch_reduce_and_send t.1 t.2

/-- What the call pushes to `m_accessq`. None is a failed assertion. -/
def MemInst.memory_coalescing_arch_atomic (w : MemInst) : Option (List MemAccessT) :=
  if w.space ≠ .global_space then none
  else ((List.range w.m_config.mem_warp_parts).mapM w.atomicSubwarp).map List.flatten

end warp_inst_t

end gpgpu_sim_uvm
