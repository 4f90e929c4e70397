-- The page table and the frame counter of the global memory (memory.cc), and
-- the two memories as functions of the address.
import GpgpuSimUvm.Gpu

namespace gpgpu_sim_uvm

/-! ## The page table -/

/-- The entry of a page, with the flags of a fresh page where there is none. -/
def pageOf (m : StdMap Nat MemStorage) (p : Nat) : MemStorage := m.findD p {}

/-- Changes the flags of a page. `operator[]` makes the entry if need be. -/
def setPage (m : StdMap Nat MemStorage) (p : Nat) (f : MemStorage → MemStorage) :
    StdMap Nat MemStorage :=
  m.alter p {} f

@[simp] theorem pageOf_empty (p : Nat) : pageOf .empty p = {} := rfl

theorem pageOf_setPage (m : StdMap Nat MemStorage) (p q : Nat) (f : MemStorage → MemStorage) :
    pageOf (setPage m p f) q = if q = p then f (pageOf m p) else pageOf m q := by
  unfold pageOf setPage
  split
  · rename_i h
    subst h
    exact m.findD_alter_self _ _ _ f
  · rename_i h
    exact m.findD_alter_ne _ _ f h

def is_valid (g : Gpu) (p : Nat) : Bool := (pageOf g.m_data p).valid
def is_page_dirty (g : Gpu) (p : Nat) : Bool := (pageOf g.m_data p).dirty

/-- The page table has an entry for the page. -/
def is_mapped (g : Gpu) (p : Nat) : Bool := g.m_data.contains p

variable (cfg : Config)

def validate_page (m : StdMap Nat MemStorage) (p : Nat) : StdMap Nat MemStorage :=
  setPage m p fun s => { s with valid := true }

/-- `invalidate_page`, `clear_page_dirty` and `clear_page_access`, which the
callers make together. -/
def invalidate_page (m : StdMap Nat MemStorage) (p : Nat) : StdMap Nat MemStorage :=
  setPage m p fun s => { s with valid := false, dirty := false, access := false }

def set_page_access (m : StdMap Nat MemStorage) (p : Nat) : StdMap Nat MemStorage :=
  setPage m p fun s => { s with access := true }

def set_page_dirty (m : StdMap Nat MemStorage) (p : Nat) : StdMap Nat MemStorage :=
  setPage m p fun s => { s with dirty := true }

/-- The pages from that of `addr` to that of `addr + length - 1`. -/
def pagesOfRange (addr length : Nat) : List Nat :=
  List.range' (cfg.get_page_num addr)
    (cfg.get_page_num (addr + length - 1) + 1 - cfg.get_page_num addr)

def set_pages_managed (m : StdMap Nat MemStorage) (addr length : Nat) : StdMap Nat MemStorage :=
  (pagesOfRange cfg addr length).foldl (fun m p => setPage m p fun s => { s with managed := true }) m

def is_page_managed (g : Gpu) (addr length : Nat) : Bool :=
  (pageOf g.m_data (cfg.get_page_num (addr + length - 1))).managed

/-- What the lookup of `is_page_managed` leaves in the page table. -/
def touchPage (m : StdMap Nat MemStorage) (addr length : Nat) : StdMap Nat MemStorage :=
  setPage m (cfg.get_page_num (addr + length - 1)) id

def get_faulty_pages (g : Gpu) (addr length : Nat) : List Nat :=
  (pagesOfRange cfg addr length).filter fun p => !is_valid g p

/-- The assertions of the calls of `is_valid` in `get_faulty_pages`. -/
def rangeMapped (g : Gpu) (addr length : Nat) : Bool :=
  (pagesOfRange cfg addr length).all (is_mapped g)

/-! ## The counters of the pages -/

namespace NewStats

/-- `times[p]++` -/
def bump (times : Nat → Nat) (p : Nat) : Nat → Nat := fun q => if q = p then times q + 1 else times q

/-- An access that `access_cycle` has not met before, on the page of the access
in front of its queue. -/
def countAccess (st : NewStats) (sid uid page_no : Nat) (managed in_tlb : Bool) : NewStats :=
  { st with
    ma_latency := (sid, uid) :: st.ma_latency
    page_tlb_hit_times :=
      if managed && in_tlb then bump st.page_tlb_hit_times page_no else st.page_tlb_hit_times
    page_tlb_miss_times :=
      if managed && !in_tlb then bump st.page_tlb_miss_times page_no else st.page_tlb_miss_times
    page_access_times := fun s =>
      if s = sid then bump (st.page_access_times s) page_no else st.page_access_times s }

/-- A page table walk, which finds the page or does not. -/
def countWalk (st : NewStats) (page_num : Nat) (found : Bool) : NewStats :=
  { st with
    page_tlb_miss_pt_hit_times :=
      if found then bump st.page_tlb_miss_pt_hit_times page_num else st.page_tlb_miss_pt_hit_times
    page_tlb_miss_pt_miss_times :=
      if found then st.page_tlb_miss_pt_miss_times
      else bump st.page_tlb_miss_pt_miss_times page_num }

def countPending (st : NewStats) (page_num : Nat) : NewStats :=
  { st with page_fault_pending_times := bump st.page_fault_pending_times page_num }

def countOutstanding (st : NewStats) (page_num : Nat) : NewStats :=
  { st with page_fault_outstand_times := bump st.page_fault_outstand_times page_num }

end NewStats

/-! ## The frame counter -/

/-- `num_gddr_pages - num_free_pages + read_stage_queue_size` -/
def frames_taken (g : Gpu) (read_stage_queue_size : Nat) : Nat :=
  sub_size_t (cfg.num_gddr_pages + read_stage_queue_size) g.num_free_pages

def should_evict_page (g : Gpu) (read_stage_queue_size write_stage_queue_size : Nat) : Bool :=
  decide (((write_stage_queue_size + cfg.num_gddr_pages : Nat) : ℚ) <
    (cfg.num_gddr_pages : ℚ) * cfg.free_page_buffer_percentage / 100 +
      ((frames_taken cfg g read_stage_queue_size : Nat) : ℚ))

def get_projected_occupancy (g : Gpu) (read_stage_queue_size write_stage_queue_size : Nat) : ℚ :=
  ((cfg.num_gddr_pages : ℚ) * cfg.free_page_buffer_percentage / 100 +
      ((frames_taken cfg g read_stage_queue_size : Nat) : ℚ)) /
    ((write_stage_queue_size + cfg.num_gddr_pages : Nat) : ℚ)

/-- `(size - 1) / BSIZE + 1`, the frames of an unmanaged allocation. For no
bytes the difference wraps. -/
def frames_of_bytes (size : Nat) : Nat :=
  (if size = 0 then SIZE_T - 1 else size - 1) / cfg.page_size + 1

/-! ## The bytes -/

/-- `memcpy`: `n` bytes of `src` from `s` on, over those of `dst` from `d` on. -/
def copyBytes (dst : Nat → UInt8) (d : Nat) (src : Nat → UInt8) (s n : Nat) : Nat → UInt8 :=
  fun a => if d ≤ a ∧ a < d + n then src (s + (a - d)) else dst a

def writeByte (m : Nat → UInt8) (a : Nat) (v : UInt8) : Nat → UInt8 :=
  fun b => if b = a then v else m b

/-- The bytes of one allocation in `gpu_writeback`, from the page at `gpuMemAddr`. -/
def writeback_allocation (device : Nat → UInt8) (gpuMemAddr : Nat) (host : Nat → UInt8)
    (a : AllocationInfo) : Nat → UInt8 :=
  let page_num := cfg.get_page_num gpuMemAddr
  let devPtr := a.gpu_mem_addr
  if a.copied ∧ cfg.get_page_num devPtr ≤ page_num ∧
      page_num ≤ cfg.get_page_num (devPtr + a.allocation_size) then
    if page_num = cfg.get_page_num devPtr then
      let size_on_page := cfg.page_size - (devPtr - gpuMemAddr)
      copyBytes host a.cpu_mem_addr device devPtr
        (if size_on_page > a.allocation_size then a.allocation_size else size_on_page)
    else
      let size_remaining := a.allocation_size - (gpuMemAddr - devPtr)
      copyBytes host (a.cpu_mem_addr + (gpuMemAddr - devPtr)) device gpuMemAddr
        (if size_remaining > cfg.page_size then cfg.page_size else size_remaining)
  else host

def gpu_writeback (g : Gpu) (host : Nat → UInt8) (gpuMemAddr : Nat) : Nat → UInt8 :=
  g.managedAllocations.foldl (writeback_allocation cfg g.device gpuMemAddr) host

end gpgpu_sim_uvm
