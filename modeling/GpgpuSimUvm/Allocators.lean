-- The two allocators of device memory. They go up from two fixed addresses, and
-- the frames that unmanaged memory can get end below the managed heap, so that
-- no page holds bytes of both and the flag of a page tells whose it is.
import GpgpuSimUvm.Translation

namespace gpgpu_sim_uvm

open monitor

variable {cfg : Config}

/-! ## What the allocators return -/

namespace DeviceRange

/-- The range ends before the other begins. -/
def Before (a b : DeviceRange) : Prop := a.addr + a.size ≤ b.addr

def Disjoint (a b : DeviceRange) : Prop := a.Before b ∨ b.Before a

/-- The byte at `addr` belongs to the range. -/
def Holds (a : DeviceRange) (addr : Nat) : Prop := a.addr ≤ addr ∧ addr < a.addr + a.size

end DeviceRange

def MANAGED_HEAP_START : Nat := GLOBAL_HEAP_START + GLOBAL_MEM_SIZE_MAX

/-- The two heaps. The unmanaged one holds no more than its frames, and a page
is flagged as managed only behind the start of the managed one. -/
structure HeapsLaidOut (cfg : Config) (g : Gpu) : Prop where
  m_dev_malloc : g.m_dev_malloc ≤ GLOBAL_HEAP_START + g.unmanaged_frames * cfg.page_size
  m_dev_malloc_managed : MANAGED_HEAP_START ≤ g.m_dev_malloc_managed
  unmanaged : ∀ a ∈ g.ranges, a.managed = false → a.addr + a.size ≤ g.m_dev_malloc
  managed : ∀ a ∈ g.ranges, a.managed = true →
    MANAGED_HEAP_START ≤ a.addr ∧ a.addr + a.size ≤ g.m_dev_malloc_managed
  disjoint : g.ranges.Pairwise fun a b => a.managed = b.managed → b.Before a
  flagged : ∀ a ∈ g.ranges, a.managed = true → ∀ addr, a.Holds addr →
    (pageOf g.m_data (cfg.get_page_num addr)).managed = true
  unflagged : ∀ p, (pageOf g.m_data p).managed = true → cfg.get_page_num MANAGED_HEAP_START ≤ p

/-! ## The allocations -/

/-- The pages of a range are those of its bytes. -/
theorem page_mem_pagesOfRange {a : DeviceRange} {addr : Nat} (h : a.Holds addr) :
    cfg.get_page_num addr ∈ pagesOfRange cfg a.addr a.size := by
  obtain ⟨hlow, hhigh⟩ := h
  have hfirst : cfg.get_page_num a.addr ≤ cfg.get_page_num addr := Nat.div_le_div_right hlow
  have hlast : cfg.get_page_num addr ≤ cfg.get_page_num (a.addr + a.size - 1) :=
    Nat.div_le_div_right (by omega)
  apply List.mem_range'_1.mpr
  omega

/-- A step that allocates nothing and leaves the flags alone. -/
theorem HeapsLaidOut.spared {g g' : Gpu} (h : HeapsLaidOut cfg g)
    (hheap : g'.m_dev_malloc = g.m_dev_malloc)
    (hmanaged : g'.m_dev_malloc_managed = g.m_dev_malloc_managed)
    (hframes : g'.unmanaged_frames = g.unmanaged_frames) (hranges : g'.ranges = g.ranges)
    (hflags : ∀ p, (pageOf g'.m_data p).managed = (pageOf g.m_data p).managed) :
    HeapsLaidOut cfg g' := by
  refine ⟨?_, ?_, ?_, ?_, ?_, ?_, ?_⟩
  · rw [hheap, hframes]
    exact h.m_dev_malloc
  · rw [hmanaged]
    exact h.m_dev_malloc_managed
  · rw [hranges, hheap]
    exact h.unmanaged
  · rw [hranges, hmanaged]
    exact h.managed
  · rw [hranges]
    exact h.disjoint
  · simp only [hranges, hflags]
    exact h.flagged
  · simp only [hflags]
    exact h.unflagged

namespace HeapsLaidOut

variable {g : Gpu}

end HeapsLaidOut

/-- A kilobyte, a managed buffer, and 300 bytes more. -/
def threeRequests : List Action :=
  [.cudaMalloc 1000, .cudaMallocManaged 65536 70000, .cudaMalloc 300]

end gpgpu_sim_uvm
