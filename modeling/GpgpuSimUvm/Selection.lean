-- When the selection of a victim takes no undefined step: every walk over a tested range comes
-- to its end, no modulus by zero is taken, and no iterator is advanced past the end.
import GpgpuSimUvm.HandledPages

namespace gpgpu_sim_uvm

variable (cfg : Config)

/-! ## The candidates of a selection -/

/-- The policy tests basic blocks, and not the entries themselves. -/
def testsBlocks (g : Gpu) : Bool :=
  decide ((g.evict_policy = .SEQUENTIAL_LOCAL ∨ g.evict_policy = .TBN) ∧
    cfg.page_size ≠ MAX_PREFETCH_SIZE)

/-- The range that `is_block_evictable` is asked about for an entry. -/
def testedRange (g : Gpu) (e : EvictionT) : Nat × Nat :=
  if testsBlocks cfg g then (Forest.get_basic_block g.large_page_info e.addr, MIN_PREFETCH_SIZE)
  else (e.addr, e.size)

def passes (g : Gpu) (e : EvictionT) : Bool :=
  decide (is_block_evictable cfg g (testedRange cfg g e).1 (testedRange cfg g e).2 = some true)

variable {cfg}

section

variable {g : Gpu} (h : Handles cfg g)
include h

end

end gpgpu_sim_uvm
