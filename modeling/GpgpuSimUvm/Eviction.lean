-- The eviction candidates and the staging of evictions: the list of valid
-- pages and its order, the search for a victim under each policy, and the
-- cancellation of a staged eviction whose page is accessed again.
import GpgpuSimUvm.Policy
import Mathlib.Data.List.Sort

namespace gpgpu_sim_uvm

variable (cfg : Config)

/-! ## The trees as the callers use them -/

/-- `update_basic_block(get_lp_node(addr), ...)`. Without a tree the call
follows a NULL pointer. -/
def updateBlock (g : Gpu) (addr size : Nat) (prefetch : Bool) : Gpu :=
  { g with
    large_page_info :=
      Forest.modifyTree (fun t => t.update_basic_block addr size prefetch) addr g.large_page_info
    history := .block_updated (Forest.leafOf g.large_page_info addr) size prefetch :: g.history
    aborted := g.aborted || (Forest.get_lp_node g.large_page_info addr).isNone }

/-! ## The list of valid pages -/

def EvictionT.covers (e : EvictionT) (addr : Nat) : Bool :=
  decide (e.addr ≤ addr ∧ addr < e.addr + e.size)

def get_eviction_base_addr (g : Gpu) (page_addr : Nat) : Nat :=
  match g.evict_policy with
  | .TBN | .SEQUENTIAL_LOCAL => Forest.get_basic_block g.large_page_info page_addr
  | .LRU4K | .RANDOM => page_addr
  | .LRU | .LFU => Forest.rootAddr g.large_page_info page_addr

def get_eviction_granularity (g : Gpu) (page_addr : Nat) : Nat :=
  match g.evict_policy with
  | .TBN | .SEQUENTIAL_LOCAL => MIN_PREFETCH_SIZE
  | .LRU4K | .RANDOM => cfg.page_size
  | .LRU | .LFU => Forest.rootSize g.large_page_info page_addr

/-- Gives the first entry that covers the address the current cycle. -/
def touchEntry (addr now : Nat) : List EvictionT → List EvictionT
  | [] => []
  | e :: es => if e.covers addr then { e with cycle := now } :: es else e :: touchEntry addr now es

/-- The current policy takes the tree of an address to make its entry. -/
def entryNeedsTree (g : Gpu) : Bool :=
  !decide (g.evict_policy = .LRU4K ∨ g.evict_policy = .RANDOM)

def newEntry (g : Gpu) (page_addr : Nat) : EvictionT where
  addr := get_eviction_base_addr g page_addr
  size := get_eviction_granularity cfg g page_addr
  cycle := g.sim_cycle

def refresh_valid_pages (g : Gpu) (page_addr : Nat) : Gpu :=
  let valid := g.valid_pages.any fun e => e.covers page_addr
  { g with
    valid_pages :=
      if valid then touchEntry page_addr g.sim_cycle g.valid_pages
      else g.valid_pages ++ [newEntry cfg g page_addr]
    aborted :=
      g.aborted || (!valid && entryNeedsTree g &&
        (Forest.get_lp_node g.large_page_info page_addr).isNone) }

def valid_pages_erase (vp : List EvictionT) (page_num : Nat) : List EvictionT :=
  vp.eraseP fun e => e.covers (cfg.get_mem_addr page_num)

/-- The entry with the counters of the tree that starts where it does. -/
def copyCounters (ts : Forest) (e : EvictionT) : EvictionT :=
  match ts.find? (fun t => t.addr = e.addr) with
  | some t => { e with access_counter := t.data.access_counter, RW := t.data.RW }
  | none => e

/-- The order of the entries under `LFU`. -/
def lfuLe (i j : EvictionT) : Bool :=
  !(decide (j.access_counter < i.access_counter) ||
    (decide (j.access_counter = i.access_counter) && decide (j.RW < i.RW)) ||
    (decide (j.access_counter = i.access_counter) && decide (j.RW = i.RW) &&
      decide (j.cycle < i.cycle)))

/-- `list::sort` with the order `le`, which keeps the order of equals. -/
def stableSort {A : Type} (le : A → A → Bool) (l : List A) : List A :=
  l.insertionSort (fun a b => le a b = true)

/-- The candidates of one tree after another, the trees by their newest entry. -/
def groupByTree (ts : Forest) (vp : List EvictionT) : List EvictionT :=
  let tempMap : StdMap Nat (List EvictionT) :=
    vp.foldl (fun m e => m.alter (Forest.rootAddr ts e.addr) [] (· ++ [e])) .empty
  let newestFirst := tempMap.values.map (stableSort fun i j => decide (j.cycle ≤ i.cycle))
  let newest (l : List EvictionT) : Nat := (l.head?.map EvictionT.cycle).getD 0
  let tempList := stableSort (fun i j => decide (newest i ≤ newest j)) newestFirst
  tempList.flatMap (stableSort fun i j => decide (i.cycle ≤ j.cycle))

def sort_valid_pages (g : Gpu) : List EvictionT :=
  let vp := g.valid_pages.map (copyCounters g.large_page_info)
  match g.evict_policy with
  | .LFU => stableSort lfuLe vp
  | .TBN | .SEQUENTIAL_LOCAL => groupByTree g.large_page_info vp
  | _ => stableSort (fun i j => decide (i.cycle ≤ j.cycle)) vp

/-! ## Whether a block can be evicted -/

/-- Whether `n` pages from `p` on are valid, and none when the walk comes to a
page that the page table does not have. -/
def blockValid (g : Gpu) : Nat → Nat → Option Bool
  | _, 0 => some true
  | p, n + 1 =>
    if !is_mapped g p then none else if !is_valid g p then some false else blockValid g (p + 1) n

/-- `reserve_pages_check` by page number. -/
def reserve_pages_check (g : Gpu) (p : Nat) : Bool := !g.reserve_pages.contains p

/-- A load that went past the L1 has given its reservation back. It is in
flight to a managed page that nobody else reserves. -/
def unguarded (g : Gpu) : Bool :=
  (List.range (num_shader cfg)).any fun s =>
    (g.ldst s).in_flight.any fun e =>
      decide (e.way = .icnt) && !e.access.isWrite &&
        is_page_managed cfg g e.access.addr e.access.size &&
        reserve_pages_check g (cfg.get_page_num e.access.addr)

/-- None stands for a failed assertion. A size that is not a multiple of the
page size is never hit by the walk, which then ends at a page that is not
valid, or not there. -/
def is_block_evictable (g : Gpu) (addr size : Nat) : Option Bool :=
  let first := cfg.get_page_num addr
  if size % cfg.page_size = 0 then
    (blockValid g first (size / cfg.page_size)).map fun valid =>
      valid &&
      g.pcie_write_stage_queue.all (fun t =>
        !decide (t.start_addr ≤ addr ∧ addr < t.start_addr + t.size)) &&
      (List.range' first (size / cfg.page_size)).all (reserve_pages_check g)
  else
    (blockValid g first (g.m_data.entries.length + 1)).bind fun valid =>
      if valid then none else some false

/-! ## The search for a victim -/

/-- The first entry that passes the test, and none when the test aborts before. -/
def firstEvictable (test : EvictionT → Option Bool) : List EvictionT → Option (Option EvictionT)
  | [] => some none
  | e :: es => (test e).bind fun ok => if ok then some (some e) else firstEvictable test es

/-- What the first step of `page_eviction_procedure` decides. -/
structure Victims where
  evicted_pages : List (Nat × Nat) := []
  trees : Forest
  event : List Event := []
  /-- The calls of `rand()`. -/
  calls : Nat := 0
  abort : Bool := false

/-- `(int)(valid_pages.size() * reserve_accessed_page_percent / 100)` -/
def eviction_start (vp : List EvictionT) : Nat :=
  ⌊(vp.length : ℚ) * cfg.reserve_accessed_page_percent / 100⌋.toNat

/-- `(int)(valid_pages.size() * (1 - reserve_accessed_page_percent / 100))` -/
def random_range (vp : List EvictionT) : Nat :=
  ⌊(vp.length : ℚ) * (1 - cfg.reserve_accessed_page_percent / 100)⌋.toNat

/-- `LRU4K`, and `RANDOM` with 4KB pages: one page at the address of the entry. -/
def evictPage (g : Gpu) (candidates : List EvictionT) : Victims :=
  match firstEvictable (fun e => is_block_evictable cfg g e.addr e.size) candidates with
  | none => { trees := g.large_page_info, abort := true }
  | some none => { trees := g.large_page_info }
  | some (some e) =>
    { evicted_pages := [(e.addr, cfg.page_size)]
      trees := (updateBlock g e.addr cfg.page_size false).large_page_info
      event := [.block_updated (Forest.leafOf g.large_page_info e.addr) cfg.page_size false]
      abort := (Forest.get_lp_node g.large_page_info e.addr).isNone }

/-- `LRU`, `LFU` and every policy with 2MB pages: the tree of the entry. -/
def evictTree (g : Gpu) (candidates : List EvictionT) : Victims :=
  match firstEvictable (fun e => is_block_evictable cfg g e.addr e.size) candidates with
  | none => { trees := g.large_page_info, abort := true }
  | some none => { trees := g.large_page_info }
  | some (some e) =>
    { evicted_pages :=
        [(Forest.rootAddr g.large_page_info e.addr, Forest.rootSize g.large_page_info e.addr)]
      trees := Forest.modifyTree LpTree.evict_whole_tree e.addr g.large_page_info
      abort := (Forest.get_lp_node g.large_page_info e.addr).isNone }

/-- The first entry whose basic block passes `is_block_evictable`. -/
def firstEvictableBlock (g : Gpu) (candidates : List EvictionT) : Option (Option EvictionT) :=
  firstEvictable
    (fun e =>
      if (Forest.get_lp_node g.large_page_info e.addr).isNone then none
      else is_block_evictable cfg g (Forest.get_basic_block g.large_page_info e.addr)
        MIN_PREFETCH_SIZE) candidates

/-- `SEQUENTIAL_LOCAL` with 4KB pages: the basic block of the entry. -/
def evictBlock (g : Gpu) (candidates : List EvictionT) : Victims :=
  match firstEvictableBlock cfg g candidates with
  | none => { trees := g.large_page_info, abort := true }
  | some none => { trees := g.large_page_info }
  | some (some e) =>
    { evicted_pages := [(Forest.get_basic_block g.large_page_info e.addr, MIN_PREFETCH_SIZE)]
      trees := (updateBlock g e.addr MIN_PREFETCH_SIZE false).large_page_info
      event := [.block_updated (Forest.leafOf g.large_page_info e.addr) MIN_PREFETCH_SIZE false] }

/-- Puts a basic block in front of the groups of contiguous blocks. -/
def groupBlocks : List Nat → List (Nat × Nat)
  | [] => []
  | b :: bs =>
    match groupBlocks bs with
    | [] => [(b, MIN_PREFETCH_SIZE)]
    | (a, s) :: rest =>
      if a = b + MIN_PREFETCH_SIZE then (b, s + MIN_PREFETCH_SIZE) :: rest
      else (b, MIN_PREFETCH_SIZE) :: (a, s) :: rest

/-- `TBN` with 4KB pages: the basic block of the entry, and the blocks that the
tree gives up with it. -/
def evictBlocksOfTree (g : Gpu) (candidates : List EvictionT) : Victims :=
  match firstEvictableBlock cfg g candidates with
  | none => { trees := g.large_page_info, abort := true }
  | some none => { trees := g.large_page_info }
  | some (some e) =>
    let bb_addr := Forest.get_basic_block g.large_page_info e.addr
    let ts := (updateBlock g e.addr MIN_PREFETCH_SIZE false).large_page_info
    let evictable := fun bb => is_block_evictable cfg g bb MIN_PREFETCH_SIZE = some true
    let remove := LpTree.traverse_and_remove_lp_tree fun bb => decide (evictable bb)
    let start : BlockSet := StdMap.empty.alter bb_addr () id
    { evicted_pages :=
        groupBlocks ((Forest.get_lp_node ts e.addr).elim start fun t => (remove t start).2).keys
      trees := Forest.modifyTree (fun t => (remove t start).1) e.addr ts
      event := [.block_updated (Forest.leafOf g.large_page_info e.addr) MIN_PREFETCH_SIZE false] }

/-- The victims under the current policy, from the sorted candidates. -/
def chooseVictims (g : Gpu) (vp : List EvictionT) : Victims :=
  let candidates := vp.drop (eviction_start cfg vp)
  if g.evict_policy = .LRU4K then evictPage cfg g candidates
  else if g.evict_policy = .LRU ∨ g.evict_policy = .LFU ∨ cfg.page_size = MAX_PREFETCH_SIZE then
    evictTree cfg g candidates
  else if g.evict_policy = .RANDOM then
    if random_range cfg vp = 0 then { trees := g.large_page_info, calls := 1, abort := true }
    else
      { evictPage cfg g (candidates.drop (cfg.rand g.rand_calls % random_range cfg vp)) with
        calls := 1 }
  else if g.evict_policy = .SEQUENTIAL_LOCAL then evictBlock cfg g candidates
  else evictBlocksOfTree cfg g candidates

/-! ## Staging -/

/-- The latency type by the first written entry that covers the start. -/
def evictionType (vp : List EvictionT) (start : Nat) : LatencyType :=
  if vp.any (fun e => e.covers start && decide (e.RW = 1)) then .INVALIDATE else .PCIE_WRITE_BACK

/-- The page list of an eviction. -/
def evictionPages (r : Nat × Nat) : List Nat :=
  if cfg.page_size = MAX_PREFETCH_SIZE then [cfg.get_page_num r.1]
  else List.range' (cfg.get_page_num r.1) (r.2 / cfg.page_size)

def stageEviction (g : Gpu) (r : Nat × Nat) : Gpu :=
  { g with
    valid_pages := (evictionPages cfg r).foldl (valid_pages_erase cfg) g.valid_pages
    pcie_write_stage_queue := g.pcie_write_stage_queue ++
      [{ start_addr := r.1, size := r.2, page_list := evictionPages cfg r,
         type := evictionType g.valid_pages r.1 }] }

/-- The state once the victims are chosen and before they are staged. -/
def takeVictims (g : Gpu) (vp : List EvictionT) (v : Victims) : Gpu :=
  { g with
    valid_pages := vp
    large_page_info := v.trees
    rand_calls := g.rand_calls + v.calls
    history := v.event ++
      .eviction_run g.evict_policy (g.pcie_write_stage_queue.map (·.start_addr)) :: g.history
    aborted := g.aborted || v.abort }

def page_eviction_procedure (g : Gpu) : Gpu :=
  let vp := sort_valid_pages g
  let v := chooseVictims cfg g vp
  v.evicted_pages.foldl (stageEviction cfg) (takeVictims g vp v)

/-! ## Cancellation -/

def markReclaimed (g : Gpu) (p : Nat) : Gpu :=
  { g with m_data := set_page_dirty (set_page_access g.m_data p) p }

/-- One page of a cancelled eviction. -/
def reclaimPage (g : Gpu) (p : Nat) : Gpu :=
  refresh_valid_pages cfg
    (updateBlock (markReclaimed g p) (cfg.get_mem_addr p) cfg.page_size true)
    (cfg.get_mem_addr p)

/-- A page that is about to be accessed is not evicted: the first staged
eviction with the page is taken back. -/
def check_write_stage_queue (g : Gpu) (page_num : Nat) : Gpu :=
  match g.pcie_write_stage_queue.find? (fun t => decide (page_num ∈ t.page_list)) with
  | none => g
  | some t =>
    { t.page_list.foldl (reclaimPage cfg) g with
      pcie_write_stage_queue :=
        g.pcie_write_stage_queue.eraseP fun t => decide (page_num ∈ t.page_list) }

end gpgpu_sim_uvm
