-- The trees and the managed pages. Every tree lies on managed pages, block by block, and
-- so do the candidates for eviction that are made from it.
import GpgpuSimUvm.Allocators
import GpgpuSimUvm.AccessWords
import GpgpuSimUvm.TreeLaws

namespace gpgpu_sim_uvm

open monitor

variable (cfg : Config)

/-! ## The trees and the page table -/

/-- The page belongs to a managed allocation. -/
def Managed (g : Gpu) (p : Nat) : Prop := (pageOf g.m_data p).managed = true

/-- Where the managed heap begins. -/
def managedHeapStart : Nat := GLOBAL_HEAP_START + GLOBAL_MEM_SIZE_MAX

/-- The trees lie on the managed pages, block by block, and cover the managed heap. -/
structure Ground (g : Gpu) : Prop where
  heap : MIN_PREFETCH_SIZE ∣ g.m_dev_malloc_managed
  heap_start : managedHeapStart ≤ g.m_dev_malloc_managed
  trees : ∀ t ∈ g.large_page_info,
    t.Tiled ∧ MIN_PREFETCH_SIZE ∣ t.addr ∧ t.size ≤ MAX_PREFETCH_SIZE
  backed : ∀ a, Forest.covers g.large_page_info a → Managed g (cfg.get_page_num a)
  laid : Forest.Laid g.large_page_info
  bounds : ∀ t ∈ g.large_page_info,
    managedHeapStart ≤ t.addr ∧ t.addr + t.size ≤ g.m_dev_malloc_managed
  limit : g.m_dev_malloc_managed ≤ MEM_SPACE_LIMIT
  reach : ∀ a, managedHeapStart ≤ a → a < g.m_dev_malloc_managed →
    Forest.covers g.large_page_info a
  housed : ∀ p, Managed g p → Forest.covers g.large_page_info (cfg.get_mem_addr p)
  allocations : ∀ a ∈ g.managedAllocations, ∀ i < a.allocation_size,
    Managed g (cfg.get_page_num (a.gpu_mem_addr + i))

/-- What no step changes but an allocation. -/
structure SameGround (g g' : Gpu) : Prop where
  shapes : Forest.shapes g'.large_page_info = Forest.shapes g.large_page_info
  managed : ∀ p, (pageOf g'.m_data p).managed = (pageOf g.m_data p).managed
  heap : g'.m_dev_malloc_managed = g.m_dev_malloc_managed
  allocations : g'.managedAllocations = g.managedAllocations

namespace SameGround

theorem refl (g : Gpu) : SameGround g g := ⟨rfl, fun _ => rfl, rfl, rfl⟩

theorem trans {a b c : Gpu} (h : SameGround a b) (h' : SameGround b c) : SameGround a c :=
  ⟨h'.shapes.trans h.shapes, fun p => (h'.managed p).trans (h.managed p),
    h'.heap.trans h.heap, h'.allocations.trans h.allocations⟩

theorem foldl {A : Type} {f : Gpu → A → Gpu} (hf : ∀ g a, SameGround g (f g a)) (as : List A)
    (g : Gpu) : SameGround g (as.foldl f g) := by
  induction as generalizing g with
  | nil => exact refl g
  | cons a as ih => exact (hf g a).trans (ih (f g a))

variable {g g' : Gpu}

theorem managed_iff (h : SameGround g g') (p : Nat) : Managed g' p ↔ Managed g p := by
  rw [Managed, Managed, h.managed]

theorem covers_iff (h : SameGround g g') (a : Nat) :
    Forest.covers g'.large_page_info a ↔ Forest.covers g.large_page_info a :=
  ⟨Forest.covers_of_shapes h.shapes, Forest.covers_of_shapes h.shapes.symm⟩

end SameGround

variable {cfg}

/-- The ground stands where its parts are the same, and the allocations lie where they lay. -/
theorem Ground.stays {g g' : Gpu} (h : Ground cfg g)
    (hshapes : Forest.shapes g'.large_page_info = Forest.shapes g.large_page_info)
    (hmanaged : ∀ p, (pageOf g'.m_data p).managed = (pageOf g.m_data p).managed)
    (hheap : g'.m_dev_malloc_managed = g.m_dev_malloc_managed)
    (hallocations : ∀ a ∈ g'.managedAllocations, ∃ b ∈ g.managedAllocations,
      a.gpu_mem_addr = b.gpu_mem_addr ∧ a.allocation_size = b.allocation_size) :
    Ground cfg g' := by
  have hpage : ∀ p, Managed g' p ↔ Managed g p := by
    intro p
    rw [Managed, Managed, hmanaged]
  refine ⟨?_, ?_, ?_, ?_, ?_, ?_, ?_, ?_, ?_, ?_⟩
  · rw [hheap]
    exact h.heap
  · rw [hheap]
    exact h.heap_start
  · intro t ht
    have hshape : t.shape ∈ Forest.shapes g.large_page_info := by
      rw [← hshapes]
      exact List.mem_map_of_mem ht
    obtain ⟨u, hu, hut⟩ := List.mem_map.mp hshape
    obtain ⟨htiled, haddr, hsize⟩ := h.trees u hu
    rw [← LpTree.addr_of_shape hut, ← LpTree.size_of_shape hut]
    exact ⟨LpTree.tiled_of_shape hut htiled, haddr, hsize⟩
  · intro a ha
    exact (hpage _).mpr (h.backed a (Forest.covers_of_shapes hshapes ha))
  · exact Forest.laid_of_shapes hshapes.symm h.laid
  · intro t ht
    have hshape : t.shape ∈ Forest.shapes g.large_page_info := by
      rw [← hshapes]
      exact List.mem_map_of_mem ht
    obtain ⟨u, hu, hut⟩ := List.mem_map.mp hshape
    rw [hheap, ← LpTree.addr_of_shape hut, ← LpTree.size_of_shape hut]
    exact h.bounds u hu
  · rw [hheap]
    exact h.limit
  · intro a hlow hhigh
    rw [hheap] at hhigh
    exact Forest.covers_of_shapes hshapes.symm (h.reach a hlow hhigh)
  · intro p hp
    exact Forest.covers_of_shapes hshapes.symm (h.housed p ((hpage p).mp hp))
  · intro a ha i hi
    obtain ⟨b, hb, haddr, hsize⟩ := hallocations a ha
    rw [haddr]
    apply (hpage _).mpr
    apply h.allocations b hb
    omega

theorem Ground.same {g g' : Gpu} (h : Ground cfg g) (hsame : SameGround g g') : Ground cfg g' := by
  apply h.stays hsame.shapes hsame.managed hsame.heap
  rw [hsame.allocations]
  exact fun a ha => ⟨a, ha, rfl, rfl⟩

theorem ground_boot : Ground cfg (boot cfg) := by
  refine ⟨?_, le_refl _, ?_, ?_, ⟨?_, List.Pairwise.nil⟩, ?_, ?_, ?_, ?_, ?_⟩
  · simp only [boot, MIN_PREFETCH_SIZE, GLOBAL_HEAP_START, GLOBAL_MEM_SIZE_MAX]
    decide
  · intro t ht
    cases ht
  · rintro a ⟨t, ht, -⟩
    cases ht
  · intro t ht
    cases ht
  · intro t ht
    cases ht
  · simp only [boot, GLOBAL_HEAP_START, GLOBAL_MEM_SIZE_MAX, MEM_SPACE_LIMIT]
    decide
  · intro a hlow hhigh
    exact absurd hhigh (Nat.not_lt_of_le hlow)
  · intro p hp
    cases hp
  · intro a ha
    cases ha

/-! ## Allocations -/

theorem roundedSize_dvd (size : Nat) : MIN_PREFETCH_SIZE ∣ roundedSize size := by
  have hmax : MIN_PREFETCH_SIZE ∣ MAX_PREFETCH_SIZE := by decide
  have hmod : MIN_PREFETCH_SIZE ∣ roundedSize size % MAX_PREFETCH_SIZE := by
    rcases roundedSize_mod size with h | ⟨k, -, h⟩
    · rw [h]
      exact Nat.dvd_zero _
    · rw [h]
      exact Nat.dvd_mul_right _ _
  exact (Nat.dvd_mod_iff hmax).mp hmod

theorem bumped_blocks (p : Nat) {size : Nat} (hs : MIN_PREFETCH_SIZE ∣ size) :
    bumped p size = p + size := by
  have h256 : size % 256 = 0 := by
    simp only [MIN_PREFETCH_SIZE] at hs
    omega
  simp [bumped, h256]

/-- The managed heap starts with a page. -/
theorem Config.managedHeapStart_page (cfg : Config) :
    cfg.get_mem_addr (cfg.get_page_num managedHeapStart) = managedHeapStart := by
  apply Nat.div_mul_cancel
  rcases cfg.page_size_ok with h | h
  · rw [h]
    decide
  · rw [h]
    decide

/-- The trees of an allocation lie in it, one behind the other. -/
theorem mem_largePages_within {addr size : Nat} {r : Nat × Nat} (h : r ∈ largePages addr size) :
    addr ≤ r.1 ∧ r.1 + r.2 ≤ addr + size := by
  have hdiv := Nat.div_add_mod size MAX_PREFETCH_SIZE
  rcases List.mem_append.mp h with h | h
  · obtain ⟨i, hi, rfl⟩ := List.mem_map.mp h
    have hin := Nat.mul_le_mul_left MAX_PREFETCH_SIZE (Nat.succ_le_of_lt (List.mem_range.mp hi))
    rw [Nat.mul_succ, Nat.mul_comm MAX_PREFETCH_SIZE i] at hin
    dsimp only
    omega
  · split_ifs at h with hmod
    · cases h
    · rw [List.mem_singleton.mp h, Nat.mul_comm]
      dsimp only
      omega

/-- The trees of an allocation follow one another. -/
theorem largePages_apart (addr size : Nat) :
    (largePages addr size).Pairwise (fun r s => r.1 + r.2 ≤ s.1) := by
  have hstep : ∀ {i j : Nat}, i < j → addr + i * MAX_PREFETCH_SIZE + MAX_PREFETCH_SIZE ≤
      addr + j * MAX_PREFETCH_SIZE := by
    intro i j hij
    have hle := Nat.mul_le_mul_right MAX_PREFETCH_SIZE (Nat.succ_le_of_lt hij)
    rw [Nat.succ_mul] at hle
    omega
  refine List.pairwise_append.mpr ⟨?_, ?_, ?_⟩
  · rw [List.pairwise_map]
    exact List.pairwise_lt_range.imp hstep
  · split_ifs
    · exact List.Pairwise.nil
    · exact List.pairwise_singleton _ _
  · intro r hr s hs
    obtain ⟨i, hi, rfl⟩ := List.mem_map.mp hr
    split_ifs at hs
    · cases hs
    · rw [List.mem_singleton.mp hs]
      exact hstep (List.mem_range.mp hi)

/-- Each address of an allocation lies in one of its trees. -/
theorem largePages_cover {addr size a : Nat} (hlow : addr ≤ a) (hhigh : a < addr + size) :
    ∃ r ∈ largePages addr size, r.1 ≤ a ∧ a < r.1 + r.2 := by
  have hdiv := Nat.div_add_mod size MAX_PREFETCH_SIZE
  have hoff := Nat.div_add_mod (a - addr) MAX_PREFETCH_SIZE
  have hlt := Nat.mod_lt (a - addr) (y := MAX_PREFETCH_SIZE) (by decide)
  by_cases hwhole : (a - addr) / MAX_PREFETCH_SIZE < size / MAX_PREFETCH_SIZE
  · refine ⟨(addr + (a - addr) / MAX_PREFETCH_SIZE * MAX_PREFETCH_SIZE, MAX_PREFETCH_SIZE),
      List.mem_append_left _ (List.mem_map.mpr ⟨_, List.mem_range.mpr hwhole, rfl⟩), ?_⟩
    rw [Nat.mul_comm] at hoff
    dsimp only
    omega
  · have hlast : (a - addr) / MAX_PREFETCH_SIZE = size / MAX_PREFETCH_SIZE := by
      have hle : (a - addr) / MAX_PREFETCH_SIZE ≤ size / MAX_PREFETCH_SIZE :=
        Nat.div_le_div_right (by omega)
      omega
    rw [hlast] at hoff
    have hmod : size % MAX_PREFETCH_SIZE ≠ 0 := by omega
    refine ⟨(addr + size / MAX_PREFETCH_SIZE * MAX_PREFETCH_SIZE, size % MAX_PREFETCH_SIZE),
      List.mem_append_right _ ?_, ?_⟩
    · rw [if_neg hmod]
      exact List.mem_singleton_self _
    · rw [Nat.mul_comm] at hoff hdiv
      dsimp only
      omega

theorem largePages_dvd {addr size : Nat} (ha : MIN_PREFETCH_SIZE ∣ addr) {r : Nat × Nat}
    (h : r ∈ largePages addr size) : MIN_PREFETCH_SIZE ∣ r.1 := by
  have hmax : MIN_PREFETCH_SIZE ∣ MAX_PREFETCH_SIZE := by decide
  rcases List.mem_append.mp h with h | h
  · obtain ⟨i, -, rfl⟩ := List.mem_map.mp h
    exact Nat.dvd_add ha (hmax.mul_left i)
  · split_ifs at h with hmod
    · cases h
    · rw [List.mem_singleton.mp h]
      exact Nat.dvd_add ha (hmax.mul_left _)

theorem build_lp_tree_bounds (a k : Nat) :
    (LpTree.build_lp_tree a (MIN_PREFETCH_SIZE * 2 ^ k)).addr = a ∧
      (LpTree.build_lp_tree a (MIN_PREFETCH_SIZE * 2 ^ k)).size = MIN_PREFETCH_SIZE * 2 ^ k := by
  have hk : k ≤ (MIN_PREFETCH_SIZE * 2 ^ k).log2 := by
    have hpos : MIN_PREFETCH_SIZE * 2 ^ k ≠ 0 := by
      have hpow := Nat.one_le_two_pow (n := k)
      simp only [MIN_PREFETCH_SIZE]
      omega
    rw [Nat.le_log2 hpos]
    exact Nat.le_mul_of_pos_left _ (by decide)
  exact (LpTree.tiled_buildLevels hk a).2

/-- A tree of an allocation. -/
theorem built_tree {addr size : Nat} (ha : MIN_PREFETCH_SIZE ∣ addr) {r : Nat × Nat}
    (hr : r ∈ largePages addr (roundedSize size)) :
    (LpTree.build_lp_tree r.1 r.2).Tiled ∧ (LpTree.build_lp_tree r.1 r.2).addr = r.1 ∧
      (LpTree.build_lp_tree r.1 r.2).size = r.2 ∧ MIN_PREFETCH_SIZE ∣ r.1 ∧
        r.2 ≤ MAX_PREFETCH_SIZE := by
  obtain ⟨k, hk, hsize⟩ := mem_largePages hr
  have hbounds := build_lp_tree_bounds r.1 k
  have htiled := LpTree.tiled_build_lp_tree r.1 k
  rw [← hsize] at hbounds htiled
  refine ⟨htiled, hbounds.1, hbounds.2, largePages_dvd ha hr, ?_⟩
  rw [hsize]
  calc MIN_PREFETCH_SIZE * 2 ^ k ≤ MIN_PREFETCH_SIZE * 2 ^ 5 :=
        Nat.mul_le_mul_left _ (Nat.pow_le_pow_right (by decide) hk)
    _ = MAX_PREFETCH_SIZE := by decide

theorem managed_cudaMallocManaged (g : Gpu) (cpu size p : Nat) :
    Managed (cudaMallocManaged cfg g cpu size) p ↔
      p ∈ pagesOfRange cfg g.m_dev_malloc_managed (roundedSize size) ∨ Managed g p := by
  rw [Managed, Managed, cudaMallocManaged_m_data, pageOf_set_pages_managed]
  split_ifs with hp
  · simp [hp]
  · simp [hp]

theorem Ground.cudaMallocManaged {g : Gpu} (h : Ground cfg g) {cpu size : Nat}
    (hruns : (cudaMallocManaged cfg g cpu size).aborted = false) :
    Ground cfg (cudaMallocManaged cfg g cpu size) := by
  have hround := roundedSize_dvd size
  have hnew : ∀ a, g.m_dev_malloc_managed ≤ a → a < g.m_dev_malloc_managed + roundedSize size →
      Managed (gpgpu_sim_uvm.cudaMallocManaged cfg g cpu size) (cfg.get_page_num a) := by
    intro a hlow hhigh
    apply (managed_cudaMallocManaged g cpu size _).mpr
    left
    exact page_mem_pagesOfRange (a := ⟨g.m_dev_malloc_managed, roundedSize size, true⟩) ⟨hlow, hhigh⟩
  have hold : ∀ p, Managed g p → Managed (gpgpu_sim_uvm.cudaMallocManaged cfg g cpu size) p :=
    fun p hp => (managed_cudaMallocManaged g cpu size p).mpr (Or.inr hp)
  have htree : ∀ r ∈ largePages g.m_dev_malloc_managed (roundedSize size),
      LpTree.build_lp_tree r.1 r.2 ∈
        (gpgpu_sim_uvm.cudaMallocManaged cfg g cpu size).large_page_info :=
    fun r hr => List.mem_append_right _ (List.mem_map_of_mem hr)
  have hbump : bumped g.m_dev_malloc_managed (roundedSize size) =
      g.m_dev_malloc_managed + roundedSize size := bumped_blocks _ hround
  have hreach : ∀ a, managedHeapStart ≤ a → a < g.m_dev_malloc_managed + roundedSize size →
      Forest.covers (gpgpu_sim_uvm.cudaMallocManaged cfg g cpu size).large_page_info a := by
    intro a hlow hhigh
    by_cases hold : a < g.m_dev_malloc_managed
    · obtain ⟨t, ht, hcovers⟩ := h.reach a hlow hold
      exact ⟨t, List.mem_append_left _ ht, hcovers⟩
    · obtain ⟨r, hr, hle, hlt⟩ := largePages_cover (Nat.le_of_not_lt hold) hhigh
      obtain ⟨-, haddr, hsize, -⟩ := built_tree h.heap hr
      refine ⟨_, htree r hr, ?_⟩
      rw [LpTree.covers_iff, haddr, hsize]
      exact ⟨hle, hlt⟩
  have hstart := h.heap_start
  refine ⟨?_, ?_, ?_, ?_, ⟨?_, ?_⟩, ?_, ?_, ?_, ?_, ?_⟩
  · change MIN_PREFETCH_SIZE ∣ bumped g.m_dev_malloc_managed (roundedSize size)
    rw [hbump]
    exact Nat.dvd_add h.heap hround
  · change managedHeapStart ≤ bumped g.m_dev_malloc_managed (roundedSize size)
    omega
  · intro t ht
    rcases List.mem_append.mp ht with ht | ht
    · exact h.trees t ht
    · obtain ⟨r, hr, rfl⟩ := List.mem_map.mp ht
      obtain ⟨htiled, haddr, hsize, hdvd, hle⟩ := built_tree h.heap hr
      rw [haddr, hsize]
      exact ⟨htiled, hdvd, hle⟩
  · rintro a ⟨t, ht, hcovers⟩
    rcases List.mem_append.mp ht with ht | ht
    · exact hold _ (h.backed a ⟨t, ht, hcovers⟩)
    · obtain ⟨r, hr, rfl⟩ := List.mem_map.mp ht
      obtain ⟨-, haddr, hsize, -⟩ := built_tree h.heap hr
      have hwithin := mem_largePages_within hr
      rw [LpTree.covers_iff, haddr, hsize] at hcovers
      apply hnew <;> omega
  · intro t ht
    rcases List.mem_append.mp ht with ht | ht
    · exact (h.trees t ht).1
    · obtain ⟨r, hr, rfl⟩ := List.mem_map.mp ht
      exact (built_tree h.heap hr).1
  · -- the new trees lie behind the old ones
    refine List.pairwise_append.mpr ⟨h.laid.apart, ?_, ?_⟩
    · rw [List.pairwise_map]
      refine (largePages_apart _ _).imp_of_mem ?_
      intro r s hr hs hrs
      obtain ⟨-, hraddr, hrsize, -⟩ := built_tree h.heap hr
      obtain ⟨-, hsaddr, -, -⟩ := built_tree h.heap hs
      rw [hraddr, hrsize, hsaddr]
      exact Or.inl hrs
    · intro t ht u hu
      obtain ⟨r, hr, rfl⟩ := List.mem_map.mp hu
      obtain ⟨-, haddr, -, -⟩ := built_tree h.heap hr
      have hbounds := h.bounds t ht
      have hwithin := mem_largePages_within hr
      rw [haddr]
      omega
  · intro t ht
    change _ ∧ t.addr + t.size ≤ bumped g.m_dev_malloc_managed (roundedSize size)
    rw [hbump]
    rcases List.mem_append.mp ht with ht | ht
    · have hbounds := h.bounds t ht
      omega
    · obtain ⟨r, hr, rfl⟩ := List.mem_map.mp ht
      obtain ⟨-, haddr, hsize, -⟩ := built_tree h.heap hr
      have hwithin := mem_largePages_within hr
      rw [haddr, hsize]
      omega
  · change bumped g.m_dev_malloc_managed (roundedSize size) ≤ MEM_SPACE_LIMIT
    rw [hbump]
    simp only [gpgpu_sim_uvm.cudaMallocManaged, Bool.or_eq_false_iff, Bool.not_eq_false',
      decide_eq_true_eq] at hruns
    exact hruns.2
  · change ∀ a, managedHeapStart ≤ a → a < bumped g.m_dev_malloc_managed (roundedSize size) → _
    rw [hbump]
    exact hreach
  · intro p hp
    rcases (managed_cudaMallocManaged g cpu size p).mp hp with hin | hin
    · -- the heap starts with a page, so that no page begins in front of it
      obtain ⟨hlow, hhigh⟩ := List.mem_range'_1.mp hin
      have hpage := cfg.page_size_pos
      have hfirst : managedHeapStart ≤ cfg.get_mem_addr p := by
        rw [← cfg.managedHeapStart_page]
        apply Nat.mul_le_mul_right
        exact le_trans (Nat.div_le_div_right hstart) hlow
      have hlast : cfg.get_mem_addr p ≤ g.m_dev_malloc_managed + roundedSize size - 1 := by
        have hle : p ≤ cfg.get_page_num (g.m_dev_malloc_managed + roundedSize size - 1) := by omega
        exact (Nat.le_div_iff_mul_le hpage).mp hle
      have hpos : 0 < managedHeapStart := by decide
      exact hreach _ hfirst (by omega)
    · obtain ⟨t, ht, hcovers⟩ := h.housed p hin
      exact ⟨t, List.mem_append_left _ ht, hcovers⟩
  · intro a ha i hi
    rcases (List.mem_orderedInsert _).mp ha with rfl | ha
    · exact hnew _ (Nat.le_add_right _ _) (Nat.add_lt_add_left hi _)
    · exact hold _ (h.allocations a ha i hi)

theorem mapped_of_managed {g : Gpu} {p : Nat} (h : Managed g p) : is_mapped g p = true := by
  by_contra hnot
  rw [is_mapped, Bool.not_eq_true] at hnot
  have hnone : g.m_data.find p = none := by
    rw [StdMap.find_eq_none_iff, StdMap.mem_keys, hnot]
    exact Bool.false_ne_true
  rw [Managed, pageOf, StdMap.findD, hnone] at h
  cases h

/-! ## Blocks and addresses of the trees -/

theorem LpTree.Tiled.size_dvd {t : LpTree} (h : t.Tiled) : MIN_PREFETCH_SIZE ∣ t.size := by
  induction t with
  | leaf d =>
    have hs : d.size = MIN_PREFETCH_SIZE := h
    rw [LpTree.size_leaf, hs]
  | node d l r ihl ihr =>
    obtain ⟨-, -, hs, hl, hr⟩ := h
    rw [LpTree.size_node, hs]
    exact Nat.dvd_add (ihl hl) (ihr hr)

theorem LpTree.Tiled.size_pos {t : LpTree} (h : t.Tiled) : 0 < t.size := by
  induction t with
  | leaf d =>
    have hs : d.size = MIN_PREFETCH_SIZE := h
    rw [LpTree.size_leaf, hs]
    decide
  | node d l r ihl _ =>
    obtain ⟨-, -, hs, hl, -⟩ := h
    have hpos := ihl hl
    rw [LpTree.size_node, hs]
    omega

/-- A leaf lies in its tree. -/
theorem LpTree.Tiled.leaf_within {t : LpTree} (h : t.Tiled) {d : LpData} (hd : d ∈ t.leaves) :
    t.addr ≤ d.addr ∧ d.addr + MIN_PREFETCH_SIZE ≤ t.addr + t.size := by
  induction t with
  | leaf e =>
    have hs : e.size = MIN_PREFETCH_SIZE := h
    rw [List.mem_singleton.mp hd, LpTree.size_leaf, hs]
    exact ⟨le_refl _, le_refl _⟩
  | node e l r ihl ihr =>
    obtain ⟨hla, hra, hs, hl, hr⟩ := h
    have haddr : (LpTree.node e l r).addr = e.addr := rfl
    rw [haddr, LpTree.size_node]
    rcases List.mem_append.mp hd with hd | hd
    · have hin := ihl hl hd
      omega
    · have hin := ihr hr hd
      omega

theorem LpTree.shape_leaves (t : LpTree) :
    t.shape.leaves.map LpData.addr = t.leaves.map LpData.addr := by
  induction t with
  | leaf d => rfl
  | node d l r ihl ihr =>
    simp only [LpTree.shape, LpTree.leaves, List.map_append, ihl, ihr]

theorem LpTree.leaves_of_shape {t u : LpTree} (h : t.shape = u.shape) :
    t.leaves.map LpData.addr = u.leaves.map LpData.addr := by
  rw [← shape_leaves, h, shape_leaves]

/-- The blocks that a traversal of the tree adds to a set are leaves of the tree. -/
def AddsLeaves (t : LpTree) (f : BlockSet → LpTree × BlockSet) : Prop :=
  ∀ (P : Nat → Prop) (bs : BlockSet), (∀ b ∈ t.leaves.map LpData.addr, P b) →
    (∀ b, bs.contains b = true → P b) → ∀ b, (f bs).2.contains b = true → P b

theorem leaf_added {d : LpData} {P : Nat → Prop} {bs : BlockSet} (hd : P d.addr)
    (hbs : ∀ b, bs.contains b = true → P b) {b : Nat}
    (hb : (bs.alter d.addr () id).contains b = true) : P b := by
  rw [StdMap.contains_alter, Bool.or_eq_true, decide_eq_true_eq] at hb
  rcases hb with rfl | hb
  · exact hd
  · exact hbs b hb

theorem addsLeaves_fill (t : LpTree) : AddsLeaves t t.fill_lp_tree := by
  induction t with
  | leaf d =>
    intro P bs hleaf hbs b hb
    rw [LpTree.fill_lp_tree] at hb
    split_ifs at hb
    · exact leaf_added (hleaf _ (List.mem_singleton_self _)) hbs hb
    · exact hbs b hb
  | node d l r ihl ihr =>
    intro P bs hleaf hbs
    simp only [LpTree.leaves, List.map_append, List.forall_mem_append] at hleaf
    exact ihr P _ hleaf.2 (ihl P bs hleaf.1 hbs)

theorem addsLeaves_remove (ev : Nat → Bool) (t : LpTree) : AddsLeaves t (t.remove_lp_tree ev) := by
  induction t with
  | leaf d =>
    intro P bs hleaf hbs b hb
    rw [LpTree.remove_lp_tree] at hb
    split_ifs at hb
    · exact leaf_added (hleaf _ (List.mem_singleton_self _)) hbs hb
    · exact hbs b hb
  | node d l r ihl ihr =>
    intro P bs hleaf hbs
    simp only [LpTree.leaves, List.map_append, List.forall_mem_append] at hleaf
    exact ihr P _ hleaf.2 (ihl P bs hleaf.1 hbs)

theorem addsLeaves_traverse_and_fill (t : LpTree) : AddsLeaves t t.traverse_and_fill_lp_tree := by
  induction t with
  | leaf d => exact fun _ _ _ hbs => hbs
  | node d l r ihl ihr =>
    intro P bs hleaf hbs
    have hboth := hleaf
    simp only [LpTree.leaves, List.map_append, List.forall_mem_append] at hleaf
    have hchildren := ihr P _ hleaf.2 (ihl P bs hleaf.1 hbs)
    simp only [LpTree.traverse_and_fill_lp_tree]
    split_ifs
    · apply addsLeaves_fill _ P _ _ hchildren
      have hshape : (LpTree.sumNode d (l.traverse_and_fill_lp_tree bs).1
          (r.traverse_and_fill_lp_tree (l.traverse_and_fill_lp_tree bs).2).1).shape =
            (LpTree.node d l r).shape := by
        simp [LpTree.sumNode, LpTree.shape, LpTree.shape_traverse_and_fill_lp_tree]
      rw [LpTree.leaves_of_shape hshape]
      exact hboth
    · exact hchildren

theorem addsLeaves_traverse_and_remove (ev : Nat → Bool) (t : LpTree) :
    AddsLeaves t (t.traverse_and_remove_lp_tree ev) := by
  induction t with
  | leaf d => exact fun _ _ _ hbs => hbs
  | node d l r ihl ihr =>
    intro P bs hleaf hbs
    have hboth := hleaf
    simp only [LpTree.leaves, List.map_append, List.forall_mem_append] at hleaf
    have hchildren := ihr P _ hleaf.2 (ihl P bs hleaf.1 hbs)
    simp only [LpTree.traverse_and_remove_lp_tree]
    split_ifs
    · apply addsLeaves_remove ev _ P _ _ hchildren
      have hshape : (LpTree.sumNode d (l.traverse_and_remove_lp_tree ev bs).1
          (r.traverse_and_remove_lp_tree ev (l.traverse_and_remove_lp_tree ev bs).2).1).shape =
            (LpTree.node d l r).shape := by
        simp [LpTree.sumNode, LpTree.shape, LpTree.shape_traverse_and_remove_lp_tree]
      rw [LpTree.leaves_of_shape hshape]
      exact hboth
    · exact hchildren

theorem groupBlocks_pos {bs : List Nat} {r : Nat × Nat} (hr : r ∈ groupBlocks bs) : 0 < r.2 := by
  have hblock : 0 < MIN_PREFETCH_SIZE := by decide
  induction bs generalizing r with
  | nil => cases hr
  | cons b bs ih =>
    rw [groupBlocks] at hr
    cases hgroups : groupBlocks bs with
    | nil =>
      simp only [hgroups] at hr
      rw [List.mem_singleton.mp hr]
      exact hblock
    | cons r' rest =>
      simp only [hgroups] at hr ih
      split_ifs at hr
      · rcases List.mem_cons.mp hr with rfl | hr
        · exact Nat.lt_of_lt_of_le hblock (Nat.le_add_left _ _)
        · exact ih (List.mem_cons_of_mem _ hr)
      · rcases List.mem_cons.mp hr with rfl | hr
        · exact hblock
        · exact ih hr

/-- A group of blocks holds what its blocks hold. -/
theorem groupBlocks_within {bs : List Nat} {r : Nat × Nat} (hr : r ∈ groupBlocks bs) {x : Nat}
    (hlow : r.1 ≤ x) (hhigh : x < r.1 + r.2) : ∃ b ∈ bs, b ≤ x ∧ x < b + MIN_PREFETCH_SIZE := by
  induction bs generalizing r with
  | nil => cases hr
  | cons b bs ih =>
    have hlater : ∀ {r : Nat × Nat}, r ∈ groupBlocks bs → r.1 ≤ x → x < r.1 + r.2 →
        ∃ b' ∈ b :: bs, b' ≤ x ∧ x < b' + MIN_PREFETCH_SIZE := by
      intro r hr hlow hhigh
      obtain ⟨b', hb', hin⟩ := ih hr hlow hhigh
      exact ⟨b', List.mem_cons_of_mem _ hb', hin⟩
    rw [groupBlocks] at hr
    cases hgroups : groupBlocks bs with
    | nil =>
      simp only [hgroups] at hr
      rw [List.mem_singleton.mp hr] at hlow hhigh
      exact ⟨b, List.mem_cons_self, hlow, hhigh⟩
    | cons r' rest =>
      simp only [hgroups] at hr hlater
      split_ifs at hr with hnext
      · rcases List.mem_cons.mp hr with rfl | hr
        · by_cases hfirst : x < b + MIN_PREFETCH_SIZE
          · exact ⟨b, List.mem_cons_self, hlow, hfirst⟩
          · dsimp only at hhigh
            apply hlater List.mem_cons_self <;> omega
        · exact hlater (List.mem_cons_of_mem _ hr) hlow hhigh
      · rcases List.mem_cons.mp hr with rfl | hr
        · exact ⟨b, List.mem_cons_self, hlow, hhigh⟩
        · exact hlater hr hlow hhigh

/-! ## Candidates -/

variable (cfg) in
/-- The entry lies in a tree, and the pages from that of the entry on, as many as its size
counts, are managed. -/
structure EntryOn (g : Gpu) (e : EvictionT) : Prop where
  home : Forest.covers g.large_page_info e.addr
  size_pos : 0 < e.size
  whole : cfg.page_size = 4096 → 4096 ∣ e.size
  pages : ∀ k, k * cfg.page_size < e.size → Managed g (cfg.get_page_num e.addr + k)

theorem page_add_mul (a k : Nat) :
    cfg.get_page_num (a + k * cfg.page_size) = cfg.get_page_num a + k :=
  Nat.add_mul_div_right a k cfg.page_size_pos

theorem four_k_dvd_of_block {n : Nat} (h : MIN_PREFETCH_SIZE ∣ n) : 4096 ∣ n :=
  Nat.dvd_trans (by decide) h

section

variable {g : Gpu} (h : Ground cfg g)
include h

/-- A range of the trees. -/
theorem Ground.entryOn {e : EvictionT} (hpos : 0 < e.size) (hdvd : MIN_PREFETCH_SIZE ∣ e.size)
    (hin : ∀ x, e.addr ≤ x → x < e.addr + e.size → Forest.covers g.large_page_info x) :
    EntryOn cfg g e := by
  refine ⟨hin e.addr (le_refl _) (Nat.lt_add_of_pos_right hpos), hpos, fun _ => four_k_dvd_of_block hdvd, ?_⟩
  intro k hk
  rw [← page_add_mul]
  apply h.backed
  apply hin <;> omega

/-- A page on its own. -/
theorem Ground.entryOn_page {e : EvictionT} (hsize : e.size = cfg.page_size)
    (hhome : Forest.covers g.large_page_info e.addr) : EntryOn cfg g e := by
  refine ⟨hhome, ?_, ?_, ?_⟩
  · rw [hsize]
    exact cfg.page_size_pos
  · intro hfour
    rw [hsize, hfour]
  · intro k hk
    rw [hsize] at hk
    have hzero : k = 0 := by
      by_contra hne
      have hle := Nat.le_mul_of_pos_left cfg.page_size (Nat.pos_of_ne_zero hne)
      omega
    rw [hzero]
    exact h.backed e.addr hhome

omit h in
theorem Forest.get_lp_node_of_covers {ts : Forest} {a : Nat} (h : Forest.covers ts a) :
    ∃ t, Forest.get_lp_node ts a = some t := by
  obtain ⟨t, ht, hcovers⟩ := h
  exact Option.isSome_iff_exists.mp (List.find?_isSome.mpr ⟨t, ht, hcovers⟩)

omit h in
theorem covers_of_get_lp_node {ts : Forest} {a : Nat} {t : LpTree}
    (ht : Forest.get_lp_node ts a = some t) : t.covers a = true := by
  have hcovers := List.find?_some ht
  exact hcovers

theorem Ground.tree_of_covers {t : LpTree} {a : Nat}
    (ht : Forest.get_lp_node g.large_page_info a = some t) :
    t ∈ g.large_page_info ∧ t.Tiled ∧ t.covers a = true := by
  have hmem := Forest.mem_of_get_lp_node ht
  exact ⟨hmem, (h.trees t hmem).1, covers_of_get_lp_node ht⟩

theorem Ground.block_covered {t : LpTree} {a : Nat}
    (ht : Forest.get_lp_node g.large_page_info a = some t) {x : Nat}
    (hlow : t.get_basic_block a ≤ x) (hhigh : x < t.get_basic_block a + MIN_PREFETCH_SIZE) :
    Forest.covers g.large_page_info x := by
  obtain ⟨hmem, htiled, hcovers⟩ := h.tree_of_covers ht
  obtain ⟨h1, h2, -, -⟩ := htiled.block_bounds hcovers
  refine ⟨t, hmem, ?_⟩
  rw [LpTree.covers_iff]
  rw [LpTree.get_basic_block] at hlow hhigh
  omega

theorem Ground.newEntry {a : Nat} (hhome : Forest.covers g.large_page_info a) :
    EntryOn cfg g (newEntry cfg g a) := by
  have hblock : ∀ t, Forest.get_lp_node g.large_page_info a = some t →
      EntryOn cfg g ⟨t.get_basic_block a, MIN_PREFETCH_SIZE, g.sim_cycle, 0, 0⟩ := by
    intro t ht
    have hpos : 0 < MIN_PREFETCH_SIZE := by decide
    apply h.entryOn hpos (dvd_refl _)
    exact fun x hlow hhigh => h.block_covered ht hlow hhigh
  have hroot : ∀ t, Forest.get_lp_node g.large_page_info a = some t →
      EntryOn cfg g ⟨t.addr, t.size, g.sim_cycle, 0, 0⟩ := by
    intro t ht
    obtain ⟨hmem, htiled, -⟩ := h.tree_of_covers ht
    apply h.entryOn htiled.size_pos htiled.size_dvd
    intro x hlow hhigh
    exact ⟨t, hmem, (LpTree.covers_iff t x).mpr ⟨hlow, hhigh⟩⟩
  obtain ⟨t, ht⟩ := Forest.get_lp_node_of_covers hhome
  simp only [gpgpu_sim_uvm.newEntry, get_eviction_base_addr, get_eviction_granularity]
  cases g.evict_policy with
  | TBN | SEQUENTIAL_LOCAL =>
    simp only [Forest.get_basic_block, ht, Option.elim_some]
    exact hblock t ht
  | LRU4K | RANDOM => exact h.entryOn_page rfl hhome
  | LRU | LFU =>
    simp only [Forest.rootAddr, Forest.rootSize, ht, Option.elim_some]
    exact hroot t ht

end

/-- A candidate stays one when its cycle or its counters change. -/
theorem EntryOn.same {g : Gpu} {e f : EvictionT} (h : EntryOn cfg g e)
    (haddr : f.addr = e.addr) (hsize : f.size = e.size) : EntryOn cfg g f := by
  refine ⟨?_, ?_, ?_, ?_⟩
  · rw [haddr]
    exact h.home
  · rw [hsize]
    exact h.size_pos
  · rw [hsize]
    exact h.whole
  · rw [haddr, hsize]
    exact h.pages

theorem mem_touchEntry {addr now : Nat} {es : List EvictionT} {f : EvictionT}
    (hf : f ∈ touchEntry addr now es) : ∃ e ∈ es, f.addr = e.addr ∧ f.size = e.size := by
  induction es with
  | nil => cases hf
  | cons e es ih =>
    rw [touchEntry] at hf
    split_ifs at hf
    · rcases List.mem_cons.mp hf with rfl | hf
      · exact ⟨e, List.mem_cons_self, rfl, rfl⟩
      · exact ⟨f, List.mem_cons_of_mem _ hf, rfl, rfl⟩
    · rcases List.mem_cons.mp hf with rfl | hf
      · exact ⟨f, List.mem_cons_self, rfl, rfl⟩
      · obtain ⟨e', he', hsame⟩ := ih hf
        exact ⟨e', List.mem_cons_of_mem _ he', hsame⟩

theorem stableSort_perm {A : Type} (le : A → A → Bool) (l : List A) : (stableSort le l).Perm l :=
  List.perm_insertionSort _ l

theorem pooled_grouped {A : Type} (key : A → Nat) (as : List A) (m : StdMap Nat (List A)) :
    (as.foldl (fun m a => m.alter (key a) [] (· ++ [a])) m).pooled.Perm (as ++ m.pooled) := by
  induction as generalizing m with
  | nil => exact List.Perm.refl _
  | cons a as ih =>
    refine (ih _).trans ?_
    have hadd := m.pooled_append (key a) [a]
    exact (hadd.append_left as).trans List.perm_middle

/-- Grouping and sorting keep every candidate. -/
theorem groupByTree_perm (ts : Forest) (vp : List EvictionT) : (groupByTree ts vp).Perm vp := by
  have hgroups := pooled_grouped (fun e : EvictionT => Forest.rootAddr ts e.addr) vp .empty
  rw [StdMap.pooled_empty, List.append_nil] at hgroups
  have hsorts : ∀ (le : EvictionT → EvictionT → Bool) (ls : List (List EvictionT)),
      (ls.flatMap (stableSort le)).Perm ls.flatten := by
    intro le ls
    rw [← List.flatMap_id]
    exact List.Perm.flatMap_left ls fun l _ => stableSort_perm le l
  simp only [groupByTree]
  refine (hsorts _ _).trans (((stableSort_perm _ _).flatten).trans ?_)
  rw [← List.flatMap_def]
  exact (hsorts _ _).trans hgroups

theorem copyCounters_same (ts : Forest) (e : EvictionT) :
    (copyCounters ts e).addr = e.addr ∧ (copyCounters ts e).size = e.size := by
  unfold copyCounters
  split <;> exact ⟨rfl, rfl⟩

/-- The sorted candidates are the candidates, with other counters. -/
theorem mem_sort_valid_pages {g : Gpu} {f : EvictionT} (hf : f ∈ sort_valid_pages g) :
    ∃ e ∈ g.valid_pages, f.addr = e.addr ∧ f.size = e.size := by
  have hmap : f ∈ g.valid_pages.map (copyCounters g.large_page_info) := by
    simp only [sort_valid_pages] at hf
    split at hf
    · exact (stableSort_perm _ _).mem_iff.mp hf
    · exact (groupByTree_perm _ _).mem_iff.mp hf
    · exact (groupByTree_perm _ _).mem_iff.mp hf
    · exact (stableSort_perm _ _).mem_iff.mp hf
  obtain ⟨e, he, rfl⟩ := List.mem_map.mp hmap
  exact ⟨e, he, copyCounters_same _ e⟩

end gpgpu_sim_uvm
