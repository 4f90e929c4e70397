-- The trees of the managed allocations. Every step but an allocation leaves the trees where
-- they lie, and each allocation adds trees that tile its rounded size. The rounded size
-- holds the request unless the rounding leaves `size_t`.
import GpgpuSimUvm.HandledPages
import GpgpuSimUvm.Tiling

namespace gpgpu_sim_uvm

open monitor tiling

variable (cfg : Config)

/-! ## Steps that leave the trees where they lie -/

/-- The trees have the addresses, the sizes and the nodes that they had. -/
def SameShapes (g g' : Gpu) : Prop :=
  Forest.shapes g'.large_page_info = Forest.shapes g.large_page_info

namespace SameShapes

theorem refl (g : Gpu) : SameShapes g g := rfl

theorem trans {a b c : Gpu} (h : SameShapes a b) (h' : SameShapes b c) : SameShapes a c :=
  Eq.trans h' h

theorem of_same {g g' : Gpu} (h : g'.large_page_info = g.large_page_info) : SameShapes g g' :=
  congrArg Forest.shapes h

theorem foldl {A : Type} {f : Gpu → A → Gpu} (hf : ∀ g a, SameShapes g (f g a)) (as : List A)
    (g : Gpu) : SameShapes g (as.foldl f g) := by
  induction as generalizing g with
  | nil => exact refl g
  | cons a as ih => exact (hf g a).trans (ih (f g a))

theorem foldl_fst {A B : Type} {f : Gpu × B → A → Gpu × B} (hf : ∀ s a, SameShapes s.1 (f s a).1)
    (as : List A) (s : Gpu × B) : SameShapes s.1 (as.foldl f s).1 := by
  induction as generalizing s with
  | nil => exact refl s.1
  | cons a as ih => exact (hf s a).trans (ih (f s a))

end SameShapes

theorem check_write_stage_queue_shapes (g : Gpu) (p : Nat) :
    SameShapes g (check_write_stage_queue cfg g p) :=
  (check_write_stage_queue_sameGround cfg g p).shapes

theorem eviction_check_shapes (g : Gpu) : SameShapes g (eviction_check cfg g) := by
  simp only [eviction_check]
  split
  · have hdetect : SameShapes g ((detectPattern cfg g).log (.evicting (unguarded cfg g))) := by
      unfold detectPattern
      split <;> exact .refl g
    exact hdetect.trans (page_eviction_procedure_sameGround cfg _).shapes
  · exact .refl g

theorem write_back_schedule_shapes (g : Gpu) : SameShapes g (write_back_schedule cfg g) := by
  unfold write_back_schedule
  split
  · exact Forest.shapes_inc_bb_round_trip _ _
  · exact .refl g

theorem prefetchOne_shapes (s : Gpu × Turn) (p : Nat) :
    SameShapes s.1 (prefetchOne cfg s p).1 :=
  SameShapes.trans (updateBlock_sameGround s.1 _ _ _).shapes
    (drawIfRandom_sameGround cfg _ _ p).shapes

theorem fillTree_shapes (g : Gpu) (root : Nat) (bs : BlockSet) :
    SameShapes g (fillTree g root bs).1 := by
  simp only [fillTree]
  split
  · exact Forest.shapes_modifyTree (fun t => LpTree.shape_traverse_and_fill_lp_tree t _) _ _
  · exact .refl g

theorem prefetchGroup_shapes (s : Gpu × Turn) (group : Nat × List Nat) :
    SameShapes s.1 (prefetchGroup cfg s group).1 := by
  have hfaults : SameShapes s.1 (scheduleFaults s.1 group.2).1 := by
    exact .foldl_fst (f := scheduleFault) (fun s a => (updateBlock_sameGround s.1 a _ true).shapes)
      group.2 (s.1, (StdMap.empty : BlockSet))
  have hcollect : ∀ (bbs : List Nat) (s : Gpu × List Nat × List Nat),
      SameShapes s.1 (bbs.foldl (collectBlock cfg) s).1 :=
    fun bbs s => .foldl_fst (f := collectBlock cfg) (fun s _ => .refl s.1) bbs s
  exact (hfaults.trans (fillTree_shapes _ _ _)).trans (hcollect _ (_, _, []))

theorem do_hardware_prefetch_shapes (g : Gpu) : SameShapes g (do_hardware_prefetch cfg g) := by
  have hchoose : SameShapes g (chooseMigrations cfg g).1 := by
    unfold chooseMigrations
    split
    · exact .foldl_fst (prefetchOne_shapes cfg) _ (g, ({} : Turn))
    · exact .foldl_fst (prefetchGroup_shapes cfg) _ (g, ({} : Turn))
  have hstage : SameShapes (chooseMigrations cfg g).1
      (stageTurn cfg (chooseMigrations cfg g).1 (chooseMigrations cfg g).2) := by
    rw [stageTurn_frame]
    exact .of_same rfl
  simp only [do_hardware_prefetch]
  split
  · exact .refl g
  · rw [noteOversubscription_frame]
    exact (hchoose.trans hstage).trans (.of_same rfl)

theorem selectChunk_shapes (n : Nat) (g : Gpu) (q : PrefetchReq) :
    SameShapes g (selectChunk cfg n g q).1 := by
  induction n generalizing g q with
  | zero => exact .refl g
  | succ n ih =>
    have hcheck : SameShapes g (check_write_stage_queue cfg
        (g.require (is_mapped g (cfg.get_page_num q.cur_addr))) (cfg.get_page_num q.cur_addr)) :=
      check_write_stage_queue_shapes cfg (g.require _) _
    have htake : SameShapes g (takePage (g.require (is_mapped g (cfg.get_page_num q.cur_addr)))
        { q with cur_addr := q.cur_addr + cfg.page_size } (cfg.get_page_num q.cur_addr)).1 :=
      .refl g
    simp only [selectChunk]
    split_ifs
    · exact hcheck
    · exact hcheck.trans (ih _ _)
    · exact hcheck
    · exact htake.trans (ih _ _)
    · exact htake

theorem user_prefetch_shapes (g : Gpu) : SameShapes g (user_prefetch cfg g) := by
  unfold user_prefetch
  split
  · exact .refl g
  · rename_i q rest _
    have hreplay : SameShapes g (replayChunk cfg g q).1 := by
      rw [replayChunk_frame]
      exact .of_same rfl
    split
    · dsimp only
      split
      · exact hreplay.trans (.of_same rfl)
      · exact (hreplay.trans (selectChunk_shapes cfg _ _ _)).trans (.of_same rfl)
    · exact .refl g

theorem gmmu_cycle_shapes (g : Gpu) : SameShapes g (gmmu_cycle cfg g) := by
  have hread : ∀ g, SameShapes g (read_done cfg g) := by
    intro g
    rw [read_done_frame]
    exact .of_same rfl
  have hschedule : ∀ g, SameShapes g (read_schedule cfg g) := by
    intro g
    rw [read_schedule_frame]
    exact .of_same rfl
  have hfetch : ∀ g, SameShapes g (fetch_from_clusters cfg g) := by
    intro g
    rw [fetch_from_clusters_frame]
    exact .of_same rfl
  have hwalk : ∀ g, SameShapes g (page_table_walk cfg g) :=
    fun g => .foldl (fun g mf => (walkFetch_sameGround cfg g mf).shapes) _ g
  have h13 := ((eviction_check_shapes cfg g).trans (.of_same rfl)).trans
    (write_back_schedule_shapes cfg (write_back_done cfg (eviction_check cfg g)))
  have h16 := ((h13.trans (hread _)).trans (hschedule _)).trans (hwalk _)
  exact ((h16.trans (do_hardware_prefetch_shapes cfg _)).trans (hfetch _)).trans
    (user_prefetch_shapes cfg _)

theorem access_cycle_shapes (g : Gpu) (sid : Nat) : SameShapes g (access_cycle cfg g sid).1 := by
  have hnote : ∀ a rest, SameShapes g
      (noteAccess cfg (meetAccesses cfg g sid a rest) a rest) := by
    intro a rest
    refine SameShapes.trans (b := meetAccesses cfg g sid a rest) (.of_same rfl) ?_
    exact (Forest.shapes_inc_bb_access_counter _ _).trans (Forest.shapes_update_access_type _ _ _)
  have hcase := access_cycle_cases cfg g sid
  generalize access_cycle cfg g sid = s at hcase ⊢
  cases hcase with
  | idle => exact .refl g
  | passes => exact .of_same rfl
  | @hits w a rest =>
    have hhit : ∀ k, SameShapes k (tlbHit cfg k sid a) := by
      intro k
      refine SameShapes.trans (check_write_stage_queue_shapes cfg k (cfg.get_page_num a.addr)) ?_
      exact .of_same rfl
    exact (hnote a rest).trans (hhit _)
  | @misses w a rest => exact (hnote a rest).trans (.of_same rfl)

theorem ldst_cycle_shapes (g : Gpu) (sid : Nat) (p : Port) :
    SameShapes g (ldst_cycle cfg g sid p) := by
  have hmemory : ∀ g, SameShapes g (memory_cycle cfg g sid p).1 := by
    intro g
    rw [memory_cycle_frame]
    exact .of_same rfl
  have hboth := (access_cycle_shapes cfg g sid).trans (hmemory _)
  simp only [ldst_cycle]
  split
  · split
    · exact hboth.trans (.of_same rfl)
    · exact hboth
  · exact access_cycle_shapes cfg g sid

/-- Where an allocation lies. -/
def AllocationInfo.extent (a : AllocationInfo) : Nat × Nat := (a.gpu_mem_addr, a.allocation_size)

/-- What no step changes but an allocation. -/
structure SameLayout (g g' : Gpu) : Prop where
  shapes : SameShapes g g'
  heap : g'.m_dev_malloc_managed = g.m_dev_malloc_managed
  extents : g'.managedAllocations.map AllocationInfo.extent =
    g.managedAllocations.map AllocationInfo.extent

theorem extents_setCopied (hostPtr : Nat) (as : List AllocationInfo) :
    (setCopied hostPtr as).map AllocationInfo.extent = as.map AllocationInfo.extent := by
  rw [setCopied, List.map_map]
  apply List.map_congr_left
  intro a _
  simp only [Function.comp_apply]
  split <;> rfl

theorem gmmu_cycle_allocations (g : Gpu) :
    (gmmu_cycle cfg g).managedAllocations = g.managedAllocations := by
  let Same (k : Gpu) : Prop := k.managedAllocations = g.managedAllocations
  have h0 : Same g := rfl
  change Same (gmmu_cycle cfg g)
  apply gmmu_cycle_keeps cfg _ _ _ _ _ _ _ _ _ h0
  · intro k h
    rw [eviction_check_frame]
    exact h
  · exact fun _ h => h
  · intro k h
    rw [write_back_schedule_frame]
    exact h
  · intro k h
    rw [read_done_frame]
    exact h
  · intro k h
    rw [read_schedule_frame]
    exact h
  · intro k h
    rw [page_table_walk_frame]
    exact h
  · intro k h
    rw [do_hardware_prefetch_frame]
    exact h
  · intro k h
    rw [fetch_from_clusters_frame]
    exact h
  · intro k h
    rw [user_prefetch_frame]
    exact h

/-- Every step but an allocation leaves the layout as it was. -/
theorem perform_sameLayout (g : Gpu) {a : Action}
    (ha : ∀ cpu size, a ≠ .cudaMallocManaged cpu size) : SameLayout g (perform cfg g a) := by
  cases a with
  | cudaMallocManaged cpu size => exact absurd rfl (ha cpu size)
  | gmmu_cycle =>
    exact ⟨gmmu_cycle_shapes cfg g, (gmmu_cycle_sparesUnits cfg g).m_dev_malloc_managed,
      congrArg _ (gmmu_cycle_allocations cfg g)⟩
  | ldst_cycle sid p =>
    refine ⟨ldst_cycle_shapes cfg g sid p, ?_, ?_⟩ <;> simp only [perform]
    · rw [ldst_cycle_frame]
    · rw [ldst_cycle_frame]
  | icnt_cycle c =>
    simp only [perform]
    rw [icnt_cycle_frame]
    exact ⟨.of_same rfl, rfl, rfl⟩
  | cudaSetupArgument p =>
    refine ⟨?_, ?_, ?_⟩ <;> simp only [perform]
    · rw [cudaSetupArgument_frame]
      exact .of_same rfl
    · rw [cudaSetupArgument_frame]
    · unfold cudaSetupArgument
      split
      · rfl
      · exact extents_setCopied p _
  | cudaMemPrefetchAsync p n s =>
    simp only [perform]
    rw [cudaMemPrefetchAsync_frame]
    exact ⟨.of_same rfl, rfl, rfl⟩
  | cudaDeviceSynchronize =>
    refine ⟨Forest.shapes_map LpTree.shape_reset_lp_tree_node _, rfl, ?_⟩
    simp [perform, cudaDeviceSynchronize, AllocationInfo.extent]
  | answer sid k how =>
    simp only [perform]
    rw [answer_frame]
    exact ⟨.of_same rfl, rfl, rfl⟩
  | cudaMalloc _ | host_write _ _ | activate_prefetch _ _ _ | log_kernel_start _
  | log_kernel_finish _ | issue _ _ _ | dispatch _ _ | do_atomic _ _ _ | tick =>
    exact ⟨.of_same rfl, rfl, rfl⟩

/-! ## The trees of an allocation -/

/-- The loop of `cudaMallocManaged` that calls `initialize_large_page`, with at most `n`
turns. -/
def largePageLoop (addr size : Nat) : Nat → Nat → List (Nat × Nat)
  | 0, _ => []
  | n + 1, cur_size =>
    if cur_size < size then
      if size - cur_size < MAX_PREFETCH_SIZE then [(addr + cur_size, size - cur_size)]
      else (addr + cur_size, MAX_PREFETCH_SIZE) ::
        largePageLoop addr size n (cur_size + MAX_PREFETCH_SIZE)
    else []

/-- The loop ends, and the trees tile the allocation. -/
theorem tiles_largePageLoop (addr : Nat) {size n cur_size : Nat} (hcur : cur_size ≤ size)
    (hturns : size - cur_size < n * MAX_PREFETCH_SIZE) :
    Tiles (addr + cur_size) (largePageLoop addr size n cur_size) (addr + size) := by
  induction n generalizing cur_size with
  | zero => omega
  | succ n ih =>
    rw [Nat.succ_mul] at hturns
    unfold largePageLoop
    split
    · split
      · refine ⟨rfl, ?_⟩
        simp only [Tiles]
        omega
      · refine ⟨rfl, ?_⟩
        rw [Nat.add_assoc]
        exact ih (by omega) (by omega)
    · obtain rfl : cur_size = size := by omega
      exact rfl

/-- The trees that the model adds are those of the loop. -/
theorem largePageLoop_eq (addr : Nat) {size n : Nat} (k : Nat)
    (hn : size / MAX_PREFETCH_SIZE < k + n) (hk : k ≤ size / MAX_PREFETCH_SIZE) :
    largePages addr size =
      (List.range k).map (fun i => (addr + i * MAX_PREFETCH_SIZE, MAX_PREFETCH_SIZE)) ++
        largePageLoop addr size n (k * MAX_PREFETCH_SIZE) := by
  have hdiv := Nat.div_add_mod size MAX_PREFETCH_SIZE
  rw [Nat.mul_comm] at hdiv
  have hmod := Nat.mod_lt size (y := MAX_PREFETCH_SIZE) (by decide)
  induction n generalizing k with
  | zero => omega
  | succ n ih =>
    by_cases hlast : k = size / MAX_PREFETCH_SIZE
    · subst hlast
      rw [largePages, largePageLoop]
      congr 1
      by_cases hzero : size % MAX_PREFETCH_SIZE = 0
      · rw [if_pos hzero, if_neg (by omega)]
      · rw [if_neg hzero, if_pos (by omega), if_pos (by omega)]
        congr 2
        omega
    · have hwhole : (k + 1) * MAX_PREFETCH_SIZE ≤ size / MAX_PREFETCH_SIZE * MAX_PREFETCH_SIZE :=
        Nat.mul_le_mul_right _ (by omega)
      rw [Nat.succ_mul] at hwhole
      rw [ih (k + 1) (by omega) (by omega), List.range_succ, List.map_append, List.append_assoc]
      congr 1
      rw [largePageLoop, if_pos (by omega), if_neg (by omega), Nat.succ_mul]
      rfl

theorem tiles_largePages (addr size : Nat) : Tiles addr (largePages addr size) (addr + size) := by
  have hturns : size - 0 < (size / MAX_PREFETCH_SIZE + 1) * MAX_PREFETCH_SIZE := by
    rw [Nat.sub_zero, Nat.mul_comm]
    exact Nat.lt_mul_div_succ size (by decide)
  have htiles := tiles_largePageLoop addr (Nat.zero_le size) hturns
  rw [largePageLoop_eq addr (n := size / MAX_PREFETCH_SIZE + 1) 0 (by omega) (Nat.zero_le _)]
  simpa using htiles

/-- The descents of the source end at 64KB: that is the size of the nodes without children,
and of no other. -/
def LpTree.EndsInBlocks : LpTree → Prop
  | .leaf d => d.size = MIN_PREFETCH_SIZE
  | .node d l r => d.size ≠ MIN_PREFETCH_SIZE ∧ l.EndsInBlocks ∧ r.EndsInBlocks

theorem LpTree.Tiled.min_le {t : LpTree} (h : t.Tiled) : MIN_PREFETCH_SIZE ≤ t.size :=
  Nat.le_of_dvd h.size_pos h.size_dvd

theorem LpTree.Tiled.endsInBlocks {t : LpTree} (h : t.Tiled) : t.EndsInBlocks := by
  induction t with
  | leaf d => exact h
  | node d l r ihl ihr =>
    obtain ⟨-, -, hsize, hl, hr⟩ := h
    have hmin : 0 < MIN_PREFETCH_SIZE := by decide
    have hlmin := hl.min_le
    have hrmin := hr.min_le
    exact ⟨by omega, ihl hl, ihr hr⟩

/-! ## The layout in a run -/

/-- Where the trees lie. -/
def layout (ts : Forest) : List (Nat × Nat) := ts.map fun t => (t.addr, t.size)

theorem layout_of_shapes {ts us : Forest} (h : Forest.shapes ts = Forest.shapes us) :
    layout ts = layout us := by
  have hshape : ∀ ts : Forest, layout ts = layout (Forest.shapes ts) := by
    intro ts
    rw [layout, layout, Forest.shapes, List.map_map]
    apply List.map_congr_left
    intro t _
    simp only [Function.comp_apply, LpTree.shape_addr, LpTree.shape_size]
  rw [hshape ts, h, ← hshape us]

/-- The trees tile the managed heap, and those of an allocation stand together among them. -/
structure LaidOut (g : Gpu) : Prop where
  heap : Tiles managedHeapStart (layout g.large_page_info) g.m_dev_malloc_managed
  own : ∀ e ∈ g.managedAllocations.map AllocationInfo.extent,
    largePages e.1 e.2 <:+: layout g.large_page_info
  rounded : ∀ e ∈ g.managedAllocations.map AllocationInfo.extent, ∃ size, e.2 = roundedSize size

theorem laidOut_boot : LaidOut (boot cfg) := by
  refine ⟨rfl, ?_, ?_⟩
  · simp [boot]
  · simp [boot]

variable {cfg}

theorem LaidOut.same {g g' : Gpu} (h : LaidOut g) (hsame : SameLayout g g') : LaidOut g' := by
  have hlayout := layout_of_shapes hsame.shapes
  refine ⟨?_, ?_, ?_⟩
  · rw [hlayout, hsame.heap]
    exact h.heap
  · rw [hlayout, hsame.extents]
    exact h.own
  · rw [hsame.extents]
    exact h.rounded

/-- The trees of a new allocation lie behind the others. -/
theorem layout_cudaMallocManaged {g : Gpu} (hblocks : MIN_PREFETCH_SIZE ∣ g.m_dev_malloc_managed)
    (cpu size : Nat) :
    layout (cudaMallocManaged cfg g cpu size).large_page_info =
      layout g.large_page_info ++ largePages g.m_dev_malloc_managed (roundedSize size) := by
  simp only [cudaMallocManaged, layout, List.map_append, List.map_map]
  congr 1
  refine (List.map_congr_left fun r hr => ?_).trans (List.map_id _)
  obtain ⟨-, haddr, hsize, -⟩ := built_tree hblocks hr
  rw [Function.comp_apply, haddr, hsize]
  rfl

theorem extents_cudaMallocManaged {g : Gpu} (cpu size : Nat) :
    ∀ e ∈ (cudaMallocManaged cfg g cpu size).managedAllocations.map AllocationInfo.extent,
      e = (g.m_dev_malloc_managed, roundedSize size) ∨
        e ∈ g.managedAllocations.map AllocationInfo.extent := by
  intro e he
  obtain ⟨a, ha, rfl⟩ := List.mem_map.mp he
  rcases (List.mem_orderedInsert _).mp ha with rfl | ha
  · exact Or.inl rfl
  · exact Or.inr (List.mem_map_of_mem ha)

theorem LaidOut.cudaMallocManaged {g : Gpu} (h : LaidOut g)
    (hblocks : MIN_PREFETCH_SIZE ∣ g.m_dev_malloc_managed) (cpu size : Nat) :
    LaidOut (cudaMallocManaged cfg g cpu size) := by
  have hlayout := @layout_cudaMallocManaged cfg g hblocks cpu size
  have hextents := @extents_cudaMallocManaged cfg g cpu size
  refine ⟨?_, ?_, ?_⟩
  · rw [hlayout]
    change Tiles _ _ (bumped g.m_dev_malloc_managed (roundedSize size))
    rw [bumped_blocks _ (roundedSize_dvd size)]
    exact h.heap.append (tiles_largePages _ _)
  · intro e he
    rw [hlayout]
    rcases hextents e he with rfl | hold
    · exact (List.suffix_append _ _).isInfix
    · exact (h.own e hold).trans (List.prefix_append _ _).isInfix
  · intro e he
    rcases hextents e he with rfl | hold
    · exact ⟨size, rfl⟩
    · exact h.rounded e hold

theorem laidOut {g : Gpu} (hr : Reachable cfg g) : LaidOut g := by
  induction hr with
  | start => exact laidOut_boot cfg
  | @step g g' hr hn ih =>
    obtain ⟨a, ha⟩ := hn
    obtain ⟨-, rfl, -⟩ := step_eq_some cfg ha
    by_cases hmalloc : ∃ cpu size, a = .cudaMallocManaged cpu size
    · obtain ⟨cpu, size, rfl⟩ := hmalloc
      exact ih.cudaMallocManaged (handles cfg hr).heap cpu size
    · exact ih.same (perform_sameLayout cfg g fun cpu size he => hmalloc ⟨cpu, size, he⟩)

theorem allocations_on_blocks {g : Gpu} (hr : Reachable cfg g) :
    ∀ e ∈ g.managedAllocations.map AllocationInfo.extent, MIN_PREFETCH_SIZE ∣ e.1 := by
  induction hr with
  | start =>
    intro e he
    cases he
  | @step g g' hr hn ih =>
    obtain ⟨a, ha⟩ := hn
    obtain ⟨-, rfl, -⟩ := step_eq_some cfg ha
    by_cases hmalloc : ∃ cpu size, a = .cudaMallocManaged cpu size
    · obtain ⟨cpu, size, rfl⟩ := hmalloc
      intro e he
      rcases extents_cudaMallocManaged cpu size e he with rfl | he
      · exact (handles cfg hr).heap
      · exact ih e he
    · rw [(perform_sameLayout cfg g fun cpu size he => hmalloc ⟨cpu, size, he⟩).extents]
      exact ih

/-! ## The law -/

/-- The rounded size holds the request, and is less than twice as large or 64KB. -/
def RoundsWell (size : Nat) : Prop :=
  size ≤ roundedSize size ∧ (roundedSize size < 2 * size ∨ roundedSize size ≤ MIN_PREFETCH_SIZE)

/-- The trees of an allocation: they tile it, each of 64KB times a power of two and at most
2MB, and the lookup of an address of it finds the only tree that holds the address, which is
one of them. -/
structure TilesAllocation (ts : Forest) (a : AllocationInfo) (own : List LpTree) : Prop where
  listed : own <:+: ts
  tiled : Tiles a.gpu_mem_addr (layout own) (a.gpu_mem_addr + a.allocation_size)
  sizes : ∀ t ∈ own, ∃ k, t.size = MIN_PREFETCH_SIZE * 2 ^ k ∧ t.size ≤ MAX_PREFETCH_SIZE
  ends : ∀ t ∈ own, t.EndsInBlocks
  found : ∀ addr, a.gpu_mem_addr ≤ addr → addr < a.gpu_mem_addr + a.allocation_size →
    ∃ t ∈ own, Forest.get_lp_node ts addr = some t ∧ ts.filter (·.covers addr) = [t]

/-- Sublists of an image are images of sublists. -/
theorem infix_map {A B : Type} {f : A → B} {l : List A} {l' : List B} (h : l' <:+: l.map f) :
    ∃ own, own <:+: l ∧ own.map f = l' := by
  obtain ⟨s, t, h⟩ := h
  obtain ⟨l₁, l₂, rfl, h₁, -⟩ := List.map_eq_append_iff.mp h.symm
  obtain ⟨l₃, l₄, rfl, -, h₄⟩ := List.map_eq_append_iff.mp h₁
  exact ⟨l₄, ⟨l₃, l₂, rfl⟩, h₄⟩

theorem filter_covers (ts : Forest) (addr : Nat) :
    layout (ts.filter (·.covers addr)) = (layout ts).filter (within addr) := by
  rw [layout, layout, List.filter_map]
  rfl

theorem tilesAllocation {g : Gpu} (hr : Reachable cfg g) {a : AllocationInfo}
    (ha : a ∈ g.managedAllocations) : ∃ own, TilesAllocation g.large_page_info a own := by
  have hl := laidOut hr
  have hextent : a.extent ∈ g.managedAllocations.map AllocationInfo.extent :=
    List.mem_map_of_mem ha
  obtain ⟨own, hlisted, hown⟩ := infix_map (hl.own _ hextent)
  obtain ⟨size, hsize⟩ := hl.rounded _ hextent
  have hpages : layout own = largePages a.gpu_mem_addr a.allocation_size := hown
  have htiles : Tiles a.gpu_mem_addr (layout own) (a.gpu_mem_addr + a.allocation_size) := by
    rw [hpages]
    exact tiles_largePages _ _
  have hpart : layout own <:+: layout g.large_page_info := hlisted.map _
  refine ⟨own, hlisted, htiles, fun t ht => ?_, fun t ht => ?_, fun addr hlow hhigh => ?_⟩
  · have hmem : (t.addr, t.size) ∈ largePages a.gpu_mem_addr (roundedSize size) := by
      rw [← hsize]
      change _ ∈ largePages a.gpu_mem_addr a.allocation_size
      rw [← hpages]
      exact List.mem_map_of_mem ht
    obtain ⟨k, hk, htsize⟩ := mem_largePages hmem
    refine ⟨k, htsize, ?_⟩
    calc t.size = MIN_PREFETCH_SIZE * 2 ^ k := htsize
      _ ≤ MIN_PREFETCH_SIZE * 2 ^ 5 :=
        Nat.mul_le_mul_left _ (Nat.pow_le_pow_right (by decide) hk)
      _ = MAX_PREFETCH_SIZE := by decide
  · exact ((handles cfg hr).trees t (hlisted.subset ht)).1.endsInBlocks
  · obtain ⟨p, hp, -, hin⟩ := htiles.filter_within hlow hhigh
    obtain ⟨t, ht, rfl⟩ := List.mem_map.mp hp
    -- the tiling of the whole heap has only one tree at the address
    have hheap := hl.heap
    have hbounds := hheap.bounds (hpart.subset hp)
    obtain ⟨q, -, hfilter, -⟩ := hheap.filter_within (a := addr) (by omega) (by omega)
    rw [← filter_covers] at hfilter
    obtain ⟨u, hu, -⟩ := List.map_eq_singleton_iff.mp hfilter
    have hcovers : t ∈ g.large_page_info.filter (·.covers addr) := by
      refine List.mem_filter.mpr ⟨hlisted.subset ht, ?_⟩
      rw [LpTree.covers_iff]
      exact hin
    have htu : t = u := by
      rw [hu] at hcovers
      exact List.mem_singleton.mp hcovers
    refine ⟨t, ht, ?_, htu ▸ hu⟩
    rw [Forest.get_lp_node, ← List.head?_filter, hu, htu]
    rfl

/-! ## The rounding -/

/-- The doubling loop ends at the first power that holds the remainder. -/
theorem doubleUntil_bounds {remainder n s : Nat} (h : remainder ≤ s * 2 ^ n) :
    remainder ≤ doubleUntil remainder n s ∧
      (doubleUntil remainder n s < 2 * remainder ∨ doubleUntil remainder n s = s) := by
  induction n generalizing s with
  | zero => exact ⟨by simpa [doubleUntil] using h, Or.inr rfl⟩
  | succ n ih =>
    unfold doubleUntil
    split
    · rename_i hlt
      rw [pow_succ, Nat.mul_comm (2 ^ n), ← Nat.mul_assoc] at h
      obtain ⟨hle, hbound⟩ := ih h
      refine ⟨hle, Or.inl ?_⟩
      rcases hbound with hbound | hbound
      · exact hbound
      · omega
    · exact ⟨by omega, Or.inr rfl⟩

/-- The remainder of a request, rounded. -/
theorem doubled_remainder {remainder : Nat} (hlt : remainder < MAX_PREFETCH_SIZE) :
    ∃ r, doubleUntil remainder 5 MIN_PREFETCH_SIZE = r ∧ remainder ≤ r ∧
      (r < 2 * remainder ∨ r = MIN_PREFETCH_SIZE) ∧
        (remainder ≤ 1048576 → r ≤ 1048576) ∧ (1048576 < remainder → r = MAX_PREFETCH_SIZE) := by
  have hfits : remainder ≤ MIN_PREFETCH_SIZE * 2 ^ 5 := by
    have hmax : MIN_PREFETCH_SIZE * 2 ^ 5 = MAX_PREFETCH_SIZE := by decide
    omega
  obtain ⟨hle, hbound⟩ := doubleUntil_bounds hfits
  obtain ⟨j, hj, hpower⟩ := doubleUntil_eq remainder 5 0
  simp only [pow_zero, Nat.mul_one, Nat.zero_add] at hpower
  rw [hpower] at hle hbound ⊢
  refine ⟨_, rfl, hle, hbound, ?_, ?_⟩
  · intro hsmall
    interval_cases j <;> simp only [MIN_PREFETCH_SIZE, MAX_PREFETCH_SIZE] at * <;> omega
  · intro hlarge
    interval_cases j <;> simp only [MIN_PREFETCH_SIZE, MAX_PREFETCH_SIZE] at * <;> omega

/-- The rounding is right unless it leaves `size_t`, which it does above 2^64 - 2^20. -/
theorem roundsWell_iff {size : Nat} (hpos : 0 < size) (hlt : size < SIZE_T) :
    RoundsWell size ↔ size ≤ SIZE_T - 1048576 := by
  have hdiv := Nat.div_add_mod size MAX_PREFETCH_SIZE
  have hmod := Nat.mod_lt size (y := MAX_PREFETCH_SIZE) (by decide)
  obtain ⟨r, hr, hle, hbound, hsmall, hlarge⟩ := doubled_remainder hmod
  have hrest : size - size / MAX_PREFETCH_SIZE * MAX_PREFETCH_SIZE = size % MAX_PREFETCH_SIZE := by
    rw [Nat.mul_comm]
    omega
  unfold RoundsWell roundedSize
  simp only [hrest]
  rw [hr, Nat.mul_comm (size / MAX_PREFETCH_SIZE)]
  by_cases hzero : size % MAX_PREFETCH_SIZE = 0
  · rw [if_pos hzero]
    simp only [MAX_PREFETCH_SIZE, MIN_PREFETCH_SIZE, SIZE_T] at *
    rw [Nat.mod_eq_of_lt (by omega)]
    omega
  · rw [if_neg hzero]
    simp only [MAX_PREFETCH_SIZE, MIN_PREFETCH_SIZE, SIZE_T] at *
    by_cases hfits : size ≤ 2 ^ 64 - 1048576
    · rw [Nat.mod_eq_of_lt (by omega)]
      omega
    · have hall : 2 * 1024 * 1024 * (size / (2 * 1024 * 1024)) + r = 2 ^ 64 := by omega
      rw [hall, Nat.mod_self]
      omega

/-- In every state of every run the trees tile each managed allocation, and the size of an
allocation is the request rounded up, exactly for requests that the rounding leaves in
`size_t`. -/
theorem allocations_are_tiled (cfg : Config) {g : Gpu} (hr : Reachable cfg g) (size : Nat)
    (hpos : 0 < size) (hlt : size < SIZE_T) :
    (RoundsWell size ↔ size ≤ SIZE_T - 1048576) ∧
      ∀ a ∈ g.managedAllocations, ∃ own, TilesAllocation g.large_page_info a own :=
  ⟨roundsWell_iff hpos hlt, fun _ ha => tilesAllocation hr ha⟩

/-- Two requests, of which one is not a power of two. -/
def twoRequests : List Action :=
  [.cudaMallocManaged 65536 100000, .cudaMallocManaged 1048576 65536]

theorem two_allocations_are_tiled :
    (stateAfter smallConfig twoRequests).managedAllocations.length = 2 ∧
      (RoundsWell 100000 ↔ 100000 ≤ SIZE_T - 1048576) ∧
        ∀ a ∈ (stateAfter smallConfig twoRequests).managedAllocations,
          ∃ own, TilesAllocation (stateAfter smallConfig twoRequests).large_page_info a own :=
  ⟨by decide +kernel,
    allocations_are_tiled smallConfig (reachable_stateAfter smallConfig twoRequests) 100000
      (by decide) (by decide)⟩

/-- The largest request is rounded to nothing, and the call succeeds. -/
theorem the_largest_request_wraps :
    roundedSize (SIZE_T - 1) = 0 ∧ ¬ RoundsWell (SIZE_T - 1) ∧
      (run smallConfig (boot smallConfig) [.cudaMallocManaged 65536 (SIZE_T - 1)]).isSome := by
  have hzero : roundedSize (SIZE_T - 1) = 0 := by decide +kernel
  refine ⟨hzero, ?_, by decide +kernel⟩
  rw [RoundsWell, hzero]
  decide

end gpgpu_sim_uvm
