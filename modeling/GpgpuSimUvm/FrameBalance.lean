-- The frames of the GPU: as long as an eviction stages resident pages only, each
-- once, every frame is free, in an allocation, under a resident page, or kept for a
-- page of the read transfer that is on its way.
import GpgpuSimUvm.Migrations
import Mathlib.Data.Finset.Card

namespace gpgpu_sim_uvm

open monitor

/-! ## Where the frames are -/

/-- The pages of the read transfer that is on its way. -/
def arriving (g : Gpu) : List Nat := pagesQueued g.pcie_read_latency_queue.toList

/-- The pages of the evictions that are staged. -/
def stagedPages (g : Gpu) : List Nat := g.pcie_write_stage_queue.flatMap PcieLatency.page_list

def residentPages (g : Gpu) : Finset Nat := (g.m_data.keys.filter (is_valid g)).toFinset

variable (cfg : Config)

/-- Every frame is in one place. -/
def FramesAdd (g : Gpu) : Prop :=
  g.num_free_pages + g.unmanaged_frames + (residentPages g).card + (arriving g).length =
    cfg.num_gddr_pages

/-- The staged pages are resident, and each is staged once. -/
structure StagedOnce (g : Gpu) : Prop where
  once : (stagedPages g).Nodup
  resident : ∀ p ∈ stagedPages g, is_valid g p = true

instance (g : Gpu) : Decidable (StagedOnce g) :=
  decidable_of_iff ((stagedPages g).Nodup ∧ ∀ p ∈ stagedPages g, is_valid g p = true)
    ⟨fun h => ⟨h.1, h.2⟩, fun h => ⟨h.once, h.resident⟩⟩

/-- The condition of the law on a step. The evictions that a cycle stages are those of
resident pages, each staged once; and the host synchronises when nothing is staged or on
its way, no other frames are taken, and every resident page is written back. -/
def keepsFrames (g : Gpu) : Action → Bool
  | .gmmu_cycle => decide (StagedOnce (eviction_check cfg g))
  | .cudaDeviceSynchronize =>
    decide (stagedPages g = [] ∧ arriving g = [] ∧ g.unmanaged_frames = 0 ∧
      ∀ p ∈ residentPages g, p ∈ evicted_page_list cfg g)
  | _ => true

/-! ## Resident pages -/

variable {cfg} {g g' : Gpu}

theorem mem_residentPages {p : Nat} : p ∈ residentPages g ↔ is_valid g p = true := by
  unfold residentPages
  simp only [List.mem_toFinset, List.mem_filter, and_iff_right_iff_imp]
  intro h
  rw [StdMap.mem_keys]
  by_contra hno
  have hnone := StdMap.findD_of_not_contains g.m_data {} (Bool.eq_false_iff.mpr hno)
  unfold is_valid pageOf at h
  rw [hnone] at h
  cases h

theorem residentPages_of_same (h : SamePages g.m_data g'.m_data) :
    residentPages g' = residentPages g := by
  ext p
  rw [mem_residentPages, mem_residentPages, h.is_valid]

/-- A step that leaves the frames where they are, and stages nothing. -/
structure SparesFrames (g g' : Gpu) : Prop where
  pages : SamePages g.m_data g'.m_data
  free : g'.num_free_pages = g.num_free_pages
  taken : g'.unmanaged_frames = g.unmanaged_frames
  latency : g'.pcie_read_latency_queue = g.pcie_read_latency_queue
  staged : (stagedPages g').Sublist (stagedPages g)

namespace SparesFrames

theorem refl (g : Gpu) : SparesFrames g g :=
  ⟨.refl _, rfl, rfl, rfl, List.Sublist.refl _⟩

theorem trans {a b c : Gpu} (h : SparesFrames a b) (h' : SparesFrames b c) : SparesFrames a c :=
  ⟨h.pages.trans h'.pages, h'.free.trans h.free, h'.taken.trans h.taken,
    h'.latency.trans h.latency, h'.staged.trans h.staged⟩

/-- A step that leaves the page table and the write stage queue alone too. -/
theorem of_same (hdata : g'.m_data = g.m_data) (hfree : g'.num_free_pages = g.num_free_pages)
    (htaken : g'.unmanaged_frames = g.unmanaged_frames)
    (hlatency : g'.pcie_read_latency_queue = g.pcie_read_latency_queue)
    (hstage : g'.pcie_write_stage_queue = g.pcie_write_stage_queue) : SparesFrames g g' := by
  refine ⟨?_, hfree, htaken, hlatency, ?_⟩
  · rw [hdata]
    exact .refl _
  · unfold stagedPages
    rw [hstage]

theorem adds (h : SparesFrames g g') (hadd : FramesAdd cfg g) : FramesAdd cfg g' := by
  unfold FramesAdd arriving at hadd ⊢
  rwa [residentPages_of_same h.pages, h.free, h.taken, h.latency]

theorem stagedOnce (h : SparesFrames g g') (hstaged : StagedOnce g) : StagedOnce g' :=
  ⟨hstaged.once.sublist h.staged,
    fun p hp => (h.pages.is_valid p).trans (hstaged.resident p (h.staged.mem hp))⟩

end SparesFrames

/-! ## The write queues -/

/-- The pages of the transfer in front give their frames back. -/
theorem startWriteBack_frames {t : PcieLatency} {rest : List PcieLatency}
    (h : FramesAdd cfg g) (honce : t.page_list.Nodup)
    (hresident : ∀ p ∈ t.page_list, is_valid g p = true) :
    FramesAdd cfg (startWriteBack cfg g t rest) := by
  have hpages : residentPages (startWriteBack cfg g t rest) =
      residentPages g \ t.page_list.toFinset := by
    ext p
    rw [mem_residentPages, Finset.mem_sdiff, mem_residentPages, List.mem_toFinset]
    change (pageOf (t.page_list.foldl invalidate_page g.m_data) p).valid = true ↔ _
    rw [pageOf_invalidate_pages]
    by_cases hp : p ∈ t.page_list
    · simp [hp]
    · simp [hp, is_valid]
  have hcard := Finset.card_sdiff_add_card_eq_card (s := t.page_list.toFinset)
    (t := residentPages g) fun p hp =>
      mem_residentPages.mpr (hresident p (List.mem_toFinset.mp hp))
  rw [List.toFinset_card_of_nodup honce, ← hpages] at hcard
  unfold FramesAdd at h ⊢
  change g.num_free_pages + t.page_list.length + g.unmanaged_frames + _ + (arriving g).length = _
  omega

theorem write_back_schedule_frames (h : FramesAdd cfg g) (hstaged : StagedOnce g) :
    FramesAdd cfg (write_back_schedule cfg g) ∧ StagedOnce (write_back_schedule cfg g) := by
  unfold write_back_schedule
  split
  · rename_i t rest hstage _
    have hpages : stagedPages g = t.page_list ++ rest.flatMap PcieLatency.page_list := by
      unfold stagedPages
      rw [hstage, List.flatMap_cons]
    have honce := hstaged.once
    have hresident := hstaged.resident
    rw [hpages] at honce hresident
    obtain ⟨hfront, hrest, hapart⟩ := List.nodup_append.mp honce
    refine ⟨startWriteBack_frames h hfront fun p hp => hresident p (List.mem_append_left _ hp),
      hrest, fun p hp => ?_⟩
    change (pageOf (t.page_list.foldl invalidate_page g.m_data) p).valid = true
    rw [pageOf_invalidate_pages, if_neg fun hcon => hapart p hcon p hp rfl]
    exact hresident p (List.mem_append_right _ hp)
  · exact ⟨h, hstaged⟩

/-! ## The read queues -/

theorem is_valid_completePages (ps : List Nat) (g : Gpu) (p : Nat) :
    is_valid (ps.foldl (completePage cfg) g) p = true ↔ p ∈ ps ∨ is_valid g p = true := by
  induction ps generalizing g with
  | nil => simp
  | cons q ps ih =>
    rw [List.foldl_cons, ih, List.mem_cons]
    unfold is_valid
    rw [completePage_m_data, pageOf_validate_page]
    by_cases hp : p = q
    · simp [hp]
    · simp [hp]

variable (cfg) in
theorem completePages_frame (ps : List Nat) (g : Gpu) :
    (ps.foldl (completePage cfg) g).num_free_pages = g.num_free_pages ∧
      (ps.foldl (completePage cfg) g).unmanaged_frames = g.unmanaged_frames ∧
      (ps.foldl (completePage cfg) g).pcie_write_stage_queue = g.pcie_write_stage_queue := by
  induction ps generalizing g with
  | nil => exact ⟨rfl, rfl, rfl⟩
  | cons p ps ih =>
    obtain ⟨hfree, htaken, hstage⟩ := ih (completePage cfg g p)
    rw [List.foldl_cons, hfree, htaken, hstage, completePage_frame]
    exact ⟨rfl, rfl, rfl⟩

/-- The pages of a read become resident in the frames that were kept for them. -/
theorem completePages_frames {t : PcieLatency} (h : FramesAdd cfg g)
    (hlatency : g.pcie_read_latency_queue = some t) (htype : t.type = .PCIE_READ)
    (honce : t.page_list.Nodup) (habsent : ∀ p ∈ t.page_list, is_valid g p = false) :
    FramesAdd cfg { t.page_list.foldl (completePage cfg) g with pcie_read_latency_queue := none } := by
  have hpages : residentPages (t.page_list.foldl (completePage cfg) g) =
      residentPages g ∪ t.page_list.toFinset := by
    ext p
    rw [mem_residentPages, Finset.mem_union, mem_residentPages, List.mem_toFinset,
      is_valid_completePages, or_comm]
  have hdisjoint : Disjoint (residentPages g) t.page_list.toFinset := by
    rw [Finset.disjoint_left]
    intro p hp hcon
    have hno := habsent p (List.mem_toFinset.mp hcon)
    simp [mem_residentPages.mp hp] at hno
  have hcard := Finset.card_union_of_disjoint hdisjoint
  rw [List.toFinset_card_of_nodup honce, ← hpages] at hcard
  obtain ⟨hfree, htaken, -⟩ := completePages_frame cfg t.page_list g
  have harriving : arriving g = t.page_list := by
    simp [arriving, hlatency, pagesQueued, isMigration, htype]
  unfold FramesAdd at h ⊢
  rw [harriving] at h
  change (t.page_list.foldl (completePage cfg) g).num_free_pages +
    (t.page_list.foldl (completePage cfg) g).unmanaged_frames +
    (residentPages (t.page_list.foldl (completePage cfg) g)).card + 0 = _
  omega

theorem read_done_frames (h : FramesAdd cfg g) (hcoming : Coming g (queuedPages g))
    (hstaged : StagedOnce g) : FramesAdd cfg (read_done cfg g) ∧ StagedOnce (read_done cfg g) := by
  unfold read_done
  split
  · exact ⟨h, hstaged⟩
  · rename_i t hlatency
    split
    · unfold finishRead
      split
      · rename_i htype
        have hqueued : queuedPages g = t.page_list ++ pagesQueued g.pcie_read_stage_queue := by
          unfold queuedPages
          rw [hlatency, pagesQueued_append]
          simp [pagesQueued, isMigration, htype]
        have honce := hcoming.once
        rw [hqueued] at honce
        refine ⟨completePages_frames h hlatency htype (List.nodup_append.mp honce).1
          fun p hp => hcoming.absent p (hqueued ▸ List.mem_append_left _ hp), ?_⟩
        have hpages : stagedPages (t.page_list.foldl (completePage cfg) g) = stagedPages g := by
          unfold stagedPages
          rw [(completePages_frame cfg t.page_list g).2.2]
        refine ⟨hpages ▸ hstaged.once, fun p hp => ?_⟩
        exact (is_valid_completePages t.page_list g p).mpr
          (Or.inr (hstaged.resident p (hpages ▸ hp)))
      · rename_i htype
        have harriving : arriving g = [] := by
          simp [arriving, hlatency, pagesQueued, isMigration, htype]
        unfold FramesAdd at h ⊢
        rw [harriving] at h
        cases t.mf with
        | none => exact ⟨h, hstaged.once, hstaged.resident⟩
        | some mf => exact ⟨h, hstaged.once, hstaged.resident⟩
      · rename_i hread _
        have hno : isMigration t = false := decide_eq_false hread
        have harriving : arriving g = [] := by
          simp [arriving, hlatency, pagesQueued, hno]
        unfold FramesAdd at h ⊢
        rw [harriving] at h
        exact ⟨h, hstaged.once, hstaged.resident⟩
    · exact ⟨h, hstaged⟩

/-- The transfer that is scheduled finds the frames for its pages. -/
theorem pick_fits {front : PcieLatency} {n : Nat} (rest : List PcieLatency)
    (hfits : front.page_list.length ≤ n)
    (htype : (((front :: rest).find? fun t => decide (t.type = .DMA)).getD front).type =
      .PCIE_READ) :
    (((front :: rest).find? fun t => decide (t.type = .DMA)).getD front).page_list.length ≤ n := by
  rcases hfind : (front :: rest).find? (fun t => decide (t.type = .DMA)) with _ | t
  · rw [hfind]
    exact hfits
  · have hdma := List.find?_some hfind
    rw [hfind, Option.getD_some, of_decide_eq_true hdma] at htype
    cases htype

theorem read_schedule_frames (h : FramesAdd cfg g) (hstaged : StagedOnce g) :
    FramesAdd cfg (read_schedule cfg g) ∧ StagedOnce (read_schedule cfg g) := by
  refine ⟨?_, ?_⟩
  · unfold read_schedule
    split
    · rename_i front rest _ hlatency
      split
      · rename_i hfits
        have hpick := pick_fits rest hfits
        simp only
        generalize ((front :: rest).find? fun t => decide (t.type = .DMA)).getD front = t at hpick ⊢
        obtain ⟨hsame, hlist⟩ := startRead_same cfg g t
        have harriving : arriving g = [] := by simp [arriving, hlatency, pagesQueued]
        have hnew : pagesQueued (some (startRead cfg g t)).toList =
            if t.type = .PCIE_READ then t.page_list else [] := by
          rw [Option.toList_some, pagesQueued_cons, hlist]
          simp [isMigration, hsame, pagesQueued]
        unfold FramesAdd at h ⊢
        rw [harriving] at h
        change (if t.type = .PCIE_READ then g.num_free_pages - t.page_list.length
          else g.num_free_pages) + g.unmanaged_frames + (residentPages g).card +
            (pagesQueued (some (startRead cfg g t)).toList).length = _
        rw [hnew]
        split
        · rename_i htype
          have := hpick htype
          simp only [List.length_nil] at h
          omega
        · exact h
      · exact h
    · exact h
  · rw [read_schedule_frame]
    exact ⟨hstaged.once, hstaged.resident⟩

/-! ## The rest of a cycle -/

theorem stagedPages_check_write_stage_queue (g : Gpu) (p : Nat) :
    (stagedPages (check_write_stage_queue cfg g p)).Sublist (stagedPages g) := by
  unfold check_write_stage_queue
  split
  · exact List.Sublist.refl _
  · exact List.eraseP_sublist.flatMap _

theorem walkFetch_sparesFrames (g : Gpu) (mf : MemFetch) :
    SparesFrames g (walkFetch cfg g mf) := by
  have hframe := walkFetch_frame cfg g mf
  refine ⟨walkFetch_samePages cfg g mf, ?_, ?_, ?_, ?_⟩
  · rw [hframe]
  · rw [hframe]
  · rw [hframe]
  · unfold walkFetch
    split
    · exact stagedPages_check_write_stage_queue (popWalk cfg g mf) _
    · rw [fileFetch_frame]
      exact List.Sublist.refl _

theorem page_table_walk_sparesFrames (g : Gpu) : SparesFrames g (page_table_walk cfg g) :=
  foldl_keeps (fun mf _ g' h => h.trans (walkFetch_sparesFrames g' mf)) (.refl g)

theorem stagedPages_selectChunk (n : Nat) (g : Gpu) (q : PrefetchReq) :
    (stagedPages (selectChunk cfg n g q).1).Sublist (stagedPages g) := by
  induction n generalizing g q with
  | zero => exact List.Sublist.refl _
  | succ n ih =>
    have hcheck : (stagedPages (check_write_stage_queue cfg
        (g.require (is_mapped g (cfg.get_page_num q.cur_addr)))
        (cfg.get_page_num q.cur_addr))).Sublist (stagedPages g) :=
      stagedPages_check_write_stage_queue _ _
    simp only [selectChunk]
    split_ifs
    · exact hcheck
    · exact (ih _ _).trans hcheck
    · exact hcheck
    · exact ih _ _
    · exact List.Sublist.refl _

theorem user_prefetch_sparesFrames (g : Gpu) : SparesFrames g (user_prefetch cfg g) := by
  have hframe := user_prefetch_frame cfg g
  refine ⟨user_prefetch_samePages cfg g, ?_, ?_, ?_, ?_⟩
  · rw [hframe]
  · rw [hframe]
  · rw [hframe]
  · have hreplay : ∀ q, stagedPages (replayChunk cfg g q).1 = stagedPages g := by
      intro q
      rw [replayChunk_frame]
      rfl
    unfold user_prefetch
    split
    · exact List.Sublist.refl _
    · split
      · dsimp only
        split
        · exact hreplay _ ▸ List.Sublist.refl _
        · exact (stagedPages_selectChunk _ _ _).trans (hreplay _ ▸ List.Sublist.refl _)
      · exact List.Sublist.refl _

variable (cfg) in
/-- The cycle from the page table walk on. -/
theorem cycle_end_sparesFrames (g : Gpu) : SparesFrames g (user_prefetch cfg
    (fetch_from_clusters cfg (do_hardware_prefetch cfg (page_table_walk cfg g)))) := by
  have hturn : SparesFrames (page_table_walk cfg g)
      (fetch_from_clusters cfg (do_hardware_prefetch cfg (page_table_walk cfg g))) := by
    rw [fetch_from_clusters_frame, do_hardware_prefetch_frame]
    exact .of_same rfl rfl rfl rfl rfl
  exact ((page_table_walk_sparesFrames g).trans hturn).trans (user_prefetch_sparesFrames _)

theorem gmmu_cycle_frames (h : FramesAdd cfg g) (hcoming : Coming g (queuedPages g))
    (hok : StagedOnce (eviction_check cfg g)) :
    FramesAdd cfg (gmmu_cycle cfg g) ∧ StagedOnce (gmmu_cycle cfg g) := by
  have h1 : FramesAdd cfg (eviction_check cfg g) := by
    rw [eviction_check_frame]
    exact h
  have hdone : SparesFrames (eviction_check cfg g) (write_back_done cfg (eviction_check cfg g)) :=
    .of_same rfl rfl rfl rfl rfl
  have hcoming' : Coming (write_back_done cfg (eviction_check cfg g))
      (queuedPages (write_back_done cfg (eviction_check cfg g))) :=
    (coming_eviction_check cfg hcoming).same (fun _ => id) (fun _ => rfl) rfl
  obtain ⟨h3, h3s⟩ := write_back_schedule_frames (hdone.adds h1) (hdone.stagedOnce hok)
  obtain ⟨h4, h4s⟩ := read_done_frames h3 (coming_write_back_schedule cfg hcoming') h3s
  obtain ⟨h5, h5s⟩ := read_schedule_frames h4 h4s
  exact ⟨(cycle_end_sparesFrames cfg _).adds h5, (cycle_end_sparesFrames cfg _).stagedOnce h5s⟩

/-! ## The other steps -/

theorem stagedPages_access_cycle (g : Gpu) (sid : Nat) :
    (stagedPages (access_cycle cfg g sid).1).Sublist (stagedPages g) := by
  have hcases := access_cycle_cases cfg g sid
  generalize access_cycle cfg g sid = s at hcases ⊢
  cases hcases with
  | idle => exact List.Sublist.refl _
  | passes => exact List.Sublist.refl _
  | @hits w a rest =>
    exact stagedPages_check_write_stage_queue
      (noteAccess cfg (meetAccesses cfg g sid a rest) a rest) (cfg.get_page_num a.addr)
  | misses => exact List.Sublist.refl _

theorem ldst_cycle_sparesFrames (g : Gpu) (sid : Nat) (p : Port) :
    SparesFrames g (ldst_cycle cfg g sid p) := by
  refine ldst_cycle_keeps cfg (fun g' h => h.trans ?_) (fun g' h => h.trans ?_)
    (fun g' h => h.trans (.of_same rfl rfl rfl rfl rfl)) (SparesFrames.refl g)
  · have hframe := access_cycle_frame cfg g' sid
    refine ⟨access_cycle_samePages cfg g' sid, ?_, ?_, ?_, stagedPages_access_cycle g' sid⟩
    all_goals rw [hframe]
  · have hframe := memory_cycle_frame cfg g' sid p
    refine ⟨memory_cycle_samePages cfg g' sid p, ?_, ?_, ?_, ?_⟩
    · rw [hframe]
    · rw [hframe]
    · rw [hframe]
    · rw [hframe]
      exact List.Sublist.refl _

/-- What `cudaMalloc` takes from the free frames. -/
theorem cudaMalloc_frames (h : FramesAdd cfg g) (hstaged : StagedOnce g) (size : Nat) :
    FramesAdd cfg (cudaMalloc cfg g size) ∧ StagedOnce (cudaMalloc cfg g size) := by
  refine ⟨?_, hstaged.once, hstaged.resident⟩
  unfold FramesAdd at h ⊢
  change (if frames_of_bytes cfg size ≤ g.num_free_pages then
      g.num_free_pages - frames_of_bytes cfg size else g.num_free_pages) +
    (if frames_of_bytes cfg size ≤ g.num_free_pages then
      g.unmanaged_frames + frames_of_bytes cfg size else g.unmanaged_frames) +
    (residentPages g).card + (arriving g).length = _
  split <;> omega

/-- A synchronisation that writes every resident page back frees all frames. -/
theorem cudaDeviceSynchronize_frames
    (hok : keepsFrames cfg g .cudaDeviceSynchronize = true) :
    FramesAdd cfg (cudaDeviceSynchronize cfg g) ∧ StagedOnce (cudaDeviceSynchronize cfg g) := by
  obtain ⟨hstaged, harriving, htaken, hall⟩ := of_decide_eq_true hok
  refine ⟨?_, ?_⟩
  · have hpages : residentPages (cudaDeviceSynchronize cfg g) = ∅ := by
      refine Finset.eq_empty_of_forall_notMem fun p hp => ?_
      rw [mem_residentPages] at hp
      change (pageOf ((evicted_page_list cfg g).foldl invalidate_page g.m_data) p).valid = true at hp
      rw [pageOf_invalidate_pages] at hp
      split at hp
      · cases hp
      · rename_i hnot
        exact hnot (hall p (mem_residentPages.mpr hp))
    unfold FramesAdd
    rw [hpages]
    change cfg.num_gddr_pages + g.unmanaged_frames + 0 + (arriving g).length = _
    rw [htaken, harriving]
    rfl
  · have hnone : stagedPages (cudaDeviceSynchronize cfg g) = [] := hstaged
    refine ⟨?_, fun p hp => ?_⟩
    · rw [hnone]
      exact List.nodup_nil
    · rw [hnone] at hp
      cases hp

theorem perform_frames (h : FramesAdd cfg g) (hstaged : StagedOnce g)
    (hcoming : Coming g (queuedPages g)) {a : Action} (hok : keepsFrames cfg g a = true) :
    FramesAdd cfg (perform cfg g a) ∧ StagedOnce (perform cfg g a) := by
  have hspares : SparesFrames g (perform cfg g a) →
      FramesAdd cfg (perform cfg g a) ∧ StagedOnce (perform cfg g a) :=
    fun hspares => ⟨hspares.adds h, hspares.stagedOnce hstaged⟩
  cases a with
  | cudaMalloc size => exact cudaMalloc_frames h hstaged size
  | cudaDeviceSynchronize => exact cudaDeviceSynchronize_frames hok
  | gmmu_cycle => exact gmmu_cycle_frames h hcoming (of_decide_eq_true hok)
  | cudaMallocManaged cpu size =>
    -- the new pages are managed now, and no page is resident that was not
    have hvalid := is_valid_cudaMallocManaged cfg g cpu size
    have hpages : residentPages (cudaMallocManaged cfg g cpu size) = residentPages g := by
      ext p
      rw [mem_residentPages, mem_residentPages, hvalid]
    refine ⟨?_, hstaged.once, fun p hp => (hvalid p).trans (hstaged.resident p hp)⟩
    unfold FramesAdd at h ⊢
    simp only [perform]
    rw [hpages]
    exact h
  | issue sid w bytes =>
    exact hspares ⟨writeDevice_samePages cfg _ bytes, rfl, rfl, rfl, List.Sublist.refl _⟩
  | do_atomic sid k bytes =>
    exact hspares ⟨writeDevice_samePages cfg _ bytes, rfl, rfl, rfl, List.Sublist.refl _⟩
  | ldst_cycle sid p => exact hspares (ldst_cycle_sparesFrames g sid p)
  | cudaSetupArgument p =>
    refine hspares ?_
    simp only [perform]
    rw [cudaSetupArgument_frame]
    exact .of_same rfl rfl rfl rfl rfl
  | cudaMemPrefetchAsync p n s =>
    refine hspares ?_
    simp only [perform]
    rw [cudaMemPrefetchAsync_frame]
    exact .of_same rfl rfl rfl rfl rfl
  | icnt_cycle c =>
    refine hspares ?_
    simp only [perform]
    rw [icnt_cycle_frame]
    exact .of_same rfl rfl rfl rfl rfl
  | answer sid k how =>
    refine hspares ?_
    simp only [perform]
    rw [answer_frame]
    exact .of_same rfl rfl rfl rfl rfl
  | host_write _ _ | activate_prefetch _ _ _ | log_kernel_start _ | log_kernel_finish _
  | dispatch _ _ | tick => exact hspares (.of_same rfl rfl rfl rfl rfl)

/-! ## The law of the frames -/

theorem Reachable.migrating (hr : Reachable cfg g)
    (hfresh : g.history.all Event.selectsFresh = true) : Migrating g := by
  refine invariant_of_steps cfg Migrating ⟨⟨List.nodup_nil, ?_, ?_, ?_⟩, rfl⟩
    (fun g a _ => perform_migrationsFollow cfg g a) hr hfresh
  · exact fun p hp => absurd hp List.not_mem_nil
  · exact fun p hp => absurd hp List.not_mem_nil
  · exact fun p hp => by cases hp

theorem framesAdd_of_run (hr : Reach (boot cfg) (NextIf cfg (keepsFrames cfg)) g)
    (hfresh : g.history.all Event.selectsFresh = true) : FramesAdd cfg g ∧ StagedOnce g := by
  induction hr with
  | start => exact ⟨rfl, List.nodup_nil, fun p hp => absurd hp List.not_mem_nil⟩
  | step hr hn ih =>
    rename_i s s'
    obtain ⟨a, hok, ha⟩ := hn
    obtain ⟨-, rfl, -⟩ := step_eq_some cfg ha
    have hbefore : s.history.all Event.selectsFresh = true := by
      refine List.all_eq_true.mpr fun e he => List.all_eq_true.mp hfresh e ?_
      exact (perform_grows cfg s a).history he
    obtain ⟨hadd, hstaged⟩ := ih hbefore
    have hmigrating := Reachable.migrating (reachable_of_reachIf cfg hr) hbefore
    exact perform_frames hadd hstaged hmigrating.coming hok

/-- In every run whose evictions stage resident pages only, each once, and whose
prefetchers only select pages that nothing waits for, the free frames, those of the
allocations, the resident pages and the pages that a read brings are all the frames. -/
theorem frames_are_conserved (hr : Reach (boot cfg) (NextIf cfg (keepsFrames cfg)) g)
    (hfresh : g.history.all Event.selectsFresh = true) :
    g.num_free_pages + g.unmanaged_frames + (residentPages g).card + (arriving g).length =
      cfg.num_gddr_pages :=
  (framesAdd_of_run hr hfresh).1

def oneFrame : Config := { smallConfig with num_gddr_pages := 1, eviction_policy := .LRU4K }

/-- Two cores load two pages one after the other. -/
def onePageAfterAnother : List Action :=
  [.cudaMallocManaged 65536 65536, .cudaSetupArgument 65536] ++
    loadOn 0 [pageAccess 0 .GLOBAL_ACC_R 1] ++ deviceCycles 5 ++ [.ldst_cycle 0 ⟨1, false, false⟩] ++
    loadOn 1 [pageAccess 1 .GLOBAL_ACC_R 2] ++ deviceCycles 8

/-- The second page has taken the only frame from the first. -/
theorem the_frame_of_an_evicted_page_is_used_again :
    residentPages (stateAfter oneFrame onePageAfterAnother) = {786433} ∧
      (stateAfter oneFrame onePageAfterAnother).num_free_pages +
        (stateAfter oneFrame onePageAfterAnother).unmanaged_frames +
        (residentPages (stateAfter oneFrame onePageAfterAnother)).card +
        (arriving (stateAfter oneFrame onePageAfterAnother)).length = 1 :=
  ⟨by decide +kernel,
    frames_are_conserved (reach_stateAfter oneFrame (keepsFrames oneFrame) onePageAfterAnother
      (by decide +kernel)) (by decide +kernel)⟩

end gpgpu_sim_uvm
