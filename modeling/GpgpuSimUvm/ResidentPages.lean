-- The GMMU and memory that is not managed: nothing that is resident, on its way to
-- the GPU or back, a candidate for eviction or asked for is outside the managed pages.
import GpgpuSimUvm.FrameBalance
import GpgpuSimUvm.HandledPages

namespace gpgpu_sim_uvm

open monitor

variable {g g' : Gpu}

/-! ## Which pages become resident -/

/-- A step keeps the managed pages, and what becomes resident was on its way. -/
structure Admits (g g' : Gpu) : Prop where
  managed : ∀ p, (pageOf g'.m_data p).managed = (pageOf g.m_data p).managed
  valid : ∀ p, is_valid g' p = true → is_valid g p = true ∨ p ∈ arriving g

theorem Admits.of_samePages (h : SamePages g.m_data g'.m_data) : Admits g g' :=
  ⟨fun p => (h p).2, fun p hp => .inl ((h.is_valid p).symm.trans hp)⟩

/-- Two steps, the first of which lets nothing new on the way. -/
theorem Admits.trans {g'' : Gpu} (h : Admits g g') (h' : Admits g' g'')
    (harriving : arriving g' = arriving g) : Admits g g'' := by
  refine ⟨fun p => (h'.managed p).trans (h.managed p), fun p hp => ?_⟩
  rcases h'.valid p hp with hp | hp
  · exact h.valid p hp
  · exact .inr (harriving ▸ hp)

variable (cfg : Config)

theorem write_back_schedule_admits (g : Gpu) :
    Admits g (write_back_schedule cfg g) ∧ arriving (write_back_schedule cfg g) = arriving g := by
  unfold write_back_schedule
  split
  · rename_i t rest _ _
    refine ⟨⟨fun p => ?_, fun p hp => .inl ?_⟩, rfl⟩
    · change (pageOf (t.page_list.foldl invalidate_page g.m_data) p).managed = _
      rw [pageOf_invalidate_pages]
      split <;> rfl
    · change (pageOf (t.page_list.foldl invalidate_page g.m_data) p).valid = true at hp
      rw [pageOf_invalidate_pages] at hp
      split at hp
      · cases hp
      · exact hp
  · exact ⟨.of_samePages (.refl _), rfl⟩

theorem completePages_managed (ps : List Nat) (g : Gpu) (p : Nat) :
    (pageOf (ps.foldl (completePage cfg) g).m_data p).managed = (pageOf g.m_data p).managed := by
  induction ps generalizing g with
  | nil => rfl
  | cons q ps ih =>
    rw [List.foldl_cons, ih, completePage_m_data, pageOf_validate_page]
    split
    · rename_i hp
      rw [hp]
    · rfl

theorem read_done_admits (g : Gpu) : Admits g (read_done cfg g) := by
  unfold read_done
  split
  · exact .of_samePages (.refl _)
  · rename_i t hlatency
    split
    · unfold finishRead
      split
      · rename_i htype
        refine ⟨completePages_managed cfg t.page_list g, fun p hp => ?_⟩
        have harriving : arriving g = t.page_list := by
          simp [arriving, hlatency, pagesQueued, isMigration, htype]
        rw [harriving]
        exact ((is_valid_completePages t.page_list g p).mp hp).symm
      · cases t.mf <;> exact .of_samePages (.refl _)
      · exact .of_samePages (.refl _)
    · exact .of_samePages (.refl _)

theorem gmmu_cycle_admits (g : Gpu) : Admits g (gmmu_cycle cfg g) := by
  have hcheck : (eviction_check cfg g).m_data = g.m_data ∧
      arriving (eviction_check cfg g) = arriving g := by
    rw [eviction_check_frame]
    exact ⟨rfl, rfl⟩
  have h1 : Admits g (write_back_done cfg (eviction_check cfg g)) :=
    .of_samePages (hcheck.1 ▸ SamePages.refl _)
  have h1' : arriving (write_back_done cfg (eviction_check cfg g)) = arriving g := hcheck.2
  obtain ⟨h2, h2'⟩ := write_back_schedule_admits cfg
    (write_back_done cfg (eviction_check cfg g))
  have h3 := (h1.trans h2 h1').trans (read_done_admits cfg _) (h2'.trans h1')
  have hend := (cycle_end_sparesFrames cfg (read_schedule cfg (read_done cfg
    (write_back_schedule cfg (write_back_done cfg (eviction_check cfg g)))))).pages
  have hschedule : ∀ g, (read_schedule cfg g).m_data = g.m_data := by
    intro g
    rw [read_schedule_frame]
  rw [hschedule] at hend
  exact ⟨fun p => (hend p).2.trans (h3.managed p), fun p hp => h3.valid p ((hend p).1.symm.trans hp)⟩

theorem perform_admits (g : Gpu) (a : Action) :
    (∀ p, (pageOf g.m_data p).managed = true → (pageOf (perform cfg g a).m_data p).managed = true) ∧
      ∀ p, is_valid (perform cfg g a) p = true → is_valid g p = true ∨ p ∈ arriving g := by
  have hadmits : Admits g (perform cfg g a) →
      (∀ p, (pageOf g.m_data p).managed = true →
        (pageOf (perform cfg g a).m_data p).managed = true) ∧
      ∀ p, is_valid (perform cfg g a) p = true → is_valid g p = true ∨ p ∈ arriving g :=
    fun h => ⟨fun p hp => (h.managed p).trans hp, h.valid⟩
  cases a with
  | gmmu_cycle => exact hadmits (gmmu_cycle_admits cfg g)
  | cudaMallocManaged cpu size =>
    refine ⟨fun p hp => ?_, fun p hp => .inl ?_⟩
    · change (pageOf (cudaMallocManaged cfg g cpu size).m_data p).managed = true
      rw [cudaMallocManaged_m_data, pageOf_set_pages_managed]
      split
      · rfl
      · exact hp
    · exact (is_valid_cudaMallocManaged cfg g cpu size p).symm.trans hp
  | cudaDeviceSynchronize =>
    refine hadmits ⟨fun p => ?_, fun p hp => .inl ?_⟩
    · change (pageOf ((evicted_page_list cfg g).foldl invalidate_page g.m_data) p).managed = _
      rw [pageOf_invalidate_pages]
      split <;> rfl
    · change (pageOf ((evicted_page_list cfg g).foldl invalidate_page g.m_data) p).valid = true at hp
      rw [pageOf_invalidate_pages] at hp
      split at hp
      · cases hp
      · exact hp
  | issue sid w bytes => exact hadmits (.of_samePages (writeDevice_samePages cfg _ bytes))
  | do_atomic sid k bytes => exact hadmits (.of_samePages (writeDevice_samePages cfg _ bytes))
  | ldst_cycle sid p => exact hadmits (.of_samePages (ldst_cycle_sparesFrames g sid p).pages)
  | cudaSetupArgument p =>
    refine hadmits (.of_samePages ?_)
    simp only [perform]
    rw [cudaSetupArgument_frame]
    exact .refl _
  | cudaMemPrefetchAsync p n s =>
    refine hadmits (.of_samePages ?_)
    simp only [perform]
    rw [cudaMemPrefetchAsync_frame]
    exact .refl _
  | icnt_cycle c =>
    refine hadmits (.of_samePages ?_)
    simp only [perform]
    rw [icnt_cycle_frame]
    exact .refl _
  | answer sid k how =>
    refine hadmits (.of_samePages ?_)
    simp only [perform]
    rw [answer_frame]
    exact .refl _
  | cudaMalloc _ | host_write _ _ | activate_prefetch _ _ _ | log_kernel_start _
  | log_kernel_finish _ | dispatch _ _ | tick => exact hadmits (.of_samePages (.refl _))

/-! ## The law of the managed pages -/

variable {cfg}

theorem resident_is_managed (hr : Reachable cfg g) {p : Nat} (hp : is_valid g p = true) :
    Managed g p := by
  induction hr generalizing p with
  | start => cases hp
  | step hr hn ih =>
    rename_i s s'
    obtain ⟨a, ha⟩ := hn
    obtain ⟨-, rfl, -⟩ := step_eq_some cfg ha
    obtain ⟨hmanaged, hvalid⟩ := perform_admits cfg s a
    apply hmanaged
    rcases hvalid p hp with hp | hp
    · exact ih hp
    · refine (handles cfg hr).reads p ?_
      unfold queuedPages
      rw [pagesQueued_append]
      exact List.mem_append_left _ hp

/-- In every state of every run, what is resident, queued for a read, staged for a
write-back, a candidate for eviction or in a prefetch request is managed; and so is the
page of every access that a core asked the GMMU for. -/
theorem only_managed_pages_move (hr : Reachable cfg g) :
    (∀ p, is_valid g p = true → Managed g p) ∧
      (∀ p ∈ queuedPages g, Managed g p) ∧
      (∀ p ∈ stagedPages g, Managed g p) ∧
      (∀ e ∈ g.valid_pages, ∀ k, k * cfg.page_size < e.size →
        Managed g (cfg.get_page_num e.addr + k)) ∧
      (∀ q ∈ g.prefetch_req_buffer, ∀ a, q.start_addr ≤ a → a < q.start_addr + q.size →
        Managed g (cfg.get_page_num a)) ∧
      ∀ mf, Asked g mf → Managed g (cfg.get_page_num mf.access.addr) := by
  have h := handles cfg hr
  refine ⟨fun p hp => resident_is_managed hr hp, h.reads, fun p hp => ?_,
    fun e he => (h.entries e he).pages, fun q hq => (h.requests q hq).pages,
    fun mf hmf => h.backed _ (h.fetches mf hmf)⟩
  obtain ⟨t, ht, hpt⟩ := List.mem_flatMap.mp hp
  exact h.writes t ht p hpt

/-- Two faults, the second of which takes the frame of the first. -/
theorem the_pages_of_two_faults_are_managed :
    is_valid (stateAfter oneFrame onePageAfterAnother) 786433 = true ∧
      Managed (stateAfter oneFrame onePageAfterAnother) 786433 :=
  have hvalid : is_valid (stateAfter oneFrame onePageAfterAnother) 786433 = true := by decide +kernel
  ⟨hvalid, (only_managed_pages_move (reachable_stateAfter oneFrame onePageAfterAnother)).1 _ hvalid⟩

end gpgpu_sim_uvm
