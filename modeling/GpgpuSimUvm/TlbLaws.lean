-- The TLBs of the load/store units. Their entries go when their page leaves
-- the GPU, so that they name resident pages as long as every reply that fills
-- an entry finds its page resident.
import GpgpuSimUvm.PageTable

namespace gpgpu_sim_uvm

open monitor

/-- Each entry of each TLB names a page that is valid. -/
def TlbCoherent (g : Gpu) : Prop := ∀ sid, ∀ p ∈ (g.ldst sid).tlb, is_valid g p = true

/-- The condition of the law: the page of a reply is valid when the reply is
taken. -/
def Event.fillsValid : Event → Bool
  | .reply_taken _ valid => valid
  | _ => true

variable (cfg : Config)

/-- The watch and the invariant of this module, over one step. -/
abbrev TlbFollows (g g' : Gpu) : Prop := monitor.Follows (Watched Event.fillsValid) TlbCoherent g g'

/-- A step that makes no page invalid and adds no entry. -/
theorem TlbCoherent.same {g g' : Gpu} (h : TlbCoherent g)
    (hvalid : ∀ p, is_valid g p = true → is_valid g' p = true)
    (htlb : ∀ sid, (g'.ldst sid).tlb = (g.ldst sid).tlb) : TlbCoherent g' := by
  intro sid p hp
  rw [htlb] at hp
  exact hvalid p (h sid p hp)

/-! ## Fills -/

theorem mem_refresh_tlb {tlb : List Nat} {p q : Nat} (h : q ∈ refresh_tlb cfg tlb p) :
    q = p ∨ q ∈ tlb := by
  unfold refresh_tlb at h
  split at h
  · rcases List.mem_append.mp h with h | h
    · exact Or.inr (List.mem_filter.mp h).1
    · exact Or.inl (List.mem_singleton.mp h)
  · rcases List.mem_append.mp h with h | h
    · split at h
      · exact Or.inr (List.mem_of_mem_tail h)
      · exact Or.inr h
    · exact Or.inl (List.mem_singleton.mp h)

/-- A fill of one TLB with a valid page. -/
theorem TlbCoherent.fill {g g' : Gpu} (sid : Nat) {page : Nat} (h : TlbCoherent g)
    (hvalid : ∀ p, is_valid g' p = is_valid g p) (hpage : is_valid g page = true)
    (hfill : (g'.ldst sid).tlb = refresh_tlb cfg (g.ldst sid).tlb page)
    (hothers : ∀ s, s ≠ sid → (g'.ldst s).tlb = (g.ldst s).tlb) : TlbCoherent g' := by
  intro s p hp
  rw [hvalid]
  by_cases hs : s = sid
  · subst hs
    rw [hfill] at hp
    rcases mem_refresh_tlb cfg hp with rfl | hp
    · exact hpage
    · exact h s p hp
  · rw [hothers s hs] at hp
    exact h s p hp

/-- A hit moves the entry of its page to the back. -/
theorem tlbHit_coherent {g : Gpu} (h : TlbCoherent g) (sid : Nat) (a : MemAccess)
    (hin : cfg.get_page_num a.addr ∈ (g.ldst sid).tlb) : TlbCoherent (tlbHit cfg g sid a) := by
  have hldst : (check_write_stage_queue cfg g (cfg.get_page_num a.addr)).ldst = g.ldst := by
    rw [check_write_stage_queue_frame]
  refine TlbCoherent.fill cfg sid h ((tlbHit_samePages cfg g sid a).is_valid) (h sid _ hin) ?_ ?_
  · change (setLdst _ sid _ sid).tlb = _
    rw [setLdst_self, hldst]
  · intro s hs
    change (setLdst _ sid _ s).tlb = _
    rw [setLdst_ne _ _ hs, hldst]

theorem access_cycle_tlbFollows (g : Gpu) (sid : Nat) : TlbFollows g (access_cycle cfg g sid).1 := by
  refine (access_cycle_grows cfg g sid).unnoticed fun h => ?_
  unfold access_cycle
  split
  · exact h
  · split
    · exact h
    · rename_i w _ a rest _
      have hmeet : TlbCoherent (meetAccesses cfg g sid a rest) :=
        h.same (fun p hp => ((meetAccesses_samePages cfg g sid a rest).is_valid p).trans hp)
          fun _ => rfl
      split
      · exact hmeet
      · have hnote : TlbCoherent (noteAccess cfg (meetAccesses cfg g sid a rest) a rest) := hmeet
        unfold farFetch
        split
        · rename_i hin
          exact tlbHit_coherent cfg hnote sid a hin
        · exact hnote.same (fun _ => id) (unit_same Ldst.tlb (by rfl) (by rfl))

theorem takeReply_tlbFollows (g : Gpu) (sid : Nat) (mf : MemFetch) (rest : List MemFetch)
    (p : Port) : TlbFollows g (takeReply cfg g sid mf rest p) := by
  have hrelease : TlbFollows (useReply cfg g sid mf rest p)
      (releaseIf cfg (useReply cfg g sid mf rest p) (releasedByReply cfg mf p)) := by
    refine (releaseIf_grows cfg _ _).unnoticed fun h => ?_
    rw [releaseIf_frame]
    exact h
  refine monitor.Follows.trans ?_ (hrelease.trans
    ((refresh_valid_pages_grows cfg _ mf.access.addr).unnoticed id))
  refine (useReply_grows cfg g sid mf rest p).follows fun h hw => ?_
  have htaken : Event.reply_taken (cfg.get_page_num mf.access.addr)
      (is_valid g (cfg.get_page_num mf.access.addr)) ∈ replyEvents cfg g mf p := by
    simp [replyEvents]
  have hvalid := hw.events _ (List.mem_append_left _ (List.mem_reverse.mpr htaken))
  refine TlbCoherent.fill cfg sid h ?_ hvalid ?_ ?_
  · exact fun q => (markPage_samePages cfg _ mf.access q).1
  · change (setLdst _ sid _ sid).tlb = _
    rw [setLdst_self]
  · intro s hs
    change (setLdst _ sid _ s).tlb = _
    rw [setLdst_ne _ _ hs]

theorem memory_cycle_tlbFollows (g : Gpu) (sid : Nat) (p : Port) :
    TlbFollows g (memory_cycle cfg g sid p).1 := by
  simp only [memory_cycle]
  split
  · rename_i w _
    refine Grows.unnoticed ((sendAccesses_grows cfg g sid w _).trans (releaseIf_grows cfg _ _))
      fun h => ?_
    unfold drainQueue
    rw [releaseIf_frame]
    exact h.same (fun _ => id) (unit_same Ldst.tlb (by rfl) (by rfl))
  · exact monitor.Follows.refl g
  · split
    · exact monitor.Follows.refl g
    · exact takeReply_tlbFollows cfg g sid _ _ p

/-! ## Flushes -/

/-- The pages that leave the GPU leave every TLB with them. -/
theorem TlbCoherent.flush {g g' : Gpu} {ps : List Nat} (h : TlbCoherent g)
    (hdata : g'.m_data = ps.foldl invalidate_page g.m_data)
    (hldst : g'.ldst = tlb_flush g.ldst ps) : TlbCoherent g' := by
  intro sid p hp
  rw [hldst] at hp
  obtain ⟨hin, hnot⟩ := List.mem_filter.mp hp
  have hold := h sid p hin
  unfold is_valid at hold ⊢
  rw [hdata, pageOf_invalidate_pages, if_neg (of_decide_eq_true hnot)]
  exact hold

theorem write_back_schedule_tlbFollows (g : Gpu) :
    TlbFollows g (write_back_schedule cfg g) := by
  refine (write_back_schedule_grows cfg g).unnoticed fun h => ?_
  unfold write_back_schedule
  split
  · exact h.flush rfl rfl
  · exact h

theorem completePages_coherent (ps : List Nat) {g : Gpu} (h : TlbCoherent g) :
    TlbCoherent (ps.foldl (completePage cfg) g) := by
  induction ps generalizing g with
  | nil => exact h
  | cons p ps ih =>
    refine ih (h.same (fun q hq => ?_) fun sid => by rw [completePage_frame])
    unfold is_valid at hq ⊢
    rw [completePage_m_data, pageOf_validate_page]
    split
    · rfl
    · exact hq

theorem read_done_tlbFollows (g : Gpu) : TlbFollows g (read_done cfg g) := by
  refine (read_done_grows cfg g).unnoticed fun h => ?_
  unfold read_done finishRead
  split
  · exact h
  · rename_i t _
    split
    · split
      · exact completePages_coherent cfg t.page_list h
      · cases t.mf <;> exact h
      · exact h
    · exact h

/-! ## Steps -/

theorem gmmu_cycle_tlbFollows (g : Gpu) : TlbFollows g (gmmu_cycle cfg g) := by
  refine gmmu_cycle_follows cfg (fun g => ?_) (fun g => ?_) (write_back_schedule_tlbFollows cfg)
    (read_done_tlbFollows cfg) (fun g => ?_)
    (page_table_walk_follows cfg fun g mf => ?_) (fun g => ?_) (fun g => ?_) (fun g => ?_) g
  · refine (eviction_check_grows cfg g).unnoticed fun h => ?_
    rw [eviction_check_frame]
    exact h
  · exact (write_back_done_grows cfg g).unnoticed id
  · refine (read_schedule_grows cfg g).unnoticed fun h => ?_
    rw [read_schedule_frame]
    exact h
  · refine (walkFetch_grows cfg g mf).unnoticed fun h => h.same (fun p hp => ?_) fun sid => ?_
    · exact ((walkFetch_samePages cfg g mf).is_valid p).trans hp
    · rw [walkFetch_frame]
  · refine (do_hardware_prefetch_grows cfg g).unnoticed fun h => ?_
    rw [do_hardware_prefetch_frame]
    exact h
  · refine (fetch_from_clusters_grows cfg g).unnoticed fun h => ?_
    rw [fetch_from_clusters_frame]
    exact h
  · refine (user_prefetch_grows cfg g).unnoticed fun h => h.same (fun p hp => ?_) fun sid => ?_
    · exact ((user_prefetch_samePages cfg g).is_valid p).trans hp
    · rw [user_prefetch_frame]

theorem perform_tlbFollows (g : Gpu) (a : Action) : TlbFollows g (perform cfg g a) := by
  have hgrows := perform_grows cfg g a
  cases a with
  | cudaMallocManaged cpu size =>
    refine hgrows.unnoticed fun h => h.same (fun p hp => ?_) fun _ => rfl
    exact (is_valid_cudaMallocManaged cfg g cpu size p).trans hp
  | cudaDeviceSynchronize => exact hgrows.unnoticed fun h => h.flush rfl rfl
  | issue sid w bytes =>
    refine hgrows.unnoticed fun h => h.same (fun p hp => ?_) fun s => ?_
    · exact ((writeDevice_samePages cfg _ bytes).is_valid p).trans hp
    · exact unit_same Ldst.tlb (by rfl) (by rfl) s
  | dispatch sid k => exact hgrows.unnoticed fun h => h.same (fun _ => id) (unit_same Ldst.tlb (by rfl) (by rfl))
  | do_atomic sid k bytes =>
    refine hgrows.unnoticed fun h => h.same (fun p hp => ?_) fun _ => rfl
    exact ((writeDevice_samePages cfg _ bytes).is_valid p).trans hp
  | ldst_cycle sid p =>
    exact ldst_cycle_follows cfg (access_cycle_tlbFollows cfg) (memory_cycle_tlbFollows cfg)
      (fun g sid => (retire_grows g sid).unnoticed fun h =>
        h.same (fun _ => id) (unit_same Ldst.tlb (by rfl) (by rfl))) g sid p
  | icnt_cycle c =>
    refine hgrows.unnoticed fun h => h.same (fun p hp => ?_)
      (icnt_cycle_unit cfg Ldst.tlb (fun _ _ => rfl) (fun _ _ => rfl) g c)
    simp only [perform]
    rw [icnt_cycle_frame]
    exact hp
  | answer sid k how =>
    refine hgrows.unnoticed fun h => h.same (fun p hp => ?_)
      (answer_unit cfg Ldst.tlb (fun _ _ => rfl) g sid k how)
    simp only [perform]
    rw [answer_frame]
    exact hp
  | gmmu_cycle => exact gmmu_cycle_tlbFollows cfg g
  | cudaSetupArgument p =>
    refine hgrows.unnoticed fun h => ?_
    simp only [perform]
    rw [cudaSetupArgument_frame]
    exact h
  | cudaMemPrefetchAsync p n s =>
    refine hgrows.unnoticed fun h => ?_
    simp only [perform]
    rw [cudaMemPrefetchAsync_frame]
    exact h
  | cudaMalloc _ | host_write _ _ | activate_prefetch _ _ _ | log_kernel_start _
  | log_kernel_finish _ | tick => exact hgrows.unnoticed id

/-! ## The law of the TLBs -/

/-- In every run whose replies all find their page resident, each entry of each
TLB names a resident page. -/
theorem the_tlbs_name_resident_pages {g : Gpu} (hr : Reachable cfg g)
    (hfill : g.history.all Event.fillsValid = true) (sid : Nat) :
    ∀ p ∈ (g.ldst sid).tlb, is_valid g p = true := by
  have h : TlbCoherent g :=
    invariant_of_steps cfg TlbCoherent (fun _ p hp => absurd hp List.not_mem_nil)
      (fun g a _ => perform_tlbFollows cfg g a) hr hfill
  exact h sid

/-- A managed page is loaded, and its reply is taken. -/
def loadedPage : List Action :=
  [.cudaMallocManaged 65536 65536, .cudaSetupArgument 65536] ++
    loadOn 0 [pageAccess 0 .GLOBAL_ACC_R 1] ++
    [.icnt_cycle 0, .gmmu_cycle, .gmmu_cycle, .gmmu_cycle, .tick, .gmmu_cycle, .icnt_cycle 0,
      .ldst_cycle 0 ⟨1, false, false⟩]

theorem the_tlbs_name_resident_pages_behind_one_load :
    ((stateAfter smallConfig loadedPage).ldst 0).tlb.length = 1 ∧
      ∀ p ∈ ((stateAfter smallConfig loadedPage).ldst 0).tlb,
        is_valid (stateAfter smallConfig loadedPage) p = true :=
  ⟨by decide +kernel,
    the_tlbs_name_resident_pages smallConfig (reachable_stateAfter smallConfig loadedPage)
      (by decide +kernel) 0⟩

/-- A load that is served by a direct access, in the mode that never migrates a
page for a read. -/
def directLoad : List Action :=
  [.cudaMallocManaged 65536 65536, .cudaSetupArgument 65536] ++
    loadOn 0 [pageAccess 0 .GLOBAL_ACC_R 1] ++
    [.icnt_cycle 0, .gmmu_cycle, .gmmu_cycle, .gmmu_cycle] ++ List.replicate 200 .tick ++
    [.gmmu_cycle, .icnt_cycle 0, .ldst_cycle 0 ⟨1, false, false⟩]

/-- The reply of a direct access fills the TLB like any other, so that the next
access of the page hits although the page is still on the host. -/
theorem a_direct_access_fills_the_tlb :
    ¬ ∀ (cfg : Config) (g : Gpu), Reachable cfg g →
      ∀ sid, ∀ p ∈ (g.ldst sid).tlb, is_valid g p = true := by
  intro h
  have hrun := h { smallConfig with enable_dma := .ALWAYS } _
    (reachable_stateAfter _ directLoad) 0
  revert hrun
  decide +kernel

end gpgpu_sim_uvm
