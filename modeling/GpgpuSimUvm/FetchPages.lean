-- The pages of the fetches. A fetch waits in the entry of its own page, and one
-- that comes back finds its page on the GPU, unless the page has left again in
-- the meantime or the fetch was served by DMA. The TLBs follow the replies.
import GpgpuSimUvm.FetchLedger
import GpgpuSimUvm.TlbLaws

namespace gpgpu_sim_uvm

open monitor

variable (cfg : Config)

def fetchPage (mf : MemFetch) : Nat := cfg.get_page_num mf.access.addr

/-- The fetches of the direct accesses that are under way. -/
def directFetches (g : Gpu) : List MemFetch :=
  g.pcie_read_stage_queue.filterMap directFetch ++
    g.pcie_read_latency_queue.toList.filterMap directFetch

/-- What a unit knows of its pages. -/
def Ldst.translations (u : Ldst) : List Nat × List MemFetch := (u.tlb, u.taken)

/-- Where the fetches of a page are, what makes them come back. -/
structure FetchPages (g : Gpu) : Prop where
  filed : g.req_info.KeyedBy (fetchPage cfg)
  faulted : g.page_fault_this_turn.KeyedBy (fetchPage cfg)
  incoming : ∀ q ∈ g.prefetch_req_buffer, q.incoming_replayable_nacks.KeyedBy (fetchPage cfg)
  outgoing : ∀ q ∈ g.prefetch_req_buffer, ∀ mf ∈ q.outgoing_replayable_nacks.pooled,
    fetchPage cfg mf ∈ q.pending_prefetch ∨ is_valid g (fetchPage cfg mf) = true
  direct : ∀ mf ∈ directFetches g, mf ∈ g.m_dma
  back : ∀ r ∈ g.replayed, r.1 ∈ g.m_dma ∨ r.1 ∈ (g.ldst r.1.sid).taken ∨
    is_valid g (fetchPage cfg r.1) = true
  entries : ∀ sid, ∀ p ∈ (g.ldst sid).tlb, servedDirectly cfg g sid p = true ∨ is_valid g p = true

/-- No reply for a page that leaves is on its way. -/
def Event.leavesQuietly : Event → Bool
  | .left_gpu expected => !expected
  | _ => true

variable {cfg}

theorem servedDirectly_mono {g g' : Gpu} {sid p : Nat}
    (hdma : g.m_dma ⊆ g'.m_dma) (htaken : (g.ldst sid).taken ⊆ (g'.ldst sid).taken)
    (h : servedDirectly cfg g sid p = true) : servedDirectly cfg g' sid p = true := by
  unfold servedDirectly at h ⊢
  obtain ⟨mf, hmf, hpage⟩ := List.any_eq_true.mp h
  have hpage := of_decide_eq_true hpage
  exact List.any_eq_true.mpr ⟨mf, htaken hmf, decide_eq_true ⟨hdma hpage.1, hpage.2⟩⟩

namespace FetchPages

variable {g g' : Gpu}

/-- A step that files no fetch anew and makes no page invalid. -/
theorem same (h : FetchPages cfg g) (hreq : g'.req_info = g.req_info)
    (hturn : g'.page_fault_this_turn = g.page_fault_this_turn)
    (hbuffer : g'.prefetch_req_buffer = g.prefetch_req_buffer)
    (hdirect : directFetches g' = directFetches g) (hdma : g'.m_dma = g.m_dma)
    (hreplayed : g'.replayed = g.replayed)
    (hvalid : ∀ p, is_valid g p = true → is_valid g' p = true)
    (hunits : ∀ s, (g'.ldst s).translations = (g.ldst s).translations) : FetchPages cfg g' := by
  simp only [Ldst.translations, Prod.mk.injEq] at hunits
  refine ⟨?_, ?_, ?_, ?_, ?_, ?_, ?_⟩
  · rw [hreq]
    exact h.filed
  · rw [hturn]
    exact h.faulted
  · rw [hbuffer]
    exact h.incoming
  · rw [hbuffer]
    exact fun q hq mf hmf => (h.outgoing q hq mf hmf).imp_right (hvalid _)
  · rw [hdirect, hdma]
    exact h.direct
  · rw [hreplayed, hdma]
    intro r hr
    rw [(hunits _).2]
    exact (h.back r hr).imp_right (Or.imp_right (hvalid _))
  · intro sid p hp
    rw [(hunits sid).1] at hp
    rcases h.entries sid p hp with hserved | hp
    · left
      refine servedDirectly_mono ?_ ?_ hserved
      · rw [hdma]
        exact List.Subset.refl _
      · rw [(hunits sid).2]
        exact List.Subset.refl _
    · exact Or.inr (hvalid p hp)

theorem check_write_stage_queue (h : FetchPages cfg g) (p : Nat) :
    FetchPages cfg (check_write_stage_queue cfg g p) := by
  have hvalid : ∀ q, is_valid g q = true →
      is_valid (gpgpu_sim_uvm.check_write_stage_queue cfg g p) q = true := by
    intro q hq
    rw [(check_write_stage_queue_samePages cfg g p).is_valid, hq]
  rw [check_write_stage_queue_frame] at hvalid ⊢
  exact h.same rfl rfl rfl rfl rfl rfl hvalid fun _ => rfl

/-! ## Replays -/

/-- A fetch goes back whose page is there, or that was served by DMA. -/
theorem replay (h : FetchPages cfg g) {mf : MemFetch}
    (hmf : mf ∈ g.m_dma ∨ is_valid g (fetchPage cfg mf) = true) :
    FetchPages cfg (replay cfg g mf) := by
  refine ⟨h.filed, h.faulted, h.incoming, h.outgoing, h.direct, ?_, h.entries⟩
  intro r hr
  rcases List.mem_cons.mp hr with rfl | hr
  · exact hmf.imp_right Or.inr
  · exact h.back r hr

theorem replays (mfs : List MemFetch) (h : FetchPages cfg g)
    (hmfs : ∀ mf ∈ mfs, is_valid g (fetchPage cfg mf) = true) :
    FetchPages cfg (mfs.foldl (gpgpu_sim_uvm.replay cfg) g) := by
  induction mfs generalizing g with
  | nil => exact h
  | cons mf mfs ih =>
    apply ih (h.replay (Or.inr (hmfs mf List.mem_cons_self)))
    exact fun x hx => hmfs x (List.mem_cons_of_mem _ hx)

/-! ## The end of a migration -/

theorem admitPage (h : FetchPages cfg g) (p : Nat) :
    FetchPages cfg (admitPage cfg g p) ∧ is_valid (gpgpu_sim_uvm.admitPage cfg g p) p = true := by
  have hpage : ∀ q, is_valid (gpgpu_sim_uvm.admitPage cfg g p) q =
      if q = p then true else is_valid g q := by
    intro q
    change (pageOf (validate_page g.m_data p) q).valid = _
    rw [pageOf_validate_page]
    split <;> rfl
  refine ⟨h.same rfl rfl rfl rfl rfl rfl (fun q hq => ?_) fun _ => rfl, ?_⟩
  · rw [hpage]
    split
    · rfl
    · exact hq
  · rw [hpage, if_pos rfl]

theorem completePrefetched (h : FetchPages cfg g) {p : Nat} (hp : is_valid g p = true) :
    FetchPages cfg (completePrefetched g p) := by
  unfold gpgpu_sim_uvm.completePrefetched
  split
  · exact h
  · rename_i pre_q rest hbuffer
    have hin : pre_q ∈ g.prefetch_req_buffer := by
      rw [hbuffer]
      exact List.mem_cons_self
    have hrest : ∀ q ∈ rest, q ∈ g.prefetch_req_buffer := by
      intro q hq
      rw [hbuffer]
      exact List.mem_cons_of_mem _ hq
    split
    · refine ⟨h.filed.erase p, h.faulted, ?_, ?_, h.direct, h.back, h.entries⟩
      · intro q hq
        rcases List.mem_cons.mp hq with rfl | hq
        · exact h.incoming pre_q hin
        · exact h.incoming q (hrest q hq)
      · intro q hq mf hmf
        rcases List.mem_cons.mp hq with rfl | hq
        · -- the fetches of the page join those that wait for the chunk
          have hmf := (StdMap.pooled_append _ p (g.req_info.findD p [])).mem_iff.mp hmf
          rcases List.mem_append.mp hmf with hmf | hmf
          · rw [h.filed p mf hmf]
            exact Or.inr hp
          · rcases h.outgoing pre_q hin mf hmf with hpending | hvalid
            · by_cases hpage : fetchPage cfg mf = p
              · rw [hpage]
                exact Or.inr hp
              · exact Or.inl ((List.mem_erase_of_ne hpage).mpr hpending)
            · exact Or.inr hvalid
        · exact h.outgoing q (hrest q hq) mf hmf
    · exact h

theorem completeFaulted (h : FetchPages cfg g) {p : Nat} (hp : is_valid g p = true) :
    FetchPages cfg (completeFaulted cfg g p) := by
  have hreplays := h.replays (g.req_info.findD p []) fun mf hmf => by
    rw [h.filed p mf hmf]
    exact hp
  exact ⟨hreplays.filed.erase p, hreplays.faulted, hreplays.incoming, hreplays.outgoing,
    hreplays.direct, hreplays.back, hreplays.entries⟩

theorem completePage (h : FetchPages cfg g) (p : Nat) : FetchPages cfg (completePage cfg g p) := by
  obtain ⟨hadmitted, hp⟩ := h.admitPage p
  have hprefetched := hadmitted.completePrefetched hp
  apply hprefetched.completeFaulted
  rw [completePrefetched_frame]
  exact hp

theorem read_done (h : FetchPages cfg g) : FetchPages cfg (read_done cfg g) := by
  -- the transfer leaves its queue
  have hempty : ∀ {g}, FetchPages cfg g →
      FetchPages cfg { g with pcie_read_latency_queue := none } := by
    intro g h
    refine ⟨h.filed, h.faulted, h.incoming, h.outgoing, ?_, h.back, h.entries⟩
    intro mf hmf
    apply h.direct mf
    unfold directFetches at hmf ⊢
    simp only [Option.toList_none, List.filterMap_nil, List.append_nil] at hmf
    exact List.mem_append_left _ hmf
  unfold gpgpu_sim_uvm.read_done
  split
  · exact h
  · rename_i t ht
    split
    · unfold finishRead
      split
      · exact hempty (foldl_keeps (fun p _ g hg => hg.completePage p) h)
      · rename_i htype
        cases hmf : t.mf with
        | none => exact hempty h
        | some mf =>
          refine hempty (h.replay (Or.inl (h.direct mf ?_)))
          unfold directFetches
          rw [ht]
          apply List.mem_append_right
          simp [directFetch, htype, hmf]
      · exact hempty h
    · exact h

theorem read_schedule (h : FetchPages cfg g) : FetchPages cfg (read_schedule cfg g) := by
  -- the direct accesses under way are the same ones
  have hdirect : ∀ mf ∈ directFetches (gpgpu_sim_uvm.read_schedule cfg g),
      mf ∈ directFetches g := by
    intro mf hmf
    unfold gpgpu_sim_uvm.read_schedule at hmf
    split at hmf
    · rename_i front rest hstage hlatency
      split at hmf
      · have hpick := pick_perm (fun t : PcieLatency => decide (t.type = .DMA)) front rest
        have hstart : ∀ t, directFetch (startRead cfg g t) = directFetch t := by
          intro t
          unfold startRead directFetch
          split <;> simp_all
        unfold directFetches at hmf ⊢
        rw [hstage, hlatency]
        simp only [Option.toList_some, Option.toList_none, List.filterMap_nil, List.append_nil]
          at hmf ⊢
        obtain ⟨t, ht, hmf⟩ : ∃ t ∈ front :: rest, directFetch t = some mf := by
          rcases List.mem_append.mp hmf with hmf | hmf
          · obtain ⟨t, ht, hmf⟩ := List.mem_filterMap.mp hmf
            exact ⟨t, hpick.mem_iff.mp (List.mem_cons_of_mem _ ht), hmf⟩
          · obtain ⟨t, ht, hmf⟩ := List.mem_filterMap.mp hmf
            rw [List.mem_singleton.mp ht, hstart] at hmf
            exact ⟨_, hpick.mem_iff.mp List.mem_cons_self, hmf⟩
        exact List.mem_filterMap.mpr ⟨t, ht, hmf⟩
      · exact hmf
    · exact hmf
  rw [read_schedule_frame] at hdirect ⊢
  exact ⟨h.filed, h.faulted, h.incoming, h.outgoing, fun mf hmf => h.direct mf (hdirect mf hmf),
    h.back, h.entries⟩

/-! ## The walk -/

variable (cfg) in
theorem pagesOfRange_access (a : MemAccess) :
    pagesOfRange cfg a.addr a.size = [cfg.get_page_num a.addr] := by
  simp [pagesOfRange, cfg.access_in_one_page a]

/-- The page of an access that faults is the page of the access. -/
theorem faulty_page {a : MemAccess} {p : Nat} {ps : List Nat}
    (h : get_faulty_pages cfg g a.addr a.size = p :: ps) : cfg.get_page_num a.addr = p := by
  have hp : p ∈ get_faulty_pages cfg g a.addr a.size := by
    rw [h]
    exact List.mem_cons_self
  unfold get_faulty_pages at hp
  rw [pagesOfRange_access] at hp
  exact (List.mem_singleton.mp (List.mem_filter.mp hp).1).symm

theorem no_faulty_page {a : MemAccess} (h : get_faulty_pages cfg g a.addr a.size = []) :
    is_valid g (cfg.get_page_num a.addr) = true := by
  unfold get_faulty_pages at h
  rw [pagesOfRange_access, List.filter_eq_nil_iff] at h
  simpa using h (cfg.get_page_num a.addr) List.mem_cons_self

/-- The requests of the buffer once one of them holds the fetch. -/
theorem mem_parkFetch {mf : MemFetch} {p : Nat} {q : PrefetchReq} {qs : List PrefetchReq}
    (h : q ∈ parkFetch mf p qs) :
    q ∈ qs ∨ ∃ q' ∈ qs, q = { q' with
      incoming_replayable_nacks := q'.incoming_replayable_nacks.alter p [] (· ++ [mf]) } := by
  induction qs with
  | nil => cases h
  | cons q0 qs ih =>
    unfold parkFetch at h
    split at h
    · rcases List.mem_cons.mp h with rfl | h
      · exact Or.inr ⟨q0, List.mem_cons_self, rfl⟩
      · exact Or.inl (List.mem_cons_of_mem _ h)
    · rcases List.mem_cons.mp h with rfl | h
      · exact Or.inl List.mem_cons_self
      · rcases ih h with h | ⟨q', hq', rfl⟩
        · exact Or.inl (List.mem_cons_of_mem _ h)
        · exact Or.inr ⟨q', List.mem_cons_of_mem _ hq', rfl⟩

/-- A fetch that faults is filed under its page. -/
theorem fileFetch (h : FetchPages cfg g) {mf : MemFetch} {p : Nat} (hp : fetchPage cfg mf = p) :
    FetchPages cfg (fileFetch cfg g mf p) := by
  have hone : ∀ x ∈ [mf], fetchPage cfg x = p := by
    intro x hx
    rw [List.mem_singleton.mp hx, hp]
  unfold gpgpu_sim_uvm.fileFetch
  split
  · exact ⟨h.filed.append hone, h.faulted, h.incoming, h.outgoing, h.direct, h.back, h.entries⟩
  · split
    · refine ⟨h.filed, h.faulted, ?_, ?_, h.direct, h.back, h.entries⟩
      · intro q hq
        rcases mem_parkFetch hq with hq | ⟨q', hq', rfl⟩
        · exact h.incoming q hq
        · exact (h.incoming q' hq').append hone
      · intro q hq
        rcases mem_parkFetch hq with hq | ⟨q', hq', rfl⟩
        · exact h.outgoing q hq
        · exact h.outgoing q' hq'
    · by_cases hmigrate : should_cause_page_migration cfg g mf.access.addr
          (decide (mf.access.type = .GLOBAL_ACC_W)) = true
      · simp only [newFault, hmigrate, if_true]
        exact ⟨h.filed, h.faulted.append hone, h.incoming, h.outgoing, h.direct, h.back, h.entries⟩
      · -- a direct access is marked as one
        simp only [newFault, hmigrate, Bool.false_eq_true, if_false]
        refine ⟨h.filed, h.faulted, h.incoming, h.outgoing, ?_, ?_, ?_⟩
        · intro x hx
          unfold directFetches at hx
          rw [List.filterMap_append, List.append_assoc] at hx
          rcases List.mem_append.mp hx with hx | hx
          · exact List.mem_cons_of_mem _ (h.direct x (List.mem_append_left _ hx))
          · rcases List.mem_append.mp hx with hx | hx
            · obtain ⟨t, ht, hx⟩ := List.mem_filterMap.mp hx
              rw [List.mem_singleton.mp ht] at hx
              cases hx
              exact List.mem_cons_self
            · exact List.mem_cons_of_mem _ (h.direct x (List.mem_append_right _ hx))
        · exact fun r hr => (h.back r hr).imp_left (List.mem_cons_of_mem _)
        · intro sid q hq
          refine (h.entries sid q hq).imp_left fun hserved => servedDirectly_mono ?_ ?_ hserved
          · exact List.subset_cons_self _ _
          · exact List.Subset.refl _

theorem walkFetch (h : FetchPages cfg g) (mf : MemFetch) : FetchPages cfg (walkFetch cfg g mf) := by
  have hpop : FetchPages cfg (popWalk cfg g mf) := h.same rfl rfl rfl rfl rfl rfl (fun _ => id)
    fun _ => rfl
  unfold gpgpu_sim_uvm.walkFetch
  split
  · rename_i hfaulty
    have hsame := (check_write_stage_queue_samePages cfg (popWalk cfg g mf)
      (cfg.get_page_num mf.access.addr)).is_valid
    apply (hpop.check_write_stage_queue _).replay
    exact Or.inr ((hsame _).trans (no_faulty_page hfaulty))
  · rename_i page rest hfaulty
    exact hpop.fileFetch (faulty_page hfaulty)

theorem page_table_walk (h : FetchPages cfg g) : FetchPages cfg (page_table_walk cfg g) :=
  foldl_keeps (fun mf _ _ hg => hg.walkFetch mf) h

/-! ## The producers -/

theorem do_hardware_prefetch (h : FetchPages cfg g) :
    FetchPages cfg (do_hardware_prefetch cfg g) := by
  simp only [gpgpu_sim_uvm.do_hardware_prefetch]
  split
  · exact h
  · have htouched : ∀ (temp : List Nat) (m : StdMap Nat (List MemFetch)),
        m.KeyedBy (fetchPage cfg) →
        (temp.foldl (fun m p => m.alter p [] id) m).KeyedBy (fetchPage cfg) := by
      intro temp
      induction temp with
      | nil => exact fun _ hm => hm
      | cons p temp ih => exact fun m hm => ih _ (hm.touch p)
    have hfile : ∀ g', FetchPages cfg g' → FetchPages cfg (fileFaults g') := by
      intro g' hg'
      have hentries : ∀ e ∈ g'.page_fault_this_turn.entries, ∀ mf ∈ e.2, fetchPage cfg mf = e.1 := by
        intro e he mf hmf
        apply hg'.faulted e.1 mf
        rw [StdMap.findD_of_mem _ _ he]
        exact hmf
      refine foldl_keeps (fun e he g hg => ?_) hg'
      exact ⟨hg.filed.put (hentries e he), hg.faulted, hg.incoming, hg.outgoing, hg.direct,
        hg.back, hg.entries⟩
    have hchosen : FetchPages cfg (chooseMigrations cfg g).1 := by
      rw [chooseMigrations_frame]
      exact h.same rfl rfl rfl rfl rfl rfl (fun _ => id) fun _ => rfl
    generalize chooseMigrations cfg g = s at hchosen ⊢
    have hstaged : FetchPages cfg (stageTurn cfg s.1 s.2) := by
      apply hfile
      refine ⟨htouched _ _ hchosen.filed, hchosen.faulted, hchosen.incoming, hchosen.outgoing, ?_,
        hchosen.back, hchosen.entries⟩
      intro mf hmf
      apply hchosen.direct mf
      unfold directFetches at hmf ⊢
      rwa [List.filterMap_append, transfers_direct, List.append_nil] at hmf
    rw [noteOversubscription_frame]
    exact ⟨hstaged.filed, StdMap.keyedBy_empty, hstaged.incoming, hstaged.outgoing, hstaged.direct,
      hstaged.back, hstaged.entries⟩

/-- The chunk in front of the buffer takes pages, with the fetches that wait
for them. -/
theorem selectChunk (n : Nat) {q : PrefetchReq} (h : FetchPages cfg g)
    (hin : q.incoming_replayable_nacks.KeyedBy (fetchPage cfg))
    (hout : ∀ mf ∈ q.outgoing_replayable_nacks.pooled,
      fetchPage cfg mf ∈ q.pending_prefetch ∨ is_valid g (fetchPage cfg mf) = true) :
    FetchPages cfg (selectChunk cfg n g q).1 ∧
      (selectChunk cfg n g q).2.incoming_replayable_nacks.KeyedBy (fetchPage cfg) ∧
      ∀ mf ∈ (selectChunk cfg n g q).2.outgoing_replayable_nacks.pooled,
        fetchPage cfg mf ∈ (selectChunk cfg n g q).2.pending_prefetch ∨
          is_valid (selectChunk cfg n g q).1 (fetchPage cfg mf) = true := by
  induction n generalizing g q with
  | zero => exact ⟨h, hin, hout⟩
  | succ n ih =>
    have hreq : FetchPages cfg (g.require (is_mapped g (cfg.get_page_num q.cur_addr))) :=
      h.same rfl rfl rfl rfl rfl rfl (fun _ => id) fun _ => rfl
    have hsame := (check_write_stage_queue_samePages cfg
      (g.require (is_mapped g (cfg.get_page_num q.cur_addr)))
      (cfg.get_page_num q.cur_addr)).is_valid
    have hcheck := hreq.check_write_stage_queue (cfg.get_page_num q.cur_addr)
    have houtcheck : ∀ mf ∈ q.outgoing_replayable_nacks.pooled,
        fetchPage cfg mf ∈ q.pending_prefetch ∨ is_valid (gpgpu_sim_uvm.check_write_stage_queue cfg
          (g.require (is_mapped g (cfg.get_page_num q.cur_addr)))
          (cfg.get_page_num q.cur_addr)) (fetchPage cfg mf) = true :=
      fun mf hmf => (hout mf hmf).imp_right ((hsame _).trans ·)
    have htake : ∀ q' : PrefetchReq,
        q'.incoming_replayable_nacks = q.incoming_replayable_nacks →
        q'.outgoing_replayable_nacks = q.outgoing_replayable_nacks →
        q'.pending_prefetch = q.pending_prefetch → ∀ p,
        FetchPages cfg (takePage (g.require (is_mapped g (cfg.get_page_num q.cur_addr))) q' p).1 ∧
        (takePage g q' p).2.incoming_replayable_nacks.KeyedBy (fetchPage cfg) ∧
        ∀ mf ∈ (takePage g q' p).2.outgoing_replayable_nacks.pooled,
          fetchPage cfg mf ∈ (takePage g q' p).2.pending_prefetch ∨
            is_valid g (fetchPage cfg mf) = true := by
      intro q' hincoming houtgoing hpending p
      refine ⟨?_, ?_, ?_⟩
      · exact ⟨hreq.filed.touch p, hreq.faulted, hreq.incoming, hreq.outgoing, hreq.direct,
          hreq.back, hreq.entries⟩
      · simp only [takePage, hincoming]
        exact hin.erase p
      · intro mf hmf
        simp only [takePage, hincoming, houtgoing, hpending] at hmf ⊢
        have hold : mf ∈ q.outgoing_replayable_nacks.pooled →
            fetchPage cfg mf ∈ q.pending_prefetch ++ [p] ∨ is_valid g (fetchPage cfg mf) = true :=
          fun hmf => (hout mf hmf).imp_left (List.mem_append_left _)
        split at hmf
        · rcases List.mem_append.mp ((StdMap.pooled_append _ p _).mem_iff.mp hmf) with hmf | hmf
          · rw [hin p mf hmf]
            exact Or.inl (List.mem_append_right _ List.mem_cons_self)
          · exact hold hmf
        · exact hold hmf
    have htaken := htake { q with cur_addr := q.cur_addr + cfg.page_size } rfl rfl rfl
      (cfg.get_page_num q.cur_addr)
    simp only [gpgpu_sim_uvm.selectChunk]
    split_ifs
    · exact ⟨hcheck, hin, houtcheck⟩
    · exact ih hcheck hin houtcheck
    · exact ⟨hcheck, hin, houtcheck⟩
    · exact ih htaken.1 htaken.2.1 htaken.2.2
    · exact htaken

theorem user_prefetch (h : FetchPages cfg g) : FetchPages cfg (user_prefetch cfg g) := by
  unfold gpgpu_sim_uvm.user_prefetch
  split
  · exact h
  · rename_i q rest hbuffer
    have hin : q ∈ g.prefetch_req_buffer := by
      rw [hbuffer]
      exact List.mem_cons_self
    have hrest : ∀ x ∈ rest, x ∈ g.prefetch_req_buffer := by
      intro x hx
      rw [hbuffer]
      exact List.mem_cons_of_mem _ hx
    split
    · rename_i hruns
      -- all the pages of the last chunk are there
      have hreplay : FetchPages cfg (replayChunk cfg g q).1 ∧
          (replayChunk cfg g q).2.incoming_replayable_nacks.KeyedBy (fetchPage cfg) ∧
          ∀ mf ∈ (replayChunk cfg g q).2.outgoing_replayable_nacks.pooled,
            fetchPage cfg mf ∈ (replayChunk cfg g q).2.pending_prefetch ∨
              is_valid (replayChunk cfg g q).1 (fetchPage cfg mf) = true := by
        unfold replayChunk
        split
        · refine ⟨h.replays _ fun mf hmf => ?_, h.incoming q hin, fun mf hmf => ?_⟩
          · rcases h.outgoing q hin mf hmf with hpending | hvalid
            · rw [hruns.2] at hpending
              cases hpending
            · exact hvalid
          · cases hmf
        · exact ⟨h, h.incoming q hin, h.outgoing q hin⟩
      have hbuffer' : (replayChunk cfg g q).1.prefetch_req_buffer = g.prefetch_req_buffer := by
        rw [replayChunk_frame]
      generalize replayChunk cfg g q = s at hreplay hbuffer' ⊢
      obtain ⟨hs, hsin, hsout⟩ := hreplay
      dsimp only
      split
      · refine ⟨hs.filed, hs.faulted, ?_, ?_, hs.direct, hs.back, hs.entries⟩
        · exact fun x hx => hs.incoming x (by rw [hbuffer']; exact hrest x hx)
        · exact fun x hx => hs.outgoing x (by rw [hbuffer']; exact hrest x hx)
      · obtain ⟨hc, hcin, hcout⟩ :=
          hs.selectChunk (pages_left cfg s.2) hsin hsout
        have hbuffer'' : (gpgpu_sim_uvm.selectChunk cfg (pages_left cfg s.2) s.1
            s.2).1.prefetch_req_buffer = g.prefetch_req_buffer := by
          rw [selectChunk_frame, hbuffer']
        generalize gpgpu_sim_uvm.selectChunk cfg (pages_left cfg s.2) s.1 s.2 = c at *
        refine ⟨hc.filed, hc.faulted, ?_, ?_, ?_, hc.back, hc.entries⟩
        · intro x hx
          rcases List.mem_cons.mp hx with rfl | hx
          · exact hcin
          · exact hc.incoming x (by rw [hbuffer'']; exact hrest x hx)
        · intro x hx
          rcases List.mem_cons.mp hx with rfl | hx
          · exact hcout
          · exact hc.outgoing x (by rw [hbuffer'']; exact hrest x hx)
        · have hchunk : ∀ pages, (chunkTransfer cfg pages).filterMap directFetch = [] := by
            intro pages
            unfold chunkTransfer
            split <;> rfl
          intro mf hmf
          apply hc.direct mf
          unfold directFetches at hmf ⊢
          simp only [stageChunk, List.filterMap_append, hchunk, List.append_nil] at hmf
          exact hmf
    · exact h

/-! ## Pages that leave -/

/-- Pages leave the GPU, and the TLBs, with no reply for them on its way. -/
theorem leave (h : FetchPages cfg g) {ps : List Nat}
    (hquiet : ∀ p ∈ ps, isExpected cfg g p = false)
    (hdata : g'.m_data = ps.foldl invalidate_page g.m_data)
    (hldst : g'.ldst = tlb_flush g.ldst ps) (hreq : g'.req_info = g.req_info)
    (hturn : g'.page_fault_this_turn = g.page_fault_this_turn)
    (hbuffer : g'.prefetch_req_buffer = g.prefetch_req_buffer)
    (hdirect : directFetches g' = directFetches g) (hdma : g'.m_dma = g.m_dma)
    (hreplayed : g'.replayed = g.replayed) : FetchPages cfg g' := by
  have hstays : ∀ p, p ∉ ps → is_valid g p = true → is_valid g' p = true := by
    intro p hp hvalid
    unfold is_valid at hvalid ⊢
    rw [hdata, pageOf_invalidate_pages, if_neg hp]
    exact hvalid
  have htaken : ∀ s, (g'.ldst s).taken = (g.ldst s).taken := by
    intro s
    rw [hldst]
    rfl
  refine ⟨?_, ?_, ?_, ?_, ?_, ?_, ?_⟩
  · rw [hreq]
    exact h.filed
  · rw [hturn]
    exact h.faulted
  · rw [hbuffer]
    exact h.incoming
  · rw [hbuffer]
    intro q hq mf hmf
    by_cases hp : fetchPage cfg mf ∈ ps
    · left
      by_contra hpending
      have hexpected : isExpected cfg g (fetchPage cfg mf) = true := by
        unfold isExpected
        rw [Bool.or_eq_true]
        right
        rw [List.any_eq_true]
        refine ⟨q, hq, ?_⟩
        rw [Bool.and_eq_true, List.any_eq_true]
        refine ⟨by simpa using hpending, mf, hmf, ?_⟩
        exact decide_eq_true rfl
      rw [hquiet _ hp] at hexpected
      cases hexpected
    · exact (h.outgoing q hq mf hmf).imp_right (hstays _ hp)
  · rw [hdirect, hdma]
    exact h.direct
  · rw [hreplayed, hdma]
    intro r hr
    rw [htaken]
    by_cases hp : fetchPage cfg r.1 ∈ ps
    · by_cases hd : r.1 ∈ g.m_dma
      · exact Or.inl hd
      · right
        left
        by_contra ht
        have hexpected : isExpected cfg g (fetchPage cfg r.1) = true := by
          unfold isExpected
          rw [Bool.or_eq_true]
          left
          rw [List.any_eq_true]
          refine ⟨r, hr, ?_⟩
          simp [fetchPage, hd, ht]
        rw [hquiet _ hp] at hexpected
        cases hexpected
    · exact (h.back r hr).imp_right (Or.imp_right (hstays _ hp))
  · intro sid p hp
    rw [hldst] at hp
    obtain ⟨hin, hnot⟩ := List.mem_filter.mp hp
    rcases h.entries sid p hin with hserved | hvalid
    · left
      refine servedDirectly_mono ?_ ?_ hserved
      · rw [hdma]
        exact List.Subset.refl _
      · rw [htaken]
        exact List.Subset.refl _
    · exact Or.inr (hstays p (of_decide_eq_true hnot) hvalid)

/-! ## The units -/

/-- An access that hits moves the entry of its page to the back. -/
theorem tlbHit (h : FetchPages cfg g) {sid : Nat} {a : MemAccess}
    (hin : cfg.get_page_num a.addr ∈ (g.ldst sid).tlb) : FetchPages cfg (tlbHit cfg g sid a) := by
  have hcheck := h.check_write_stage_queue (cfg.get_page_num a.addr)
  have hldst : (gpgpu_sim_uvm.check_write_stage_queue cfg g (cfg.get_page_num a.addr)).ldst =
      g.ldst := by
    rw [check_write_stage_queue_frame]
  rw [← hldst] at hin
  unfold gpgpu_sim_uvm.tlbHit
  generalize gpgpu_sim_uvm.check_write_stage_queue cfg g (cfg.get_page_num a.addr) = k at *
  have htaken : ∀ s, (setLdst k sid { k.ldst sid with
      tlb := refresh_tlb cfg (k.ldst sid).tlb (cfg.get_page_num a.addr)
      looked_up := (k.ldst sid).looked_up ++ [a] } s).taken = (k.ldst s).taken :=
    unit_same Ldst.taken rfl rfl
  have hvalid : ∀ p, (pageOf (markPage cfg k.m_data a) p).valid = is_valid k p :=
    fun p => (markPage_samePages cfg k.m_data a p).1
  refine ⟨hcheck.filed, hcheck.faulted, hcheck.incoming, ?_, hcheck.direct, ?_, ?_⟩
  · exact fun q hq mf hmf => (hcheck.outgoing q hq mf hmf).imp_right ((hvalid _).trans ·)
  · intro r hr
    refine (hcheck.back r hr).imp_right (Or.imp ?_ ((hvalid _).trans ·))
    exact fun ht => (htaken _).symm ▸ ht
  · intro s p hp
    have hold : p ∈ (k.ldst s).tlb := by
      by_cases hs : s = sid
      · subst hs
        have hp : p ∈ refresh_tlb cfg (k.ldst s).tlb (cfg.get_page_num a.addr) := by
          simpa only [refresh_valid_pages, useTlbEntry, setLdst_self] using hp
        rcases mem_refresh_tlb cfg hp with rfl | hp
        · exact hin
        · exact hp
      · simpa only [refresh_valid_pages, useTlbEntry, setLdst_ne k _ hs] using hp
    rcases hcheck.entries s p hold with hserved | hold
    · left
      refine servedDirectly_mono ?_ ?_ hserved
      · exact List.Subset.refl _
      · exact fun x hx => (htaken s).symm ▸ hx
    · exact Or.inr ((hvalid p).trans hold)

theorem access_cycle (h : FetchPages cfg g) (sid : Nat) :
    FetchPages cfg (access_cycle cfg g sid).1 := by
  have hmeet : ∀ a rest, FetchPages cfg (meetAccesses cfg g sid a rest) := by
    intro a rest
    refine h.same rfl rfl rfl rfl rfl rfl (fun p hp => ?_) fun _ => rfl
    exact ((meetAccesses_samePages cfg g sid a rest).is_valid p).trans hp
  have hnote : ∀ a rest, FetchPages cfg (noteAccess cfg (meetAccesses cfg g sid a rest) a rest) :=
    fun a rest => (hmeet a rest).same rfl rfl rfl rfl rfl rfl (fun _ => id) fun _ => rfl
  have hcase := access_cycle_cases cfg g sid
  generalize gpgpu_sim_uvm.access_cycle cfg g sid = s at hcase ⊢
  cases hcase with
  | idle => exact h
  | passes => exact hmeet _ _
  | hits _ _ _ _ hin => exact (hnote _ _).tlbHit hin
  | misses =>
    refine (hnote _ _).same rfl rfl rfl rfl rfl rfl (fun _ => id) ?_
    exact unit_same Ldst.translations (by rfl) (by rfl)

/-- A reply enters its page in the TLB. -/
theorem takeReply (h : FetchPages cfg g) {sid : Nat} {mf : MemFetch} (rest : List MemFetch)
    (p : Port) (hmf : mf ∈ g.m_dma ∨ is_valid g (fetchPage cfg mf) = true) :
    FetchPages cfg (takeReply cfg g sid mf rest p) := by
  have htaken : ∀ s, (g.ldst s).taken ⊆ ((useReply cfg g sid mf rest p).ldst s).taken := by
    intro s
    by_cases hs : s = sid
    · subst hs
      simp only [useReply, setLdst_self]
      exact List.subset_cons_self _ _
    · simp only [useReply, setLdst_ne g _ hs]
      exact List.Subset.refl _
  have hvalid : ∀ q, is_valid (useReply cfg g sid mf rest p) q = is_valid g q :=
    fun q => (markPage_samePages cfg g.m_data mf.access q).1
  unfold gpgpu_sim_uvm.takeReply refresh_valid_pages
  rw [releaseIf_frame]
  refine ⟨h.filed, h.faulted, h.incoming, ?_, h.direct, ?_, ?_⟩
  · exact fun q hq x hx => (h.outgoing q hq x hx).imp_right ((hvalid _).trans ·)
  · exact fun r hr => (h.back r hr).imp_right (Or.imp (htaken _ ·) ((hvalid _).trans ·))
  · intro s q hq
    have hold : q ∈ (g.ldst s).tlb →
        servedDirectly cfg (useReply cfg g sid mf rest p) s q = true ∨ is_valid g q = true :=
      fun hq => (h.entries s q hq).imp_left fun hserved =>
        servedDirectly_mono (g := g) (List.Subset.refl _) (htaken s) hserved
    refine Or.imp_right (hvalid q).trans ?_
    by_cases hs : s = sid
    · subst hs
      simp only [useReply, setLdst_self] at hq
      rcases mem_refresh_tlb cfg hq with rfl | hq
      · refine hmf.imp_left fun hdma => ?_
        unfold servedDirectly
        rw [List.any_eq_true]
        refine ⟨mf, ?_, decide_eq_true ⟨hdma, rfl⟩⟩
        simp only [useReply, setLdst_self]
        exact List.mem_cons_self
      · exact hold hq
    · simp only [useReply, setLdst_ne g _ hs] at hq
      exact hold hq

end FetchPages

/-! ## The replies -/

/-- The replies of a unit are its own, were pushed back, and are taken once. -/
def RepliesAreNew (g : Gpu) (sid : Nat) : Prop :=
  ∀ mf ∈ (g.ldst sid).m_gmmu_cu_queue,
    mf.sid = sid ∧ (∃ c, (mf, c) ∈ g.replayed) ∧ mf ∉ (g.ldst sid).taken

theorem repliesAreNew {g : Gpu} (hr : Reachable cfg g) (sid : Nat) : RepliesAreNew g sid := by
  intro mf hmf
  have hdelivered := congrArg (Multiset.count mf) ((ledger cfg hr).delivered.delivered sid)
  simp only [returning, Multiset.count_add, Multiset.coe_count] at hdelivered
  have hone := List.count_pos_iff.mpr hmf
  have hin : mf ∈ (replayedFetches g).filter (fun mf => mf.sid = sid) := by
    rw [← Multiset.count_pos]
    omega
  obtain ⟨hreplayed, hsid⟩ := Multiset.mem_filter.mp hin
  refine ⟨hsid, ?_, ?_⟩
  · obtain ⟨r, hr, rfl⟩ := List.mem_map.mp (Multiset.mem_coe.mp hreplayed)
    exact ⟨r.2, hr⟩
  · rw [← List.count_eq_zero]
    have hcount := count_walked cfg hr mf
    rw [Multiset.count_filter_of_pos (p := fun x : MemFetch => x.sid = sid) hsid] at hdelivered
    split at hcount <;> omega

theorem RepliesAreNew.valid {g : Gpu} {sid : Nat} (h : RepliesAreNew g sid)
    (hpages : FetchPages cfg g) {mf : MemFetch} (hmf : mf ∈ (g.ldst sid).m_gmmu_cu_queue) :
    mf ∈ g.m_dma ∨ is_valid g (fetchPage cfg mf) = true := by
  obtain ⟨hsid, ⟨c, hback⟩, hnot⟩ := h mf hmf
  rcases hpages.back (mf, c) hback with hdma | htaken | hvalid
  · exact Or.inl hdma
  · dsimp only at htaken
    rw [hsid] at htaken
    exact absurd htaken hnot
  · exact Or.inr hvalid

theorem RepliesAreNew.access_cycle {g : Gpu} {sid : Nat} (h : RepliesAreNew g sid) :
    RepliesAreNew (access_cycle cfg g sid).1 sid := by
  have hunit : ∀ {B : Type} (field : Ldst → B)
      (_ : ∀ u tlb as, field { u with tlb := tlb, looked_up := as } = field u)
      (_ : ∀ u w q m as, field { u with
        m_dispatch_reg := w, m_cu_gmmu_queue := q, managed_access := m, sent := as } = field u),
      field ((gpgpu_sim_uvm.access_cycle cfg g sid).1.ldst sid) = field (g.ldst sid) := by
    intro B field hhit hmiss
    have hcase := access_cycle_cases cfg g sid
    generalize gpgpu_sim_uvm.access_cycle cfg g sid = s at hcase ⊢
    cases hcase with
    | idle => rfl
    | passes => rfl
    | hits => exact tlbHit_unit cfg field hhit _ sid _ sid
    | misses =>
      simp only [tlbMiss, setLdst_self]
      exact hmiss _ _ _ _ _
  intro mf hmf
  rw [hunit Ldst.m_gmmu_cu_queue (fun _ _ _ => rfl) (fun _ _ _ _ _ => rfl)] at hmf
  rw [hunit Ldst.taken (fun _ _ _ => rfl) (fun _ _ _ _ _ => rfl), access_cycle_frame]
  exact h mf hmf

/-! ## Steps -/

section steps

variable {ok : Event → Bool} (hok : ∀ e, ok e = true → e.leavesQuietly = true)

include hok

/-- The pages of a list leave quietly where the watch goes on. -/
theorem leaves_quietly {g g' : Gpu} {ps : List Nat} (hw : Watched ok g')
    (hevent : .left_gpu (ps.any (isExpected cfg g)) ∈ g'.history) :
    ∀ p ∈ ps, isExpected cfg g p = false := by
  intro p hp
  have hquiet := hok _ (hw.events _ hevent)
  simp only [Event.leavesQuietly, Bool.not_eq_true', List.any_eq_false, Bool.not_eq_true] at hquiet
  exact hquiet p hp

theorem write_back_schedule_pagesFollow (g : Gpu) :
    monitor.Follows (Watched ok) (FetchPages cfg) g (write_back_schedule cfg g) := by
  refine (write_back_schedule_grows cfg g).follows fun h hw => ?_
  unfold write_back_schedule at hw ⊢
  split
  · rename_i hstage hlatency
    simp only [hstage, hlatency] at hw
    exact h.leave (leaves_quietly hok hw List.mem_cons_self) rfl rfl rfl rfl rfl rfl rfl rfl
  · exact h

theorem gmmu_cycle_pagesFollow (g : Gpu) :
    monitor.Follows (Watched ok) (FetchPages cfg) g (gmmu_cycle cfg g) := by
  apply gmmu_cycle_follows cfg
  · intro g
    refine (eviction_check_grows cfg g).unnoticed fun h => ?_
    rw [eviction_check_frame]
    exact h.same rfl rfl rfl rfl rfl rfl (fun _ => id) fun _ => rfl
  · intro g
    refine (write_back_done_grows cfg g).unnoticed fun h => ?_
    exact h.same rfl rfl rfl rfl rfl rfl (fun _ => id) fun _ => rfl
  · exact write_back_schedule_pagesFollow hok
  · exact fun g => (read_done_grows cfg g).unnoticed FetchPages.read_done
  · exact fun g => (read_schedule_grows cfg g).unnoticed FetchPages.read_schedule
  · exact fun g => (page_table_walk_grows cfg g).unnoticed FetchPages.page_table_walk
  · exact fun g => (do_hardware_prefetch_grows cfg g).unnoticed FetchPages.do_hardware_prefetch
  · intro g
    refine (fetch_from_clusters_grows cfg g).unnoticed fun h => ?_
    rw [fetch_from_clusters_frame]
    exact h.same rfl rfl rfl rfl rfl rfl (fun _ => id) fun _ => rfl
  · exact fun g => (user_prefetch_grows cfg g).unnoticed FetchPages.user_prefetch

omit hok in
theorem ldst_cycle_pages {g : Gpu} {sid : Nat} (h : FetchPages cfg g) (hnew : RepliesAreNew g sid)
    (p : Port) : FetchPages cfg (ldst_cycle cfg g sid p) := by
  have haccess := h.access_cycle sid
  have hreplies : RepliesAreNew (access_cycle cfg g sid).1 sid := hnew.access_cycle
  generalize hk : access_cycle cfg g sid = s at haccess hreplies
  have hmemory : FetchPages cfg (memory_cycle cfg s.1 sid p).1 := by
    have hcase := memory_cycle_cases cfg s.1 sid p
    generalize memory_cycle cfg s.1 sid p = t at hcase ⊢
    cases hcase with
    | drains =>
      unfold drainQueue
      rw [releaseIf_frame]
      refine haccess.same rfl rfl rfl rfl rfl rfl (fun _ => id) ?_
      exact unit_same Ldst.translations (by rfl) (by rfl)
    | waits => exact haccess
    | replies _ hreply =>
      apply haccess.takeReply
      apply hreplies.valid haccess
      rw [hreply]
      exact List.mem_cons_self
  have hretire : FetchPages cfg (retire (memory_cycle cfg s.1 sid p).1 sid) :=
    hmemory.same rfl rfl rfl rfl rfl rfl (fun _ => id)
      (unit_same Ldst.translations (by rfl) (by rfl))
  simp only [ldst_cycle, hk]
  split
  · split
    · exact hretire
    · exact hmemory
  · exact haccess

theorem perform_pagesFollow {g : Gpu} (hr : Reachable cfg g) (a : Action) :
    monitor.Follows (Watched ok) (FetchPages cfg) g (perform cfg g a) := by
  have hgrows := perform_grows cfg g a
  cases a with
  | gmmu_cycle => exact gmmu_cycle_pagesFollow hok g
  | ldst_cycle sid p => exact hgrows.unnoticed fun h => ldst_cycle_pages h (repliesAreNew hr sid) p
  | cudaMallocManaged cpu size =>
    refine hgrows.unnoticed fun h => h.same rfl rfl rfl rfl rfl rfl (fun p hp => ?_) fun _ => rfl
    exact (is_valid_cudaMallocManaged cfg g cpu size p).trans hp
  | cudaDeviceSynchronize =>
    refine hgrows.follows fun h hw => ?_
    exact h.leave (leaves_quietly hok hw List.mem_cons_self) rfl rfl rfl rfl rfl rfl rfl rfl
  | issue sid w bytes =>
    refine hgrows.unnoticed fun h => h.same rfl rfl rfl rfl rfl rfl (fun p hp => ?_) fun s => ?_
    · exact ((writeDevice_samePages cfg _ bytes).is_valid p).trans hp
    · exact unit_same Ldst.translations (by rfl) (by rfl) s
  | dispatch sid k =>
    refine hgrows.unnoticed fun h => h.same rfl rfl rfl rfl rfl rfl (fun _ => id) ?_
    exact unit_same Ldst.translations (by rfl) (by rfl)
  | do_atomic sid k bytes =>
    refine hgrows.unnoticed fun h => h.same rfl rfl rfl rfl rfl rfl (fun p hp => ?_) fun _ => rfl
    exact ((writeDevice_samePages cfg _ bytes).is_valid p).trans hp
  | icnt_cycle c =>
    have hunits := icnt_cycle_unit cfg Ldst.translations (fun _ _ => rfl) (fun _ _ => rfl) g c
    refine hgrows.unnoticed fun h => ?_
    simp only [perform]
    rw [icnt_cycle_frame]
    exact h.same rfl rfl rfl rfl rfl rfl (fun _ => id) hunits
  | answer sid k how =>
    have hunits := answer_unit cfg Ldst.translations (fun _ _ => rfl) g sid k how
    refine hgrows.unnoticed fun h => ?_
    simp only [perform]
    rw [answer_frame]
    exact h.same rfl rfl rfl rfl rfl rfl (fun _ => id) hunits
  | activate_prefetch addr cnt stream =>
    -- a request that becomes active keeps its fetches
    have hactive : ∀ qs : List PrefetchReq, ∀ q ∈ activateFirst addr cnt stream qs, ∃ q' ∈ qs,
        q.incoming_replayable_nacks = q'.incoming_replayable_nacks ∧
        q.outgoing_replayable_nacks = q'.outgoing_replayable_nacks ∧
        q.pending_prefetch = q'.pending_prefetch := by
      intro qs
      induction qs with
      | nil =>
        intro q hq
        cases hq
      | cons q0 qs ih =>
        intro q hq
        unfold activateFirst at hq
        split at hq
        · rcases List.mem_cons.mp hq with rfl | hq
          · exact ⟨q0, List.mem_cons_self, rfl, rfl, rfl⟩
          · exact ⟨q, List.mem_cons_of_mem _ hq, rfl, rfl, rfl⟩
        · rcases List.mem_cons.mp hq with rfl | hq
          · exact ⟨q, List.mem_cons_self, rfl, rfl, rfl⟩
          · obtain ⟨q', hq', hsame⟩ := ih q hq
            exact ⟨q', List.mem_cons_of_mem _ hq', hsame⟩
    refine hgrows.unnoticed fun h => ?_
    refine ⟨h.filed, h.faulted, ?_, ?_, h.direct, h.back, h.entries⟩
    · intro q hq
      obtain ⟨q', hq', hincoming, -, -⟩ := hactive _ q hq
      rw [hincoming]
      exact h.incoming q' hq'
    · intro q hq
      obtain ⟨q', hq', -, houtgoing, hpending⟩ := hactive _ q hq
      rw [houtgoing, hpending]
      exact h.outgoing q' hq'
  | cudaMemPrefetchAsync p n s =>
    refine hgrows.unnoticed fun h => ?_
    simp only [perform, cudaMemPrefetchAsync]
    split
    · exact h.same rfl rfl rfl rfl rfl rfl (fun _ => id) fun _ => rfl
    · refine ⟨h.filed, h.faulted, ?_, ?_, h.direct, h.back, h.entries⟩
      · intro q hq
        rcases List.mem_append.mp hq with hq | hq
        · exact h.incoming q hq
        · rw [List.mem_singleton.mp hq]
          exact StdMap.keyedBy_empty
      · intro q hq
        rcases List.mem_append.mp hq with hq | hq
        · exact h.outgoing q hq
        · rw [List.mem_singleton.mp hq]
          intro mf hmf
          cases hmf
  | cudaSetupArgument p =>
    refine hgrows.unnoticed fun h => ?_
    simp only [perform]
    rw [cudaSetupArgument_frame]
    exact h.same rfl rfl rfl rfl rfl rfl (fun _ => id) fun _ => rfl
  | cudaMalloc _ | host_write _ _ | log_kernel_start _ | log_kernel_finish _ | tick =>
    exact hgrows.unnoticed fun h => h.same rfl rfl rfl rfl rfl rfl (fun _ => id) fun _ => rfl

end steps

theorem fetchPages_boot : FetchPages cfg (boot cfg) := by
  refine ⟨StdMap.keyedBy_empty, StdMap.keyedBy_empty, ?_, ?_, ?_, ?_, ?_⟩
  · intro q hq
    cases hq
  · intro q hq
    cases hq
  · intro mf hmf
    cases hmf
  · intro r hr
    cases hr
  · intro sid p hp
    cases hp

/-- In every run in which no page leaves with a reply for it on its way, each
reply finds its page, or was served by DMA. -/
theorem fetchPages {ok : Event → Bool} (hok : ∀ e, ok e = true → e.leavesQuietly = true) {g : Gpu}
    (hr : Reachable cfg g) (hg : g.history.all ok = true) : FetchPages cfg g :=
  invariant_of_reachable_steps cfg (FetchPages cfg) fetchPages_boot
    (fun _ a hr _ => perform_pagesFollow hok hr a) hr hg

end gpgpu_sim_uvm
