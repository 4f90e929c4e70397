-- The law of the user prefetches. In every run whose steps meet the condition, the events of the
-- requests are those of a service that moves each missing page once, in order, to the end.
import GpgpuSimUvm.AllocationTiles
import GpgpuSimUvm.PrefetchServed

namespace gpgpu_sim_uvm

open monitor

variable {cfg : Config} {g g' : Gpu} {es : List PrefetchEvent}

/-! ## Cycles -/

theorem Serving.beforeRead (h : Serving cfg g es) : Serving cfg (beforeRead cfg g) es := by
  have hevict : Serving cfg (eviction_check cfg g) es := by
    rw [eviction_check_frame]
    exact h.same rfl rfl rfl rfl
  have hdone : Serving cfg (write_back_done cfg (eviction_check cfg g)) es :=
    hevict.same rfl rfl rfl rfl
  unfold gpgpu_sim_uvm.beforeRead
  rw [write_back_schedule_frame]
  exact hdone.same rfl rfl rfl rfl

theorem queuedPages_beforeRead (g : Gpu) : queuedPages (beforeRead cfg g) = queuedPages g := by
  have hevict : queuedPages (eviction_check cfg g) = queuedPages g := by
    rw [eviction_check_frame]
    rfl
  unfold beforeRead
  rw [write_back_schedule_frame]
  exact hevict

theorem Serving.gmmu_cycle (h : Serving cfg g es) (hhandles : Handles cfg g)
    (hok : servesPrefetches cfg g .gmmu_cycle = true) (hold : (queuedPages g).Nodup)
    (hnew : (queuedPages (gmmu_cycle cfg g)).Nodup) :
    Serving cfg (gmmu_cycle cfg g) (es ++ observe cfg g .gmmu_cycle) := by
  obtain ⟨hahead, htime⟩ := (Bool.and_eq_true _ _).mp hok
  have harrived := h.beforeRead.read_done (by rw [queuedPages_beforeRead]; exact hold)
  have hwalked := harrived.read_schedule.page_table_walk hahead
  have hclusters : Serving cfg (beforeUserPrefetch cfg g)
      (es ++ arrivalsOf (gpgpu_sim_uvm.beforeRead cfg g)
        (gpgpu_sim_uvm.read_done cfg (gpgpu_sim_uvm.beforeRead cfg g))) := by
    unfold beforeUserPrefetch
    dsimp only
    rw [fetch_from_clusters_frame]
    exact hwalked.do_hardware_prefetch.same rfl rfl rfl rfl
  rw [observe, ← List.append_assoc]
  exact hclusters.user_prefetch (fun q hq => requestOn_beforeUserPrefetch hhandles hq) htime hnew

/-! ## The other steps -/

/-- The host registers a request. -/
theorem Serving.register (h : Serving cfg g es) {q : PrefetchReq}
    (hbuffer : g'.prefetch_req_buffer = g.prefetch_req_buffer ++ [q]) (hq : q.Untouched)
    (hwaits : Waits cfg q) (hlost : g'.lost = g.lost)
    (hstage : g'.pcie_read_stage_queue = g.pcie_read_stage_queue)
    (hlatency : g'.pcie_read_latency_queue = g.pcie_read_latency_queue) :
    Serving cfg g' (es ++ [.registered q]) := by
  have hsince : since (es ++ [.registered q]) = since es ++ [.registered q] :=
    since_goes_on fun q0 hq0 => nomatch List.mem_singleton.mp hq0
  have hvisits : visitsOf (since (es ++ [.registered q])) = visitsOf (since es) := by
    rw [hsince]
    exact List.filterMap_append.trans (List.append_nil _)
  have hstaged : stagedOf (since (es ++ [.registered q])) = stagedOf (since es) := by
    rw [hsince]
    exact List.filterMap_append.trans (List.append_nil _)
  have hunder : underWay (es ++ [.registered q]) = underWay es := by
    rw [underWay_append]
    rfl
  refine ⟨?_, ?_, ?_, ?_, ?_, hlost.trans h.lost⟩
  · intro q1 hq1
    rw [hbuffer] at hq1
    cases hold : g.prefetch_req_buffer with
    | nil =>
      rw [hold] at hq1
      cases hq1
      obtain ⟨hnovisit, hnostage, hnone⟩ := h.none hold
      refine ⟨⟨?_, ?_, ?_⟩, ?_, fun hne => absurd hq.2 hne, fun _ => hq⟩
      · rw [hvisits, hnovisit, hq.1, pagesUpTo_self]
        rfl
      · rw [hvisits, hstaged, hnovisit, hnostage]
        rfl
      · rw [hstaged, hnostage]
        exact fun t ht => nomatch ht
      · rw [hunder, hnone, hq.2]
    | cons q0 rest =>
      rw [hold] at hq1
      cases hq1
      obtain ⟨hserved, hpending, hqueued, hinactive⟩ := h.front q1 (by rw [hold]; rfl)
      refine ⟨hserved.of_same rfl rfl rfl hvisits hstaged, hunder.trans hpending, ?_, hinactive⟩
      rw [hlatency, hstage]
      exact hqueued
  · intro hnil
    rw [hbuffer] at hnil
    cases (List.append_eq_nil_iff.mp hnil).2
  · rw [hbuffer]
    intro q1 hq1
    rw [List.tail_append] at hq1
    split at hq1
    · cases hq1
    · rcases List.mem_append.mp hq1 with hq1 | hq1
      · exact h.behind q1 hq1
      · rw [List.mem_singleton.mp hq1]
        exact hq
  · rw [hbuffer]
    intro q1 hq1
    rcases List.mem_append.mp hq1 with hq1 | hq1
    · exact h.requests q1 hq1
    · rw [List.mem_singleton.mp hq1]
      exact hwaits
  · rw [hbuffer]
    refine h.log.append ?_ ?_ rfl
    · intro pre q0 post heq
      cases (only_event heq).2
    · intro pre e post heq hwork
      rw [(only_event heq).2] at hwork
      cases hwork

/-- A new request is for whole pages. -/
theorem waits_wholePages {alloc off count stream : Nat} (halloc : cfg.page_size ∣ alloc)
    (hcount : 0 < count) :
    Waits cfg
      { start_addr := (alloc + off) / cfg.page_size * cfg.page_size
        cur_addr := (alloc + off) / cfg.page_size * cfg.page_size
        allocation_addr := alloc
        size := (alloc + off + count - 1) / cfg.page_size * cfg.page_size + cfg.page_size -
          (alloc + off) / cfg.page_size * cfg.page_size
        m_stream := stream } := by
  have hstart : cfg.page_size ∣ (alloc + off) / cfg.page_size * cfg.page_size :=
    Nat.dvd_mul_left _ _
  have hend : cfg.page_size ∣
      (alloc + off + count - 1) / cfg.page_size * cfg.page_size + cfg.page_size :=
    Nat.dvd_add (Nat.dvd_mul_left _ _) (Nat.dvd_refl _)
  have hle : (alloc + off) / cfg.page_size * cfg.page_size ≤
      (alloc + off + count - 1) / cfg.page_size * cfg.page_size :=
    Nat.mul_le_mul_right _ (Nat.div_le_div_right (by omega))
  have hpos := cfg.page_size_pos
  refine ⟨?_, ?_, halloc, ?_, fun p hp => by cases hp⟩
  · dsimp only
    omega
  · exact Nat.dvd_add hstart (Nat.dvd_sub hend hstart)
  · calc
      alloc = alloc / cfg.page_size * cfg.page_size := (Nat.div_mul_cancel halloc).symm
      _ ≤ (alloc + off) / cfg.page_size * cfg.page_size :=
        Nat.mul_le_mul_right _ (Nat.div_le_div_right (Nat.le_add_right alloc off))

theorem Serving.cudaMemPrefetchAsync (h : Serving cfg g es) {devPtr count stream : Nat}
    (hcount : 0 < count)
    (hblocks : ∀ e ∈ g.managedAllocations.map AllocationInfo.extent, MIN_PREFETCH_SIZE ∣ e.1)
    (hok : servesPrefetches cfg g (.cudaMemPrefetchAsync devPtr count stream) = true) :
    Serving cfg (cudaMemPrefetchAsync cfg g devPtr count stream)
      (es ++ observe cfg g (.cudaMemPrefetchAsync devPtr count stream)) := by
  unfold observe perform gpgpu_sim_uvm.cudaMemPrefetchAsync
  dsimp only
  split
  · simp only [List.drop_length, List.map_nil, List.append_nil]
    exact h.same rfl rfl rfl rfl
  · rename_i a hfind
    have ha := List.mem_of_find?_eq_some hfind
    have hin := List.find?_some hfind
    have halloc : cfg.page_size ∣ a.gpu_mem_addr := by
      rcases (Bool.or_eq_true _ _).mp hok with hsmall | hall
      · rw [of_decide_eq_true hsmall]
        exact four_k_dvd_of_block (hblocks a.extent (List.mem_map_of_mem ha))
      · have hpage := List.all_eq_true.mp hall a ha
        rw [hin, Bool.not_true, Bool.false_or] at hpage
        exact of_decide_eq_true hpage
    dsimp only
    rw [List.drop_left, List.map_singleton]
    exact h.register rfl ⟨rfl, rfl⟩ (waits_wholePages halloc hcount) rfl rfl rfl

theorem activateFirst_alike (addr cnt stream : Nat) (qs : List PrefetchReq) :
    List.Forall₂ PrefetchReq.Alike qs (activateFirst addr cnt stream qs) := by
  induction qs with
  | nil => exact .nil
  | cons q qs ih =>
    unfold activateFirst
    split
    · refine .cons ⟨rfl, rfl, rfl, fun hoff => by cases hoff⟩ ?_
      exact List.forall₂_same.mpr fun q _ => PrefetchReq.Alike.refl q
    · exact .cons (PrefetchReq.Alike.refl q) ih

theorem waits_activateFirst (addr cnt stream : Nat) {qs : List PrefetchReq}
    (h : ∀ q ∈ qs, Waits cfg q) : ∀ q ∈ activateFirst addr cnt stream qs, Waits cfg q := by
  induction qs with
  | nil => exact h
  | cons q qs ih =>
    obtain ⟨hq, hrest⟩ := List.forall_mem_cons.mp h
    unfold activateFirst
    split
    · refine List.forall_mem_cons.mpr ⟨?_, hrest⟩
      exact ⟨hq.some_pages, hq.whole, hq.allocation, hq.inside, hq.parked⟩
    · exact List.forall_mem_cons.mpr ⟨hq, ih hrest⟩

theorem Serving.activate_prefetch (h : Serving cfg g es) (addr cnt stream : Nat) :
    Serving cfg (activate_prefetch g addr cnt stream) es := by
  refine h.staged (activateFirst_alike addr cnt stream _) ?_ rfl rfl ⟨[], (List.append_nil _).symm⟩
  exact waits_activateFirst addr cnt stream h.requests

/-- A step outside of the GMMU that leaves the requests alone has no events. -/
theorem observe_quiet {a : Action} (ha : a ≠ .gmmu_cycle)
    (hlength : (perform cfg g a).prefetch_req_buffer.length = g.prefetch_req_buffer.length) :
    observe cfg g a = [] := by
  unfold observe
  split
  · exact absurd rfl ha
  · rw [← hlength, List.drop_length]
    rfl

theorem Serving.quiet (h : Serving cfg g es) {a : Action} (ha : a ≠ .gmmu_cycle)
    (hbuffer : (perform cfg g a).prefetch_req_buffer = g.prefetch_req_buffer)
    (hlost : (perform cfg g a).lost = g.lost)
    (hstage : (perform cfg g a).pcie_read_stage_queue = g.pcie_read_stage_queue)
    (hlatency : (perform cfg g a).pcie_read_latency_queue = g.pcie_read_latency_queue) :
    Serving cfg (perform cfg g a) (es ++ observe cfg g a) := by
  rw [observe_quiet ha (by rw [hbuffer]), List.append_nil]
  exact h.same hbuffer hlost hstage hlatency

/-- The other steps register requests, or do not concern them. -/
theorem Serving.perform (h : Serving cfg g es) {a : Action} (ha : a ≠ .gmmu_cycle)
    (hr : Reachable cfg g) (hen : enabled cfg g a = true) (hok : servesPrefetches cfg g a = true) :
    Serving cfg (perform cfg g a) (es ++ observe cfg g a) := by
  cases a with
  | gmmu_cycle => exact absurd rfl ha
  | cudaMemPrefetchAsync devPtr count stream =>
    exact h.cudaMemPrefetchAsync (of_decide_eq_true hen) (allocations_on_blocks hr) hok
  | activate_prefetch addr cnt stream =>
    rw [observe_quiet ha, List.append_nil]
    · exact h.activate_prefetch addr cnt stream
    · exact (activateFirst_alike addr cnt stream g.prefetch_req_buffer).length_eq.symm
  | ldst_cycle sid p =>
    apply h.quiet ha
    all_goals
      simp only [gpgpu_sim_uvm.perform]
      rw [ldst_cycle_frame]
  | icnt_cycle c =>
    apply h.quiet ha
    all_goals
      simp only [gpgpu_sim_uvm.perform]
      rw [icnt_cycle_frame]
  | answer sid k how =>
    apply h.quiet ha
    all_goals
      simp only [gpgpu_sim_uvm.perform]
      rw [answer_frame]
  | cudaSetupArgument p =>
    apply h.quiet ha
    all_goals
      simp only [gpgpu_sim_uvm.perform]
      rw [cudaSetupArgument_frame]
  | cudaMallocManaged _ _ | cudaMalloc _ | host_write _ _ | log_kernel_start _
  | log_kernel_finish _ | cudaDeviceSynchronize | issue _ _ _ | dispatch _ _ | do_atomic _ _ _
  | tick => exact h.quiet ha rfl rfl rfl rfl

/-! ## Runs -/

variable (cfg) in
/-- The events of a run. -/
def eventsOf (g : Gpu) : List Action → List PrefetchEvent
  | [] => []
  | a :: as => observe cfg g a ++ eventsOf (perform cfg g a) as

theorem logged_run {ok : Gpu → Action → Bool} (as : List Action) (h : Logged cfg ok g es)
    (hrun : runIf cfg ok g as = true) :
    ∃ g', run cfg g as = some g' ∧ Logged cfg ok g' (es ++ eventsOf cfg g as) := by
  induction as generalizing g es with
  | nil => exact ⟨g, rfl, (List.append_nil es).symm ▸ h⟩
  | cons a as ih =>
    rw [runIf, Bool.and_eq_true] at hrun
    cases hstep : step cfg g a with
    | none =>
      rw [hstep] at hrun
      cases hrun.2
    | some g' =>
      rw [hstep] at hrun
      obtain ⟨-, rfl, -⟩ := step_eq_some cfg hstep
      obtain ⟨g2, hg2, hlog⟩ := ih (h.step hrun.1 hstep) hrun.2
      refine ⟨g2, ?_, ?_⟩
      · rw [run, hstep]
        exact hg2
      · rw [eventsOf, ← List.append_assoc]
        exact hlog

theorem logged_stateAfter {ok : Gpu → Action → Bool} (as : List Action)
    (hrun : runIf cfg ok (boot cfg) as = true) :
    Logged cfg ok (stateAfter cfg as) (eventsOf cfg (boot cfg) as) := by
  obtain ⟨g', hg', hlog⟩ := logged_run as Logged.boot hrun
  rw [stateAfter, hg']
  exact hlog

/-- The block moves a page again that a fault has queued. -/
theorem a_faulting_page_is_moved_again :
    ¬ ∀ (cfg : Config) (g : Gpu) (es : List PrefetchEvent), Logged cfg (fun _ _ => true) g es →
      PrefetchesServed cfg g es ∧ MakesHeadway cfg g := by
  intro h
  have hlog : Logged smallConfig (fun _ _ => true) (stateAfter smallConfig prefetchOverFault)
      (eventsOf smallConfig (boot smallConfig) prefetchOverFault) :=
    logged_stateAfter prefetchOverFault (by decide +kernel)
  have hserved := (h smallConfig _ _ hlog).1
  obtain ⟨q, hq⟩ : ∃ q, (stateAfter smallConfig prefetchOverFault).prefetch_req_buffer.head? =
      some q := Option.isSome_iff_exists.mp (by decide +kernel)
  have hmoved := (hserved.front q hq).1.moved
  revert hmoved
  decide +kernel

end gpgpu_sim_uvm
