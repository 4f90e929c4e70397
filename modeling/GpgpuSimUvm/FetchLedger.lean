-- Where the fetches are. The GMMU holds the fetches that it took in six
-- containers until it replays them, and a replayed fetch is on its way back or
-- was taken by its unit. A fetch that is parked with a prefetch request when
-- the request is worked off is in none of them again.
import GpgpuSimUvm.FetchOrder
import Mathlib.Algebra.Order.Group.Multiset
import Mathlib.Algebra.BigOperators.Group.Multiset.Basic

namespace gpgpu_sim_uvm

open monitor

/-! ## The ledger -/

/-- The fetch of a direct access. -/
def directFetch (t : PcieLatency) : Option MemFetch := if t.type = .DMA then t.mf else none

/-- The fetches that wait with a prefetch request. -/
def PrefetchReq.parked (q : PrefetchReq) : Multiset MemFetch :=
  q.incoming_replayable_nacks.pooled + q.outgoing_replayable_nacks.pooled

def parkedWith (qs : List PrefetchReq) : Multiset MemFetch := (qs.map PrefetchReq.parked).sum

/-- The fetches of the containers of the GMMU. -/
def contained (g : Gpu) : Multiset MemFetch :=
  (g.page_table_walk_queue.map Prod.fst : List MemFetch) + g.req_info.pooled +
    parkedWith g.prefetch_req_buffer + (g.pcie_read_stage_queue.filterMap directFetch) +
    (g.pcie_read_latency_queue.toList.filterMap directFetch)

/-- The same with the faults of a turn, which are in none of them for a part of
the cycle. -/
def held (g : Gpu) : Multiset MemFetch := contained g + g.page_fault_this_turn.pooled

def replayedFetches (g : Gpu) : Multiset MemFetch := (g.replayed.map Prod.fst : List MemFetch)

/-- The fetches that the GMMU holds, and those that it gave away. -/
def accounted (g : Gpu) : Multiset MemFetch := held g + replayedFetches g + g.lost

/-- What a unit has of the fetches that come back. -/
def Ldst.replies (u : Ldst) : List MemFetch × List MemFetch := (u.m_gmmu_cu_queue, u.taken)

variable (cfg : Config)

/-- The replayed fetches of a core that it has not taken yet. -/
def returning (g : Gpu) (sid : Nat) : Multiset MemFetch :=
  (g.m_gmmu_cu_queue (sid / cfg.n_simt_cores_per_cluster) : Multiset MemFetch).filter
      (fun mf => mf.sid = sid) + (g.ldst sid).m_gmmu_cu_queue

/-- Every replayed fetch is on its way to its core, or its core took it. -/
structure Delivered (g : Gpu) : Prop where
  home : ∀ c, ∀ mf ∈ g.m_gmmu_cu_queue c, mf.sid / cfg.n_simt_cores_per_cluster = c
  delivered : ∀ sid, (replayedFetches g).filter (fun mf => mf.sid = sid) =
    returning cfg g sid + (g.ldst sid).taken
  cluster : ∀ r ∈ g.replayed, r.2 = r.1.sid / cfg.n_simt_cores_per_cluster

variable {cfg}

/-- A step that spares the queues on the way back. -/
theorem Delivered.same {g g' : Gpu} (h : Delivered cfg g) (hreplayed : g'.replayed = g.replayed)
    (hcluster : g'.m_gmmu_cu_queue = g.m_gmmu_cu_queue)
    (hunits : ∀ s, (g'.ldst s).replies = (g.ldst s).replies) : Delivered cfg g' := by
  refine ⟨?_, ?_, ?_⟩
  · rw [hcluster]
    exact h.home
  · intro sid
    have hunit := hunits sid
    simp only [Ldst.replies, Prod.mk.injEq] at hunit
    have hdelivered := h.delivered sid
    simp only [replayedFetches, returning, hreplayed, hcluster, hunit.1, hunit.2] at hdelivered ⊢
    exact hdelivered
  · rw [hreplayed]
    exact h.cluster

variable (cfg) in
/-- Fetches change hands within the GMMU, and on their way out of it. -/
structure HandsOn (g g' : Gpu) : Prop where
  walked : g'.walked = g.walked
  balance : accounted g' = accounted g
  delivered : Delivered cfg g → Delivered cfg g'

namespace HandsOn

theorem refl (g : Gpu) : HandsOn cfg g g := ⟨rfl, rfl, id⟩

theorem trans {a b c : Gpu} (h : HandsOn cfg a b) (h' : HandsOn cfg b c) : HandsOn cfg a c :=
  ⟨h'.walked.trans h.walked, h'.balance.trans h.balance, fun ha => h'.delivered (h.delivered ha)⟩

/-- A step within the GMMU. -/
theorem within {g g' : Gpu} (hwalked : g'.walked = g.walked) (hheld : held g' = held g)
    (hlost : g'.lost = g.lost) (hreplayed : g'.replayed = g.replayed)
    (hcluster : g'.m_gmmu_cu_queue = g.m_gmmu_cu_queue)
    (hunits : ∀ s, (g'.ldst s).replies = (g.ldst s).replies) : HandsOn cfg g g' := by
  refine ⟨hwalked, ?_, fun h => h.same hreplayed hcluster hunits⟩
  simp only [accounted, hheld, replayedFetches, hreplayed, hlost]

end HandsOn

/-! ## Replays -/

theorem Delivered.replay {g : Gpu} (h : Delivered cfg g) (mf : MemFetch) :
    Delivered cfg (replay cfg g mf) := by
  refine ⟨?_, ?_, ?_⟩
  · intro c x hx
    simp only [gpgpu_sim_uvm.replay] at hx
    split at hx
    · rename_i hc
      rcases List.mem_append.mp hx with hx | hx
      · exact h.home c x hx
      · rw [List.mem_singleton.mp hx, hc]
    · exact h.home c x hx
  · intro sid
    have hdelivered := h.delivered sid
    simp only [replayedFetches, returning] at hdelivered
    simp only [gpgpu_sim_uvm.replay, replayedFetches, returning, List.map_cons,
      ← Multiset.cons_coe]
    rw [Multiset.filter_cons, hdelivered]
    by_cases hs : mf.sid = sid
    · subst hs
      rw [if_pos rfl, if_pos rfl, ← Multiset.coe_add, Multiset.filter_add, Multiset.coe_singleton,
        Multiset.filter_singleton, if_pos rfl]
      abel
    · rw [if_neg hs, zero_add]
      split
      · rw [← Multiset.coe_add, Multiset.filter_add, Multiset.coe_singleton,
          Multiset.filter_singleton, if_neg hs]
        simp
      · rfl
  · intro r hr
    rcases List.mem_cons.mp hr with rfl | hr
    · rfl
    · exact h.cluster r hr

theorem Delivered.replays {g : Gpu} (h : Delivered cfg g) (mfs : List MemFetch) :
    Delivered cfg (mfs.foldl (gpgpu_sim_uvm.replay cfg) g) := by
  induction mfs generalizing g with
  | nil => exact h
  | cons mf mfs ih => exact ih (h.replay mf)

variable (cfg) in
theorem replayedFetches_replays (g : Gpu) (mfs : List MemFetch) :
    replayedFetches (mfs.foldl (replay cfg) g) = mfs + replayedFetches g := by
  induction mfs generalizing g with
  | nil => exact (zero_add _).symm
  | cons mf mfs ih =>
    have hone : replayedFetches (replay cfg g mf) = {mf} + replayedFetches g := by
      simp only [replay, replayedFetches, List.map_cons, ← Multiset.cons_coe,
        Multiset.singleton_add]
    rw [List.foldl_cons, ih, hone, ← Multiset.cons_coe, ← Multiset.singleton_add]
    abel

/-- Fetches that leave a container for their cores. -/
theorem HandsOn.replays {g g' : Gpu} (mfs : List MemFetch) (hwalked : g'.walked = g.walked)
    (hheld : held g' + mfs = held g) (hlost : g'.lost = g.lost)
    (hreplayed : g'.replayed = (mfs.foldl (replay cfg) g).replayed)
    (hcluster : g'.m_gmmu_cu_queue = (mfs.foldl (replay cfg) g).m_gmmu_cu_queue)
    (hunits : ∀ s, (g'.ldst s).replies = (g.ldst s).replies) : HandsOn cfg g g' := by
  refine ⟨hwalked, ?_, ?_⟩
  · have hall : replayedFetches g' = mfs + replayedFetches g := by
      rw [← replayedFetches_replays cfg, replayedFetches, hreplayed]
      rfl
    rw [accounted, accounted, ← hheld, hall, hlost]
    abel
  · intro h
    apply (h.replays mfs).same hreplayed hcluster
    intro s
    rw [hunits, replay_foldl_frame]

theorem HandsOn.foldl {A : Type} {f : Gpu → A → Gpu} (hf : ∀ g a, HandsOn cfg g (f g a))
    (as : List A) (g : Gpu) : HandsOn cfg g (as.foldl f g) := by
  induction as generalizing g with
  | nil => exact HandsOn.refl g
  | cons a as ih => exact (hf g a).trans (ih (f g a))

variable (cfg)

/-! ## The read queues -/

/-- What `read_schedule` picks, and what it leaves, is the queue. -/
theorem pick_perm {A : Type} (p : A → Bool) (a : A) (as : List A) :
    ((((a :: as).find? p).getD a) ::
      if (a :: as).any p then (a :: as).eraseP p else as).Perm (a :: as) := by
  cases hfind : (a :: as).find? p with
  | none =>
    have hany : (a :: as).any p = false := by simpa using List.find?_eq_none.mp hfind
    rw [hany]
    exact List.Perm.refl _
  | some x =>
    obtain ⟨hx, before, after, hsplit, hbefore⟩ := List.find?_eq_some_iff_append.mp hfind
    have hany : (a :: as).any p = true :=
      List.any_eq_true.mpr ⟨x, List.mem_of_find?_eq_some hfind, hx⟩
    have herase : (before ++ x :: after).eraseP p = before ++ after := by
      rw [List.eraseP_append_right _ (fun b hb => by simpa using hbefore b hb),
        List.eraseP_cons_of_pos hx]
    rw [hany, hsplit, if_pos rfl, herase]
    exact List.perm_middle.symm

theorem read_schedule_handsOn (g : Gpu) : HandsOn cfg g (read_schedule cfg g) := by
  have hheld : held (read_schedule cfg g) = held g := by
    unfold read_schedule
    split
    · rename_i front rest hstage hlatency
      split
      · have hpick := (pick_perm (fun t : PcieLatency => decide (t.type = .DMA)) front
          rest).filterMap directFetch
        have hstart : ∀ t, directFetch (startRead cfg g t) = directFetch t := by
          intro t
          unfold startRead directFetch
          split <;> simp_all
        rw [← Multiset.coe_eq_coe] at hpick
        simp only [held, contained, hstage, hlatency, Option.toList_some, Option.toList_none,
          List.filterMap_nil, ← hpick]
        rw [List.filterMap_cons, List.filterMap_cons, hstart]
        cases directFetch (((front :: rest).find? fun t => decide (t.type = .DMA)).getD front) with
        | none => simp
        | some mf =>
          simp only [List.filterMap_nil, ← Multiset.cons_coe, ← Multiset.singleton_add,
            Multiset.coe_nil]
          abel
      · rfl
    · rfl
  rw [read_schedule_frame] at hheld ⊢
  exact .within rfl hheld rfl rfl rfl fun _ => rfl

theorem completePrefetched_handsOn (g : Gpu) (p : Nat) :
    HandsOn cfg g (completePrefetched g p) := by
  have hheld : held (completePrefetched g p) = held g := by
    unfold completePrefetched
    split
    · rfl
    · rename_i q rest hbuffer
      split
      · have herase := StdMap.pooled_erase g.req_info p
        have hput := StdMap.pooled_append q.outgoing_replayable_nacks p (g.req_info.findD p [])
        rw [← Multiset.coe_eq_coe] at herase hput
        rw [← Multiset.coe_add] at herase hput
        simp only [held, contained, hbuffer, parkedWith, List.map_cons, List.sum_cons, PrefetchReq.parked,
          hput, ← herase]
        abel
      · rfl
  rw [completePrefetched_frame] at hheld ⊢
  exact .within rfl hheld rfl rfl rfl fun _ => rfl

theorem completeFaulted_handsOn (g : Gpu) (p : Nat) : HandsOn cfg g (completeFaulted cfg g p) := by
  have hreq : ((g.req_info.findD p []).foldl (replay cfg) g).req_info = g.req_info := by
    rw [replay_foldl_frame]
  have hheld : held (completeFaulted cfg g p) + (g.req_info.findD p [] : List MemFetch) =
      held g := by
    have herase := StdMap.pooled_erase g.req_info p
    rw [← Multiset.coe_eq_coe, ← Multiset.coe_add] at herase
    unfold completeFaulted
    rw [replay_foldl_frame]
    simp only [held, contained, ← herase]
    abel
  apply HandsOn.replays _ _ hheld
  · unfold completeFaulted
    rw [replay_foldl_frame]
  · rfl
  · rfl
  · intro s
    unfold completeFaulted
    rw [replay_foldl_frame]
  · unfold completeFaulted
    rw [replay_foldl_frame]

theorem completePage_handsOn (g : Gpu) (p : Nat) : HandsOn cfg g (completePage cfg g p) := by
  have hpage : HandsOn cfg g (admitPage cfg g p) := .within rfl rfl rfl rfl rfl fun _ => rfl
  exact (hpage.trans (completePrefetched_handsOn cfg _ p)).trans (completeFaulted_handsOn cfg _ p)

theorem read_done_handsOn (g : Gpu) : HandsOn cfg g (read_done cfg g) := by
  unfold read_done
  split
  · exact HandsOn.refl g
  · rename_i t ht
    split
    · -- the transfer leaves its queue, and only a direct access has a fetch with it
      have hempty : ∀ g' : Gpu, g'.pcie_read_latency_queue = some t → t.type ≠ .DMA →
          HandsOn cfg g' { g' with pcie_read_latency_queue := none } := by
        intro g' hg' hdma
        refine .within rfl ?_ rfl rfl rfl fun _ => rfl
        simp [held, contained, hg', directFetch, hdma]
      unfold finishRead
      split
      · rename_i htype
        have hpages := HandsOn.foldl (completePage_handsOn cfg) t.page_list g
        refine hpages.trans (hempty _ ?_ (by simp [htype]))
        have hkeep : ∀ g' p, (completePage cfg g' p).pcie_read_latency_queue =
            g'.pcie_read_latency_queue := by
          intro g' p
          rw [completePage_frame]
        induction t.page_list using List.reverseRecOn with
        | nil => exact ht
        | append_singleton ps p ih =>
          rw [List.foldl_append, List.foldl_cons, List.foldl_nil, hkeep]
          exact ih
      · rename_i htype
        cases hmf : t.mf with
        | none =>
          refine .within rfl ?_ rfl rfl rfl fun _ => rfl
          simp [held, contained, ht, directFetch, htype, hmf]
        | some mf =>
          refine HandsOn.replays [mf] rfl ?_ rfl rfl rfl fun _ => rfl
          simp only [held, contained, replay, ht, directFetch, htype, hmf, Option.toList_some,
            Option.toList_none, List.filterMap_cons, List.filterMap_nil, if_true,
            Option.elim_some, Multiset.coe_nil]
          abel
      · rename_i hread hdma
        exact hempty g ht hdma
    · exact HandsOn.refl g

/-! ## The page table walk -/

theorem parkedWith_parkFetch (mf : MemFetch) (p : Nat) {qs : List PrefetchReq}
    (h : qs.any (fun q => q.covers mf.access.addr) = true) :
    parkedWith (parkFetch mf p qs) = {mf} + parkedWith qs := by
  induction qs with
  | nil => cases h
  | cons q qs ih =>
    unfold parkFetch
    split
    · have hput := StdMap.pooled_append q.incoming_replayable_nacks p [mf]
      rw [← Multiset.coe_eq_coe, ← Multiset.coe_add, Multiset.coe_singleton] at hput
      simp only [parkedWith, List.map_cons, List.sum_cons, PrefetchReq.parked, hput]
      abel
    · rename_i hq
      have hqs : qs.any (fun q => q.covers mf.access.addr) = true := by
        simpa [hq] using h
      have ih := ih hqs
      simp only [parkedWith, List.map_cons, List.sum_cons] at ih ⊢
      rw [ih]
      abel

/-- A fetch that faults joins one container. -/
theorem held_fileFetch (g : Gpu) (mf : MemFetch) (p : Nat) :
    held (fileFetch cfg g mf p) = {mf} + held g := by
  unfold fileFetch
  split
  · have hput := StdMap.pooled_append g.req_info p [mf]
    rw [← Multiset.coe_eq_coe, ← Multiset.coe_add, Multiset.coe_singleton] at hput
    simp only [held, contained, hput]
    abel
  · split
    · rename_i hcovers
      simp only [held, contained, parkedWith_parkFetch mf p hcovers]
      abel
    · by_cases hmigrate : should_cause_page_migration cfg g mf.access.addr
          (decide (mf.access.type = .GLOBAL_ACC_W)) = true
      · have hput := StdMap.pooled_append g.page_fault_this_turn p [mf]
        rw [← Multiset.coe_eq_coe, ← Multiset.coe_add, Multiset.coe_singleton] at hput
        simp only [newFault, hmigrate, if_true, held, contained, hput]
        abel
      · have hdirect : directFetch { mf := some mf, type := .DMA } = some mf := rfl
        simp only [newFault, hmigrate, held, contained, Bool.false_eq_true, if_false]
        rw [List.filterMap_append, List.filterMap_cons_some hdirect, ← Multiset.coe_add,
          List.filterMap_nil, Multiset.coe_singleton]
        abel

/-- The walk of the fetch in front. -/
theorem walkFetch_handsOn (g : Gpu) {e : MemFetch × Nat} {rest : List (MemFetch × Nat)}
    (hq : g.page_table_walk_queue = e :: rest) :
    HandsOn cfg g (walkFetch cfg g e.1) ∧ (walkFetch cfg g e.1).page_table_walk_queue = rest := by
  have hpop : held (popWalk cfg g e.1) + {e.1} = held g := by
    simp only [held, contained, popWalk, hq, List.tail_cons, List.map_cons, ← Multiset.cons_coe,
      ← Multiset.singleton_add]
    abel
  unfold walkFetch
  split
  · refine ⟨HandsOn.replays [e.1] ?_ ?_ ?_ ?_ ?_ ?_, ?_⟩
    · rw [check_write_stage_queue_frame]
      rfl
    · rw [check_write_stage_queue_frame]
      exact hpop
    · rw [check_write_stage_queue_frame]
      rfl
    · rw [check_write_stage_queue_frame]
      rfl
    · rw [check_write_stage_queue_frame]
      rfl
    · intro s
      rw [check_write_stage_queue_frame]
      rfl
    · rw [check_write_stage_queue_frame]
      simp only [replay, popWalk, hq, List.tail_cons]
  · rename_i page _ _
    have hheld := held_fileFetch cfg (popWalk cfg g e.1) e.1 page
    rw [add_comm, hpop] at hheld
    have hqueue : (fileFetch cfg (popWalk cfg g e.1) e.1 page).page_table_walk_queue = rest := by
      rw [fileFetch_frame]
      simp only [popWalk, hq, List.tail_cons]
    rw [fileFetch_frame] at hheld hqueue ⊢
    exact ⟨.within rfl hheld rfl rfl rfl fun _ => rfl, hqueue⟩

theorem page_table_walk_handsOn (g : Gpu) : HandsOn cfg g (page_table_walk cfg g) := by
  -- the fetches that are walked are those in front of the queue
  have hwalks : ∀ (es rest : List (MemFetch × Nat)) (g : Gpu),
      g.page_table_walk_queue = es ++ rest →
      HandsOn cfg g ((es.map Prod.fst).foldl (walkFetch cfg) g) := by
    intro es rest
    induction es with
    | nil => exact fun g _ => HandsOn.refl g
    | cons e es ih =>
      intro g hq
      obtain ⟨hfirst, hqueue⟩ := walkFetch_handsOn cfg g hq
      exact hfirst.trans (ih _ hqueue)
  exact hwalks _ _ g (List.takeWhile_append_dropWhile).symm

/-! ## The producers -/

theorem splitTransfer_direct (ps cur faulty : List Nat) :
    (splitTransfer cfg ps cur faulty).filterMap directFetch = [] := by
  have hflush : ∀ run, (flushRun cfg run).filterMap directFetch = [] := by
    intro run
    unfold flushRun
    split <;> rfl
  induction ps generalizing cur faulty with
  | nil => exact hflush cur
  | cons p ps ih =>
    simp only [splitTransfer]
    split
    · simp only [List.filterMap_append, List.filterMap_cons, ih]
      split <;> split <;> simp [hflush, directFetch, migration]
    · simp only [List.filterMap_append, ih]
      split <;> simp [hflush]

/-- The faults of a turn go to entries of the MSHR that have none yet. -/
theorem pooled_fileFaults (es : List (Nat × List MemFetch)) (g : Gpu)
    (hruns : (es.foldl fileFault g).aborted = false) :
    ((es.foldl fileFault g).req_info.pooled : Multiset MemFetch) =
      ((es.map Prod.snd).flatten : List MemFetch) + g.req_info.pooled := by
  induction es generalizing g with
  | nil => exact (zero_add _).symm
  | cons e es ih =>
    have hfirst : (fileFault g e).aborted = false :=
      (Grows.foldl fileFault_grows es (fileFault g e)).aborted hruns
    simp only [fileFault, Bool.or_eq_false_iff, decide_eq_false_iff_not, not_not] at hfirst
    have hput := StdMap.pooled_put g.req_info e.1 e.2 hfirst.2
    rw [← Multiset.coe_eq_coe, ← Multiset.coe_add] at hput
    rw [List.foldl_cons, ih _ hruns]
    simp only [fileFault, hput, List.map_cons, List.flatten_cons, ← Multiset.coe_add]
    abel

theorem pooled_touched (temp : List Nat) (m : StdMap Nat (List MemFetch)) :
    (temp.foldl (fun m p => m.alter p [] id) m).pooled = m.pooled := by
  induction temp generalizing m with
  | nil => rfl
  | cons p temp ih => exact (ih _).trans (StdMap.pooled_touch m p)

theorem transfers_direct (ts : List (List Nat × List Nat)) :
    (ts.flatMap fun t => splitTransfer cfg t.1 [] t.2).filterMap directFetch = [] := by
  induction ts with
  | nil => rfl
  | cons t ts ih =>
    rw [List.flatMap_cons, List.filterMap_append, splitTransfer_direct, ih]
    rfl

/-- The faults of a turn go to the MSHR, all of them. -/
theorem held_stageTurn (g : Gpu) (turn : Turn) (hruns : (stageTurn cfg g turn).aborted = false) :
    held { stageTurn cfg g turn with page_fault_this_turn := .empty } = held g := by
  have hfaults := pooled_fileFaults _ _ hruns
  change ((stageTurn cfg g turn).req_info.pooled : Multiset MemFetch) = _ at hfaults
  have hstage : (stageTurn cfg g turn).pcie_read_stage_queue.filterMap directFetch =
      g.pcie_read_stage_queue.filterMap directFetch := by
    unfold stageTurn
    rw [fileFaults_frame]
    rw [List.filterMap_append, transfers_direct, List.append_nil]
  rw [stageTurn_frame] at hfaults hstage ⊢
  simp only [held, contained, hfaults, hstage, pooled_touched, StdMap.pooled_empty, Multiset.coe_nil]
  change _ + ((g.page_fault_this_turn.pooled : Multiset MemFetch) + _) + _ + _ + _ + _ = _
  abel

theorem do_hardware_prefetch_handsOn (g : Gpu)
    (hruns : (do_hardware_prefetch cfg g).aborted = false) :
    HandsOn cfg g (do_hardware_prefetch cfg g) := by
  have hheld : held (do_hardware_prefetch cfg g) = held g := by
    simp only [do_hardware_prefetch] at hruns ⊢
    split
    · rfl
    · rename_i hsome
      rw [if_neg hsome] at hruns
      have hbefore := (noteOversubscription_grows cfg _ _).aborted hruns
      have hstage := held_stageTurn cfg (chooseMigrations cfg g).1 (chooseMigrations cfg g).2 hbefore
      rw [noteOversubscription_frame]
      refine Eq.trans hstage ?_
      rw [chooseMigrations_frame]
      rfl
  rw [do_hardware_prefetch_frame] at hheld ⊢
  exact .within rfl hheld rfl rfl rfl fun _ => rfl

/-! ## The user prefetch -/

theorem parked_takePage (g : Gpu) (q : PrefetchReq) (p : Nat) :
    (takePage g q p).2.parked = q.parked := by
  have herase := StdMap.pooled_erase q.incoming_replayable_nacks p
  have hput := StdMap.pooled_append q.outgoing_replayable_nacks p
    (q.incoming_replayable_nacks.findD p [])
  rw [← Multiset.coe_eq_coe, ← Multiset.coe_add] at herase hput
  simp only [takePage, PrefetchReq.parked]
  split
  · rw [hput, ← herase]
    abel
  · rename_i hnone
    rw [StdMap.findD_of_not_contains q.incoming_replayable_nacks [] (by simpa using hnone)] at herase
    rw [← herase]
    simp

/-- A chunk moves its fetches from one map of the request to the other. -/
theorem held_selectChunk (n : Nat) (g : Gpu) (q : PrefetchReq) :
    (selectChunk cfg n g q).2.parked = q.parked ∧
      (selectChunk cfg n g q).1.req_info.pooled = g.req_info.pooled := by
  induction n generalizing g q with
  | zero => exact ⟨rfl, rfl⟩
  | succ n ih =>
    simp only [selectChunk]
    split_ifs
    · rw [check_write_stage_queue_frame]
      exact ⟨rfl, rfl⟩
    · obtain ⟨hparked, hreq⟩ := ih (check_write_stage_queue cfg
        (g.require (is_mapped g (cfg.get_page_num q.cur_addr))) (cfg.get_page_num q.cur_addr))
        { q with cur_addr := q.cur_addr + cfg.page_size }
      refine ⟨hparked, hreq.trans ?_⟩
      rw [check_write_stage_queue_frame]
      rfl
    · rw [check_write_stage_queue_frame]
      exact ⟨rfl, rfl⟩
    · have htake := parked_takePage (g.require (is_mapped g (cfg.get_page_num q.cur_addr)))
        { q with cur_addr := q.cur_addr + cfg.page_size } (cfg.get_page_num q.cur_addr)
      obtain ⟨hparked, hreq⟩ := ih (takePage (g.require (is_mapped g (cfg.get_page_num q.cur_addr)))
        { q with cur_addr := q.cur_addr + cfg.page_size } (cfg.get_page_num q.cur_addr)).1
        (takePage (g.require (is_mapped g (cfg.get_page_num q.cur_addr)))
          { q with cur_addr := q.cur_addr + cfg.page_size } (cfg.get_page_num q.cur_addr)).2
      exact ⟨hparked.trans htake, hreq.trans (StdMap.pooled_touch _ _)⟩
    · exact ⟨parked_takePage _ _ _, StdMap.pooled_touch _ _⟩

/-- The fetches of the last chunk leave the request. -/
theorem replayChunk_handsOn (g : Gpu) {q : PrefetchReq} {rest : List PrefetchReq}
    (hq : g.prefetch_req_buffer = q :: rest) :
    HandsOn cfg g { (replayChunk cfg g q).1 with
      prefetch_req_buffer := (replayChunk cfg g q).2 :: rest } := by
  unfold replayChunk
  split
  · apply HandsOn.replays q.outgoing_replayable_nacks.pooled
    · simp only
      rw [replay_foldl_frame]
    · rw [replay_foldl_frame]
      simp only [held, contained, hq, parkedWith, List.map_cons, List.sum_cons, PrefetchReq.parked,
        StdMap.pooled_empty, Multiset.coe_nil]
      abel
    · simp only
      rw [replay_foldl_frame]
    · rfl
    · rfl
    · intro s
      simp only
      rw [replay_foldl_frame]
  · refine .within rfl ?_ rfl rfl rfl fun _ => rfl
    simp only [held, contained, hq]

theorem user_prefetch_handsOn (g : Gpu) : HandsOn cfg g (user_prefetch cfg g) := by
  unfold user_prefetch
  split
  · exact HandsOn.refl g
  · rename_i q rest hq
    split
    · refine (replayChunk_handsOn cfg g hq).trans ?_
      generalize replayChunk cfg g q = s
      dsimp only
      split
      · -- the request goes, and what waits with it is lost
        refine ⟨rfl, ?_, fun h => h.same rfl rfl fun _ => rfl⟩
        simp only [accounted, finishPrefetch, held, contained, parkedWith, List.map_cons, List.sum_cons,
          PrefetchReq.parked, replayedFetches, ← Multiset.coe_add]
        abel
      · obtain ⟨hparked, hreq⟩ := held_selectChunk cfg (pages_left cfg s.2) s.1 s.2
        have hframe := selectChunk_frame cfg (pages_left cfg s.2) s.1 s.2
        generalize selectChunk cfg (pages_left cfg s.2) s.1 s.2 = c at *
        have hchunk : ∀ pages, (chunkTransfer cfg pages).filterMap directFetch = [] := by
          intro pages
          unfold chunkTransfer
          split <;> rfl
        unfold stageChunk
        rw [hframe]
        refine .within rfl ?_ rfl rfl rfl fun _ => rfl
        simp only [held, contained, parkedWith, List.map_cons, List.sum_cons, hparked, hreq,
          List.filterMap_append, hchunk, List.append_nil]
    · exact HandsOn.refl g

/-! ## Cycles -/

/-- What the GMMU took, it holds or gave away, and what it gave away has come
to a core or is on its way. -/
structure Ledger (g : Gpu) : Prop where
  balance : (g.walked : Multiset MemFetch) = accounted g
  delivered : Delivered cfg g

variable {cfg} in
theorem Ledger.handsOn {g g' : Gpu} (h : Ledger cfg g) (hstep : HandsOn cfg g g') :
    Ledger cfg g' :=
  ⟨by rw [hstep.walked, hstep.balance, h.balance], hstep.delivered h.delivered⟩

variable {cfg} in
theorem Ledger.fetchFrom {g : Gpu} (h : Ledger cfg g) (c : Nat) :
    Ledger cfg (fetchFrom cfg g c) := by
  cases hq : g.m_cu_gmmu_queue c with
  | nil =>
    have hsame : gpgpu_sim_uvm.fetchFrom cfg g c = g := by simp only [gpgpu_sim_uvm.fetchFrom, hq]
    rw [hsame]
    exact h
  | cons mf rest =>
    rw [fetchFrom_cons hq]
    refine ⟨?_, h.delivered.same rfl rfl fun _ => rfl⟩
    have hbalance := h.balance
    simp only [accounted, held, contained, replayedFetches] at hbalance
    simp only [accounted, held, contained, replayedFetches, List.map_append, List.map_cons, List.map_nil,
      ← Multiset.cons_coe, ← Multiset.coe_add, hbalance, Multiset.coe_nil, ← Multiset.singleton_add]
    abel

variable {cfg} in
/-- A step that spares the GMMU and the queues on the way back. -/
theorem Ledger.same {g g' : Gpu} (h : Ledger cfg g) (hwalked : g'.walked = g.walked)
    (hheld : held g' = held g) (hlost : g'.lost = g.lost) (hreplayed : g'.replayed = g.replayed)
    (hcluster : g'.m_gmmu_cu_queue = g.m_gmmu_cu_queue)
    (hunits : ∀ s, (g'.ldst s).replies = (g.ldst s).replies) : Ledger cfg g' :=
  h.handsOn (.within hwalked hheld hlost hreplayed hcluster hunits)

/-- Nothing but an assertion that fails can hurt the ledger. -/
def anyEvent (_ : Event) : Bool := true

theorem gmmu_cycle_ledger (g : Gpu) :
    monitor.Follows (Watched anyEvent) (Ledger cfg) g (gmmu_cycle cfg g) := by
  apply gmmu_cycle_follows cfg
  · intro g
    refine (eviction_check_grows cfg g).unnoticed fun h => ?_
    rw [eviction_check_frame]
    exact h.same rfl rfl rfl rfl rfl fun _ => rfl
  · intro g
    exact (write_back_done_grows cfg g).unnoticed fun h => h.same rfl rfl rfl rfl rfl fun _ => rfl
  · intro g
    refine (write_back_schedule_grows cfg g).unnoticed fun h => ?_
    have hunits : ∀ s, ((write_back_schedule cfg g).ldst s).replies = (g.ldst s).replies := by
      intro s
      unfold write_back_schedule
      split <;> rfl
    rw [write_back_schedule_frame]
    exact h.same rfl rfl rfl rfl rfl hunits
  · intro g
    exact (read_done_grows cfg g).unnoticed fun h => h.handsOn (read_done_handsOn cfg g)
  · intro g
    exact (read_schedule_grows cfg g).unnoticed fun h => h.handsOn (read_schedule_handsOn cfg g)
  · intro g
    exact (page_table_walk_grows cfg g).unnoticed fun h => h.handsOn (page_table_walk_handsOn cfg g)
  · intro g
    refine (do_hardware_prefetch_grows cfg g).follows fun h hw => ?_
    exact h.handsOn (do_hardware_prefetch_handsOn cfg g hw.runs)
  · intro g
    refine (fetch_from_clusters_grows cfg g).unnoticed fun h => ?_
    exact foldl_keeps (fun c _ _ hk => hk.fetchFrom c) h
  · intro g
    exact (user_prefetch_grows cfg g).unnoticed fun h => h.handsOn (user_prefetch_handsOn cfg g)

variable {cfg} in
theorem Ledger.cluster_reply {g : Gpu} (h : Ledger cfg g) (c : Nat) :
    Ledger cfg (cluster_reply g c) := by
  cases hq : g.m_gmmu_cu_queue c with
  | nil =>
    have hsame : gpgpu_sim_uvm.cluster_reply g c = g := by
      simp only [gpgpu_sim_uvm.cluster_reply, hq]
    rw [hsame]
    exact h
  | cons mf rest =>
    have hmf : mf.sid / cfg.n_simt_cores_per_cluster = c :=
      h.delivered.home c mf (by rw [hq]; exact List.mem_cons_self)
    simp only [gpgpu_sim_uvm.cluster_reply, hq]
    refine ⟨h.balance, ?_, ?_, h.delivered.cluster⟩
    · intro d x hx
      dsimp only at hx
      split at hx
      · rename_i hd
        subst hd
        exact h.delivered.home d x (by rw [hq]; exact List.mem_cons_of_mem _ hx)
      · exact h.delivered.home d x hx
    · intro sid
      have hdelivered := h.delivered.delivered sid
      simp only [returning, replayedFetches] at hdelivered ⊢
      rw [hdelivered]
      by_cases hs : sid = mf.sid
      · subst hs
        simp only [hmf, setLdst_self, if_true, hq, ← Multiset.cons_coe, ← Multiset.coe_add,
          Multiset.coe_nil]
        rw [Multiset.filter_cons, if_pos rfl]
        simp only [← Multiset.singleton_add, add_zero]
        abel
      · rw [setLdst_ne g _ hs]
        split
        · rename_i hc
          rw [hc, hq, ← Multiset.cons_coe, Multiset.filter_cons, if_neg (Ne.symm hs), zero_add]
        · rfl

theorem icnt_cycle_ledger {g : Gpu} (h : Ledger cfg g) (c : Nat) :
    Ledger cfg (icnt_cycle cfg g c) := by
  refine foldl_keeps (fun sid _ g hg => ?_) (h.cluster_reply c)
  have hunits : ∀ s, ((core_request c g sid).ldst s).replies = (g.ldst s).replies := by
    intro s
    unfold core_request
    split
    · rfl
    · exact unit_same Ldst.replies (by rfl) (by rfl) s
  rw [core_request_frame]
  exact hg.same rfl rfl rfl rfl rfl hunits

/-- A unit that takes a reply has it from then on. -/
theorem takeReply_ledger {g : Gpu} (h : Ledger cfg g) {sid : Nat} {mf : MemFetch}
    {rest : List MemFetch} (hreply : (g.ldst sid).m_gmmu_cu_queue = mf :: rest) (p : Port) :
    Ledger cfg (takeReply cfg g sid mf rest p) := by
  unfold takeReply refresh_valid_pages
  rw [releaseIf_frame]
  refine ⟨h.balance, h.delivered.home, ?_, h.delivered.cluster⟩
  intro s
  have hdelivered := h.delivered.delivered s
  simp only [returning, replayedFetches, useReply] at hdelivered ⊢
  rw [hdelivered]
  by_cases hs : s = sid
  · subst hs
    simp only [setLdst_self, hreply, ← Multiset.cons_coe, ← Multiset.singleton_add]
    abel
  · rw [setLdst_ne g _ hs]

theorem ldst_cycle_ledger {g : Gpu} (h : Ledger cfg g) (sid : Nat) (p : Port) :
    Ledger cfg (ldst_cycle cfg g sid p) := by
  apply ldst_cycle_keeps cfg _ _ _ h
  · intro g h
    have hnoted : ∀ a rest, Ledger cfg (noteAccess cfg (meetAccesses cfg g sid a rest) a rest) :=
      fun _ _ => h.same rfl rfl rfl rfl rfl fun _ => rfl
    have hcase := access_cycle_cases cfg g sid
    generalize access_cycle cfg g sid = s at hcase ⊢
    cases hcase with
    | idle => exact h
    | passes => exact h.same rfl rfl rfl rfl rfl fun _ => rfl
    | @hits w a rest =>
      have hunits := tlbHit_unit cfg Ldst.replies (fun _ _ _ => rfl)
        (noteAccess cfg (meetAccesses cfg g sid a rest) a rest) sid a
      dsimp only
      rw [tlbHit_frame] at hunits ⊢
      exact (hnoted a rest).same rfl rfl rfl rfl rfl hunits
    | @misses w a rest =>
      refine (hnoted a rest).same rfl rfl rfl rfl rfl ?_
      exact unit_same Ldst.replies (by rfl) (by rfl)
  · intro g h
    have hcase := memory_cycle_cases cfg g sid p
    generalize memory_cycle cfg g sid p = s at hcase ⊢
    cases hcase with
    | @drains w =>
      unfold drainQueue
      rw [releaseIf_frame]
      exact h.same rfl rfl rfl rfl rfl (unit_same Ldst.replies (by rfl) (by rfl))
    | waits => exact h
    | replies _ hreply => exact takeReply_ledger cfg h hreply p
  · intro g h
    exact h.same rfl rfl rfl rfl rfl (unit_same Ldst.replies (by rfl) (by rfl))

theorem parkedWith_activateFirst (addr cnt stream : Nat) (qs : List PrefetchReq) :
    parkedWith (activateFirst addr cnt stream qs) = parkedWith qs := by
  induction qs with
  | nil => rfl
  | cons q qs ih =>
    unfold activateFirst
    split
    · rfl
    · simp only [parkedWith, List.map_cons, List.sum_cons] at ih ⊢
      rw [ih]

theorem perform_ledger (g : Gpu) (a : Action) :
    monitor.Follows (Watched anyEvent) (Ledger cfg) g (perform cfg g a) := by
  have hgrows := perform_grows cfg g a
  cases a with
  | gmmu_cycle => exact gmmu_cycle_ledger cfg g
  | ldst_cycle sid p => exact hgrows.unnoticed fun h => ldst_cycle_ledger cfg h sid p
  | icnt_cycle c => exact hgrows.unnoticed fun h => icnt_cycle_ledger cfg h c
  | issue sid w bytes =>
    refine hgrows.unnoticed fun h => h.same rfl rfl rfl rfl rfl ?_
    exact unit_same Ldst.replies (by rfl) (by rfl)
  | dispatch sid k =>
    refine hgrows.unnoticed fun h => h.same rfl rfl rfl rfl rfl ?_
    exact unit_same Ldst.replies (by rfl) (by rfl)
  | answer sid k how =>
    have hunits := answer_unit cfg Ldst.replies (fun _ _ => rfl) g sid k how
    refine hgrows.unnoticed fun h => ?_
    simp only [perform]
    rw [answer_frame]
    exact h.same rfl rfl rfl rfl rfl hunits
  | activate_prefetch addr cnt stream =>
    refine hgrows.unnoticed fun h => h.same rfl ?_ rfl rfl rfl fun _ => rfl
    simp only [perform, activate_prefetch, held, contained, parkedWith_activateFirst]
  | cudaMemPrefetchAsync p n s =>
    have hheld : held (cudaMemPrefetchAsync cfg g p n s) = held g := by
      unfold cudaMemPrefetchAsync
      split
      · rfl
      · simp [held, contained, parkedWith, PrefetchReq.parked]
    refine hgrows.unnoticed fun h => ?_
    simp only [perform]
    rw [cudaMemPrefetchAsync_frame] at hheld ⊢
    exact h.same rfl hheld rfl rfl rfl fun _ => rfl
  | cudaSetupArgument p =>
    refine hgrows.unnoticed fun h => ?_
    simp only [perform]
    rw [cudaSetupArgument_frame]
    exact h.same rfl rfl rfl rfl rfl fun _ => rfl
  | cudaMallocManaged _ _ | cudaMalloc _ | host_write _ _ | log_kernel_start _
  | log_kernel_finish _ | cudaDeviceSynchronize | do_atomic _ _ _ | tick =>
    exact hgrows.unnoticed fun h => h.same rfl rfl rfl rfl rfl fun _ => rfl

/-! ## Runs -/

theorem ledger {g : Gpu} (hr : Reachable cfg g) : Ledger cfg g := by
  apply invariant_of_steps cfg (Ledger cfg) _ (fun g a _ => perform_ledger cfg g a) hr
  · rw [List.all_eq_true]
    exact fun _ _ => rfl
  · refine ⟨rfl, ?_, ?_, ?_⟩
    · intro c mf hmf
      cases hmf
    · intro sid
      rfl
    · intro r hr
      cases hr

/-- Between two cycles no fault waits for the prefetcher. -/
theorem turn_empty {g : Gpu} (hr : Reachable cfg g) : g.page_fault_this_turn.entries = [] := by
  induction hr with
  | start => rfl
  | @step g _ _ hn ih =>
    obtain ⟨a, ha⟩ := hn
    obtain ⟨_, rfl, _⟩ := step_eq_some cfg ha
    cases a with
    | gmmu_cycle =>
      have hprefetch : ∀ g, (do_hardware_prefetch cfg g).page_fault_this_turn.entries = [] := by
        intro g
        simp only [do_hardware_prefetch]
        split
        · assumption
        · rw [noteOversubscription_frame]
          rfl
      simp only [perform, gmmu_cycle]
      rw [user_prefetch_frame, fetch_from_clusters_frame]
      exact hprefetch _
    | ldst_cycle sid p =>
      simp only [perform]
      rw [ldst_cycle_frame]
      exact ih
    | icnt_cycle c =>
      simp only [perform]
      rw [icnt_cycle_frame]
      exact ih
    | answer sid k how =>
      simp only [perform]
      rw [answer_frame]
      exact ih
    | cudaSetupArgument p =>
      simp only [perform]
      rw [cudaSetupArgument_frame]
      exact ih
    | cudaMemPrefetchAsync p n s =>
      simp only [perform]
      rw [cudaMemPrefetchAsync_frame]
      exact ih
    | cudaMallocManaged _ _ | cudaMalloc _ | host_write _ _ | activate_prefetch _ _ _
    | log_kernel_start _ | log_kernel_finish _ | cudaDeviceSynchronize | issue _ _ _
    | dispatch _ _ | do_atomic _ _ _ | tick => exact ih

/-- The GMMU takes no fetch twice. -/
theorem walked_nodup {g : Gpu} (hr : Reachable cfg g) : g.walked.Nodup := by
  have hrequests := requests_are_distinct cfg hr
  rw [List.nodup_iff_count_le_one]
  intro mf
  have hown : (walkedBy g mf.sid).Nodup := by
    have hrelated := (List.pairwise_append.mp (hrequests.related mf.sid)).1
    exact hrelated.imp fun hne heq => hne (congrArg MemFetch.serial heq)
  have hcount := List.nodup_iff_count_le_one.mp hown mf
  rwa [walkedBy, List.count_filter (by simp [MemFetch.isOf]), List.count_reverse] at hcount

/-- The GMMU keeps every fetch that it took from the queue of a cluster in one
place until it pushes it back, once, to the queue of that cluster. -/
structure Kept (g : Gpu) : Prop where
  home : ∀ c, ∀ mf ∈ g.m_cu_gmmu_queue c, mf.sid / cfg.n_simt_cores_per_cluster = c
  once : ∀ mf, (contained g).count mf + (replayedFetches g).count mf =
    if mf ∈ g.walked then 1 else 0
  back : Delivered cfg g

theorem count_walked {g : Gpu} (hr : Reachable cfg g) (mf : MemFetch) :
    (contained g).count mf + (replayedFetches g).count mf + g.lost.count mf =
      if mf ∈ g.walked then 1 else 0 := by
  have hbalance := congrArg (Multiset.count mf) (ledger cfg hr).balance
  have hturn : g.page_fault_this_turn.pooled = [] := by
    simp [StdMap.pooled, StdMap.values, turn_empty cfg hr]
  simp only [accounted, held, hturn, Multiset.count_add, Multiset.coe_count, Multiset.coe_nil,
    Multiset.count_zero, Nat.add_zero] at hbalance
  rw [← hbalance, (walked_nodup cfg hr).count]

/-- The state in which a cycle comes to the user prefetch. -/
def beforeUserPrefetch (g : Gpu) : Gpu :=
  let g := eviction_check cfg g
  let g := write_back_done cfg g
  let g := write_back_schedule cfg g
  let g := read_done cfg g
  let g := read_schedule cfg g
  let g := page_table_walk cfg g
  let g := do_hardware_prefetch cfg g
  fetch_from_clusters cfg g

end gpgpu_sim_uvm
