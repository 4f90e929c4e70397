-- The pages that are on their way to the GPU. As long as each prefetcher only
-- selects pages that nothing waits for yet, a page is never queued twice, is
-- not resident while it is queued, and has an MSHR entry.
import GpgpuSimUvm.PageTable

namespace gpgpu_sim_uvm

open monitor

/-! ## What is queued -/

def isMigration (t : PcieLatency) : Bool := decide (t.type = .PCIE_READ)

/-- The pages of all migrations among some transfers. -/
def pagesQueued (ts : List PcieLatency) : List Nat :=
  (ts.filter isMigration).flatMap PcieLatency.page_list

/-- The pages of the migrations in both read queues. -/
def queuedPages (g : Gpu) : List Nat :=
  pagesQueued (g.pcie_read_latency_queue.toList ++ g.pcie_read_stage_queue)

theorem pagesQueued_append (ts us : List PcieLatency) :
    pagesQueued (ts ++ us) = pagesQueued ts ++ pagesQueued us := by
  simp [pagesQueued]

theorem pagesQueued_cons (t : PcieLatency) (ts : List PcieLatency) :
    pagesQueued (t :: ts) = (if isMigration t then t.page_list else []) ++ pagesQueued ts := by
  unfold pagesQueued
  split <;> simp_all

/-- The pages `ps` are on their way: each once, none resident, and each with an
MSHR entry. A page that faults in this turn is not one of them. -/
structure Coming (g : Gpu) (ps : List Nat) : Prop where
  once : ps.Nodup
  absent : ∀ p ∈ ps, is_valid g p = false
  awaited : ∀ p ∈ ps, g.req_info.contains p = true
  faulting : ∀ p, g.page_fault_this_turn.contains p = true →
    is_valid g p = false ∧ g.req_info.contains p = false

/-- A step that makes no page resident and leaves the MSHR entries and the
faults of the turn as they are. -/
theorem Coming.same {g g' : Gpu} {ps : List Nat} (h : Coming g ps)
    (hvalid : ∀ p, is_valid g p = false → is_valid g' p = false)
    (hreq : ∀ p, g'.req_info.contains p = g.req_info.contains p)
    (hturn : g'.page_fault_this_turn = g.page_fault_this_turn) : Coming g' ps := by
  refine ⟨h.once, fun p hp => hvalid p (h.absent p hp), fun p hp => ?_, fun p hp => ?_⟩
  · rw [hreq]
    exact h.awaited p hp
  · rw [hturn] at hp
    rw [hreq]
    exact ⟨hvalid p (h.faulting p hp).1, (h.faulting p hp).2⟩

/-- The condition of the law: a selected page has no MSHR entry yet, and under
`RANDOM` it is not a fault of the same turn. -/
def Event.selectsFresh : Event → Bool
  | .selected _ pending => !pending
  | _ => true

variable (cfg : Config)

/-! ## Reads -/

theorem filter_eraseP {A : Type} {p q : A → Bool} (h : ∀ a, q a = true → p a = false)
    (l : List A) : (l.eraseP q).filter p = l.filter p := by
  induction l with
  | nil => rfl
  | cons a l ih =>
    by_cases hq : q a = true
    · rw [List.eraseP_cons_of_pos hq, List.filter_cons_of_neg]
      rw [h a hq]
      exact Bool.false_ne_true
    · rw [List.eraseP_cons_of_neg hq, List.filter_cons, List.filter_cons, ih]

theorem startRead_same (g : Gpu) (t : PcieLatency) :
    (startRead cfg g t).type = t.type ∧ (startRead cfg g t).page_list = t.page_list := by
  unfold startRead
  split <;> exact ⟨rfl, rfl⟩

/-- What `read_schedule` takes out of a queue and what it leaves there hold the
pages of the queue: a direct access that overtakes the others holds none. -/
theorem pagesQueued_pick (isDma : PcieLatency → Bool)
    (hdma : ∀ t, isDma t = true → isMigration t = false) (front : PcieLatency)
    (rest : List PcieLatency) :
    pagesQueued (((front :: rest).find? isDma).getD front ::
      if (front :: rest).any isDma then (front :: rest).eraseP isDma else rest) =
      pagesQueued (front :: rest) := by
  cases hfind : (front :: rest).find? isDma with
  | none =>
    have hany : (front :: rest).any isDma = false := by
      simpa using List.find?_eq_none.mp hfind
    rw [hany]
    rfl
  | some t =>
    have ht : isDma t = true := List.find?_some hfind
    have hany : (front :: rest).any isDma = true :=
      List.any_eq_true.mpr ⟨t, List.mem_of_find?_eq_some hfind, ht⟩
    rw [hany, Option.getD_some, pagesQueued_cons, hdma t ht]
    unfold pagesQueued
    rw [if_pos rfl, filter_eraseP hdma]
    rfl

theorem pagesQueued_startRead (g : Gpu) (t : PcieLatency) (ts : List PcieLatency) :
    pagesQueued (startRead cfg g t :: ts) = pagesQueued (t :: ts) := by
  obtain ⟨htype, hpages⟩ := startRead_same cfg g t
  rw [pagesQueued_cons, pagesQueued_cons, hpages]
  unfold isMigration
  rw [htype]

/-- A scheduled transfer moves from one queue to the other. -/
theorem queuedPages_read_schedule (g : Gpu) :
    queuedPages (read_schedule cfg g) = queuedPages g := by
  unfold read_schedule
  split
  · rename_i front rest hstage hlatency
    split
    · simp only [queuedPages, hstage, hlatency, Option.toList_some, Option.toList_none,
        List.nil_append, List.singleton_append]
      rw [pagesQueued_startRead]
      apply pagesQueued_pick
      intro t ht
      unfold isMigration
      rw [of_decide_eq_true ht]
      rfl
    · rfl
  · rfl

/-- At most the MSHR entry of a completed page goes. -/
theorem contains_completePage (g : Gpu) {p q : Nat} (h : q ≠ p) :
    (completePage cfg g p).req_info.contains q = g.req_info.contains q := by
  have hfetched : (completePrefetched (admitPage cfg g p) p).req_info.contains q =
      g.req_info.contains q := by
    unfold completePrefetched
    split
    · rfl
    · split
      · exact StdMap.contains_erase_ne _ h
      · rfl
  unfold completePage completeFaulted
  rw [replay_foldl_frame, ← hfetched]
  exact StdMap.contains_erase_ne _ h

theorem coming_completePage {g : Gpu} {p : Nat} {ps : List Nat} (h : Coming g (p :: ps)) :
    Coming (completePage cfg g p) ps := by
  have hreq : ∀ q, q ≠ p → (completePage cfg g p).req_info.contains q = g.req_info.contains q :=
    fun q hq => contains_completePage cfg g hq
  have hturn : (completePage cfg g p).page_fault_this_turn = g.page_fault_this_turn := by
    rw [completePage_frame]
  have hvalid : ∀ q, q ≠ p → is_valid (completePage cfg g p) q = is_valid g q := by
    intro q hq
    unfold is_valid
    rw [completePage_m_data, pageOf_validate_page, if_neg hq]
  have hps : ∀ q ∈ ps, q ≠ p := by
    rintro q hq rfl
    exact (List.nodup_cons.mp h.once).1 hq
  refine ⟨(List.nodup_cons.mp h.once).2, fun q hq => ?_, fun q hq => ?_, fun q hq => ?_⟩
  · rw [hvalid q (hps q hq)]
    exact h.absent q (List.mem_cons_of_mem _ hq)
  · rw [hreq q (hps q hq)]
    exact h.awaited q (List.mem_cons_of_mem _ hq)
  · rw [hturn] at hq
    have hne : q ≠ p := by
      rintro rfl
      have hwait := h.awaited q List.mem_cons_self
      rw [(h.faulting q hq).2] at hwait
      cases hwait
    rw [hvalid q hne, hreq q hne]
    exact h.faulting q hq

theorem coming_completePages (ps qs : List Nat) {g : Gpu} (h : Coming g (ps ++ qs)) :
    Coming (ps.foldl (completePage cfg) g) qs := by
  induction ps generalizing g with
  | nil => exact h
  | cons p ps ih => exact ih (coming_completePage cfg h)

theorem coming_read_done {g : Gpu} (h : Coming g (queuedPages g)) :
    Coming (read_done cfg g) (queuedPages (read_done cfg g)) := by
  have hstage : (read_done cfg g).pcie_read_stage_queue = g.pcie_read_stage_queue := by
    rw [read_done_frame]
  unfold queuedPages at h ⊢
  rw [hstage]
  unfold read_done
  split
  · exact h
  · rename_i t ht
    rw [ht, Option.toList_some, List.singleton_append, pagesQueued_cons] at h
    split
    · rw [Option.toList_none, List.nil_append]
      unfold finishRead
      split
      · rename_i htype
        simp only [isMigration, htype, decide_true, if_true] at h
        exact (coming_completePages cfg _ _ h).same (fun _ => id) (fun _ => rfl) rfl
      · rename_i htype
        simp only [isMigration, htype] at h
        refine Coming.same h ?_ ?_ ?_
        · cases t.mf <;> exact fun _ => id
        · cases t.mf <;> exact fun _ => rfl
        · cases t.mf <;> rfl
      · rename_i hread _
        have hno : isMigration t = false := decide_eq_false hread
        rw [hno] at h
        exact h.same (fun _ => id) (fun _ => rfl) rfl
    · rw [ht, Option.toList_some, List.singleton_append, pagesQueued_cons]
      exact h

/-! ## Faults -/

theorem pagesQueued_dma (ts : List PcieLatency) (mf : MemFetch) :
    pagesQueued (ts ++ [{ mf := some mf, type := .DMA }]) = pagesQueued ts := by
  rw [pagesQueued_append, pagesQueued_cons]
  exact List.append_nil _

theorem queuedPages_fileFetch (g : Gpu) (mf : MemFetch) (page : Nat) :
    queuedPages (fileFetch cfg g mf page) = queuedPages g := by
  unfold fileFetch
  split
  · rfl
  · split
    · rfl
    · simp only [queuedPages, newFault]
      split
      · rfl
      · rw [← List.append_assoc, pagesQueued_dma]

theorem queuedPages_walkFetch (g : Gpu) (mf : MemFetch) :
    queuedPages (walkFetch cfg g mf) = queuedPages g := by
  unfold walkFetch
  split
  · simp only [queuedPages, replay]
    rw [check_write_stage_queue_frame]
    rfl
  · exact queuedPages_fileFetch cfg (popWalk cfg g mf) mf _

/-- A fault waits at its MSHR entry, with a prefetch request, for a direct
access, or for the end of the turn. -/
theorem coming_fileFetch {g : Gpu} {ps : List Nat} {mf : MemFetch} {page : Nat} (h : Coming g ps)
    (hpage : is_valid g page = false) : Coming (fileFetch cfg g mf page) ps := by
  unfold fileFetch
  split
  · rename_i hreq
    refine Coming.same h (fun _ => id) (fun p => ?_) rfl
    change (g.req_info.alter page [] (· ++ [mf])).contains p = _
    rw [StdMap.contains_alter]
    by_cases hp : p = page
    · rw [hp, hreq, Bool.or_true]
    · simp [hp]
  · rename_i hreq
    split
    · exact Coming.same h (fun _ => id) (fun _ => rfl) rfl
    · refine ⟨h.once, h.absent, h.awaited, fun p hp => ?_⟩
      simp only [newFault] at hp
      split at hp
      · rw [StdMap.contains_alter, Bool.or_eq_true, decide_eq_true_eq] at hp
        rcases hp with rfl | hp
        · exact ⟨hpage, Bool.eq_false_iff.mpr hreq⟩
        · exact h.faulting p hp
      · exact h.faulting p hp

theorem coming_walkFetch {g : Gpu} {ps : List Nat} (mf : MemFetch) (h : Coming g ps) :
    Coming (walkFetch cfg g mf) ps := by
  unfold walkFetch
  split
  · have hframe := check_write_stage_queue_frame cfg (popWalk cfg g mf)
      (cfg.get_page_num mf.access.addr)
    have hsame := check_write_stage_queue_samePages cfg (popWalk cfg g mf)
      (cfg.get_page_num mf.access.addr)
    refine h.same (fun p hp => ?_) (fun p => ?_) ?_
    · exact (hsame.is_valid p).trans hp
    · rw [hframe]
      rfl
    · rw [hframe]
      rfl
  · rename_i page rest hfaulty
    have hpage : is_valid g page = false := by
      have hmem : page ∈ get_faulty_pages cfg g mf.access.addr mf.access.size := by
        rw [hfaulty]
        exact List.mem_cons_self
      simpa using (List.mem_filter.mp hmem).2
    have hpop : Coming (popWalk cfg g mf) ps := Coming.same h (fun _ => id) (fun _ => rfl) rfl
    exact coming_fileFetch cfg hpop hpage

/-! ## The plan of a turn -/

/-- The pages of all transfers of a turn. -/
def planned (turn : Turn) : List Nat := turn.transfers.flatMap Prod.fst

/-- The pages `ps` can go on their way: each once, noted in `temp_req_info`, not
resident, and without an MSHR entry. -/
structure Plan (g : Gpu) (temp ps : List Nat) : Prop where
  once : ps.Nodup
  listed : ∀ p ∈ ps, p ∈ temp
  absent : ∀ p ∈ ps, is_valid g p = false
  fresh : ∀ p ∈ ps, g.req_info.contains p = false

theorem Plan.add {g g' : Gpu} {temp temp' ps qs : List Nat} (h : Plan g temp ps)
    (hdata : g'.m_data = g.m_data) (hreq : g'.req_info = g.req_info)
    (htemp : ∀ p ∈ temp, p ∈ temp') (hqs : qs.Nodup)
    (hnew : ∀ p ∈ qs, p ∉ ps ∧ p ∈ temp' ∧ is_valid g p = false ∧ g.req_info.contains p = false) :
    Plan g' temp' (ps ++ qs) := by
  have hvalid : ∀ p, is_valid g' p = is_valid g p := by
    intro p
    unfold is_valid
    rw [hdata]
  refine ⟨?_, ?_, ?_, ?_⟩
  · refine List.nodup_append.mpr ⟨h.once, hqs, ?_⟩
    rintro p hp q hq rfl
    exact (hnew p hq).1 hp
  · intro p hp
    rcases List.mem_append.mp hp with hp | hp
    · exact htemp p (h.listed p hp)
    · exact (hnew p hp).2.1
  · intro p hp
    rw [hvalid]
    rcases List.mem_append.mp hp with hp | hp
    · exact h.absent p hp
    · exact (hnew p hp).2.2.1
  · intro p hp
    rw [hreq]
    rcases List.mem_append.mp hp with hp | hp
    · exact h.fresh p hp
    · exact (hnew p hp).2.2.2

theorem mem_addPage {temp : List Nat} {p q : Nat} : q ∈ addPage temp p ↔ q ∈ temp ∨ q = p := by
  unfold addPage
  split
  · rename_i hp
    refine ⟨Or.inl, fun h => ?_⟩
    rcases h with h | rfl
    · exact h
    · exact hp
  · simp

theorem mem_addPages {ps temp : List Nat} {q : Nat} :
    q ∈ ps.foldl addPage temp ↔ q ∈ temp ∨ q ∈ ps := by
  induction ps generalizing temp with
  | nil => simp
  | cons p ps ih => rw [List.foldl_cons, ih, mem_addPage, List.mem_cons, or_assoc]

/-- What `RANDOM` draws under the watch: nothing, or one page that nothing has
asked for yet. -/
theorem drawIfRandom_draws (g : Gpu) (temp : List Nat) (p : Nat)
    (hw : Watched Event.selectsFresh (drawIfRandom cfg g temp p).1) :
    (drawIfRandom cfg g temp p).2 = [] ∨ ∃ q, (drawIfRandom cfg g temp p).2 = [q] ∧ q ∉ temp ∧
      is_valid g q = false ∧ g.req_info.contains q = false ∧
      g.page_fault_this_turn.contains q = false := by
  revert hw
  unfold drawIfRandom
  split
  · rename_i t _ _
    simp only [drawRandom]
    split
    · rename_i htakes
      intro hw
      simp only [takesRandomPage, Bool.and_eq_true, Bool.not_eq_true', decide_eq_false_iff_not]
        at htakes
      obtain ⟨⟨⟨hvalid, -⟩, hnew⟩, hreq⟩ := htakes
      have hevent := hw.events (.selected _ _) (List.mem_cons_of_mem _ List.mem_cons_self)
      rw [Event.selectsFresh, Bool.not_eq_true'] at hevent
      exact Or.inr ⟨_, rfl, hnew, hvalid, hreq, hevent⟩
    · exact fun _ => Or.inl rfl
  · exact fun _ => Or.inl rfl

/-- One fault under `DISBALED` or `RANDOM` adds its page and the drawn one. -/
theorem plan_prefetchOne {s : Gpu × Turn} {p : Nat}
    (h : Plan s.1 s.2.temp_req_info (planned s.2)) (hp : p ∉ planned s.2)
    (hvalid : is_valid s.1 p = false) (hreq : s.1.req_info.contains p = false)
    (hw : Watched Event.selectsFresh (prefetchOne cfg s p).1) :
    Plan (prefetchOne cfg s p).1 (prefetchOne cfg s p).2.temp_req_info
        (planned (prefetchOne cfg s p).2) ∧
      ∀ q ∈ planned (prefetchOne cfg s p).2, q ∈ planned s.2 ∨ q = p ∨
        s.1.page_fault_this_turn.contains q = false := by
  have hdraw := drawIfRandom_draws cfg (updateBlock s.1 (cfg.get_mem_addr p) cfg.page_size true)
    (addPage s.2.temp_req_info p) p hw
  have hframe := prefetchOne_frame cfg s p
  have hdata : (prefetchOne cfg s p).1.m_data = s.1.m_data := by rw [hframe]
  have hinfo : (prefetchOne cfg s p).1.req_info = s.1.req_info := by rw [hframe]
  have hplanned : planned (prefetchOne cfg s p).2 = planned s.2 ++
      p :: (drawIfRandom cfg (updateBlock s.1 (cfg.get_mem_addr p) cfg.page_size true)
        (addPage s.2.temp_req_info p) p).2 := by
    simp [planned, prefetchOne]
  have htemp : (prefetchOne cfg s p).2.temp_req_info =
      (drawIfRandom cfg (updateBlock s.1 (cfg.get_mem_addr p) cfg.page_size true)
        (addPage s.2.temp_req_info p) p).2.foldl addPage (addPage s.2.temp_req_info p) := rfl
  rw [hplanned, htemp]
  have hold : ∀ q ∈ s.2.temp_req_info, q ∈ addPage s.2.temp_req_info p :=
    fun q hq => mem_addPage.mpr (Or.inl hq)
  rcases hdraw with hnone | ⟨q, hsome, hnew, hqvalid, hqreq, hqturn⟩
  · rw [hnone]
    refine ⟨h.add hdata hinfo hold (List.nodup_singleton p) ?_, ?_⟩
    · intro r hr
      rw [List.mem_singleton.mp hr]
      exact ⟨hp, mem_addPage.mpr (Or.inr rfl), hvalid, hreq⟩
    · intro r hr
      rcases List.mem_append.mp hr with hr | hr
      · exact Or.inl hr
      · exact Or.inr (Or.inl (List.mem_singleton.mp hr))
  · rw [hsome]
    have hqp : p ≠ q := by
      rintro rfl
      exact hnew (mem_addPage.mpr (Or.inr rfl))
    refine ⟨h.add hdata hinfo (fun r hr => mem_addPages.mpr (Or.inl (hold r hr))) ?_ ?_, ?_⟩
    · simpa using hqp
    · intro r hr
      rcases List.mem_cons.mp hr with rfl | hr
      · exact ⟨hp, mem_addPages.mpr (Or.inl (mem_addPage.mpr (Or.inr rfl))), hvalid, hreq⟩
      · rw [List.mem_singleton.mp hr]
        refine ⟨fun hin => hnew (hold q (h.listed q hin)), ?_, hqvalid, hqreq⟩
        exact mem_addPages.mpr (Or.inr List.mem_cons_self)
    · intro r hr
      rcases List.mem_append.mp hr with hr | hr
      · exact Or.inl hr
      · rcases List.mem_cons.mp hr with rfl | hr
        · exact Or.inr (Or.inl rfl)
        · rw [List.mem_singleton.mp hr]
          exact Or.inr (Or.inr hqturn)

/-- The faults that are still to come are not planned yet. -/
theorem plan_prefetchOnes (faults : List Nat) (s : Gpu × Turn)
    (h : Plan s.1 s.2.temp_req_info (planned s.2)) (hnodup : faults.Nodup)
    (hfaults : ∀ p ∈ faults, p ∉ planned s.2 ∧ s.1.page_fault_this_turn.contains p = true ∧
      is_valid s.1 p = false ∧ s.1.req_info.contains p = false)
    (hw : Watched Event.selectsFresh (faults.foldl (prefetchOne cfg) s).1) :
    Plan (faults.foldl (prefetchOne cfg) s).1 (faults.foldl (prefetchOne cfg) s).2.temp_req_info
      (planned (faults.foldl (prefetchOne cfg) s).2) := by
  induction faults generalizing s with
  | nil => exact h
  | cons p faults ih =>
    have hfirst : Watched Event.selectsFresh (prefetchOne cfg s p).1 :=
      hw.before (Grows.foldl_fst (prefetchOne_grows cfg) faults (prefetchOne cfg s p))
    obtain ⟨hp, -, hvalid, hreq⟩ := hfaults p List.mem_cons_self
    obtain ⟨hplan, honly⟩ := plan_prefetchOne cfg h hp hvalid hreq hfirst
    refine ih (prefetchOne cfg s p) hplan (List.nodup_cons.mp hnodup).2 ?_ hw
    intro q hq
    obtain ⟨hq1, hq2, hq3, hq4⟩ := hfaults q (List.mem_cons_of_mem _ hq)
    rw [prefetchOne_frame]
    refine ⟨fun hin => ?_, hq2, hq3, hq4⟩
    rcases honly q hin with hin | rfl | hno
    · exact hq1 hin
    · exact (List.nodup_cons.mp hnodup).1 hq
    · rw [hno] at hq2
      cases hq2

/-- The watch and the plan over the blocks of one tree, behind the pages `ps`. -/
theorem plan_collectBlock (ps : List Nat) (s : Gpu × List Nat × List Nat) (bb : Nat) :
    monitor.Follows (fun s => Watched Event.selectsFresh s.1) (fun s => Plan s.1 s.2.1 (ps ++ s.2.2)) s
      (collectBlock cfg s bb) := by
  refine ⟨fun hw => hw.before (collectBlock_grows cfg s bb), fun h hw => ?_⟩
  simp only [collectBlock]
  rw [← List.append_assoc]
  refine h.add rfl rfl (fun p hp => List.mem_append_left _ hp) ?_ ?_
  · exact (List.Nodup.filter _ List.nodup_range').filter _
  · intro p hp
    obtain ⟨hfaulty, hnew⟩ := List.mem_filter.mp hp
    have hnot : p ∉ s.2.1 := of_decide_eq_true hnew
    have hvalid : is_valid s.1 p = false := by simpa using (List.mem_filter.mp hfaulty).2
    refine ⟨fun hin => hnot (h.listed p hin), List.mem_append_right _ hp, hvalid, ?_⟩
    have hevent := hw.events (.selected p (s.1.req_info.contains p)) (List.mem_append_left _
      (List.mem_reverse.mpr (List.mem_map.mpr ⟨p, hp, rfl⟩)))
    rw [Event.selectsFresh, Bool.not_eq_true'] at hevent
    exact hevent

theorem plan_prefetchGroup (s : Gpu × Turn) (group : Nat × List Nat) :
    monitor.Follows (fun s => Watched Event.selectsFresh s.1)
      (fun s => Plan s.1 s.2.temp_req_info (planned s.2)) s (prefetchGroup cfg s group) := by
  refine ⟨fun hw => hw.before (prefetchGroup_grows cfg s group), fun h hw => ?_⟩
  have hstart : ∀ bbs, Plan (fillTree (scheduleFaults s.1 group.2).1 group.1 bbs).1
      s.2.temp_req_info (planned s.2 ++ []) := by
    intro bbs
    have hdata : (scheduleFaults s.1 group.2).1.m_data = s.1.m_data := by
      rw [scheduleFaults_frame]
    have hreq : (scheduleFaults s.1 group.2).1.req_info = s.1.req_info := by
      rw [scheduleFaults_frame]
    refine h.add hdata hreq (fun _ => id) List.nodup_nil ?_
    exact fun p hp => absurd hp List.not_mem_nil
  have hblocks := monitor.Follows.foldl (fillTree (scheduleFaults s.1 group.2).1 group.1
      (scheduleFaults s.1 group.2).2).2.keys
    (fun bb _ c => plan_collectBlock cfg (planned s.2) c bb)
    ((fillTree (scheduleFaults s.1 group.2).1 group.1 (scheduleFaults s.1 group.2).2).1,
      s.2.temp_req_info, [])
  have hplanned : planned (prefetchGroup cfg s group).2 = planned s.2 ++
      ((fillTree (scheduleFaults s.1 group.2).1 group.1
        (scheduleFaults s.1 group.2).2).2.keys.foldl (collectBlock cfg)
        ((fillTree (scheduleFaults s.1 group.2).1 group.1 (scheduleFaults s.1 group.2).2).1,
          s.2.temp_req_info, [])).2.2 := by
    simp [planned, prefetchGroup]
  rw [hplanned]
  exact hblocks.keeps (hstart _) hw

/-- What the hardware prefetcher plans, whichever it is. -/
theorem plan_chooseMigrations {g : Gpu}
    (hfault : ∀ p, g.page_fault_this_turn.contains p = true →
      is_valid g p = false ∧ g.req_info.contains p = false)
    (hw : Watched Event.selectsFresh (chooseMigrations cfg g).1) :
    Plan (chooseMigrations cfg g).1 (chooseMigrations cfg g).2.temp_req_info
      (planned (chooseMigrations cfg g).2) := by
  have hnone : Plan g [] [] :=
    ⟨List.nodup_nil, fun p hp => absurd hp List.not_mem_nil,
      fun p hp => absurd hp List.not_mem_nil, fun p hp => absurd hp List.not_mem_nil⟩
  revert hw
  unfold chooseMigrations
  split
  · intro hw
    refine plan_prefetchOnes cfg _ (g, {}) hnone (StdMap.keys_nodup _) ?_ hw
    intro p hp
    have hin := (StdMap.mem_keys _ p).mp hp
    exact ⟨List.not_mem_nil, hin, hfault p hin⟩
  · intro hw
    exact (monitor.Follows.foldl _ (fun group _ s => plan_prefetchGroup cfg s group) (g, {})).keeps hnone hw

/-! ## From the plan to the queue -/

theorem pagesQueued_flushRun (cur : List Nat) : pagesQueued (flushRun cfg cur) = cur := by
  unfold flushRun
  split
  · rename_i h
    rw [h]
    rfl
  · exact List.append_nil cur

/-- However a transfer is split, its pages stay the same. -/
theorem pagesQueued_splitTransfer (ps cur faulty : List Nat) :
    pagesQueued (splitTransfer cfg ps cur faulty) = cur ++ ps := by
  induction ps generalizing cur faulty with
  | nil =>
    rw [List.append_nil]
    exact pagesQueued_flushRun cfg cur
  | cons p ps ih =>
    have hfault : pagesQueued (if cfg.enable_accurate_simulation then
        [({ page_list := [p], type := .PAGE_FAULT } : PcieLatency)] else []) = [] := by
      split <;> rfl
    -- the run that a gap closes and the run that `p` joins
    have hrun : pagesQueued (if cur.getLast?.any (fun q => decide (p ≠ q + 1)) then
        flushRun cfg cur else []) ++
          ((if cur.getLast?.any (fun q => decide (p ≠ q + 1)) then [] else cur) ++ [p]) =
        cur ++ [p] := by
      split
      · rw [pagesQueued_flushRun, List.nil_append]
      · rfl
    simp only [splitTransfer]
    split
    · rw [pagesQueued_append, pagesQueued_append, hfault, List.append_nil, pagesQueued_cons, ih,
        List.nil_append, ← List.append_assoc]
      change pagesQueued _ ++ (_ ++ [p]) ++ ps = cur ++ p :: ps
      rw [hrun, List.append_assoc]
      rfl
    · rw [pagesQueued_append, ih, ← List.append_assoc, hrun, List.append_assoc]
      rfl

/-- The MSHR entries that `temp_req_info` makes. -/
theorem contains_touched (temp : List Nat) (m : StdMap Nat (List MemFetch)) (q : Nat) :
    (temp.foldl (fun m p => m.alter p [] id) m).contains q = (decide (q ∈ temp) || m.contains q) := by
  induction temp generalizing m with
  | nil => simp
  | cons p temp ih =>
    rw [List.foldl_cons, ih, StdMap.contains_alter, ← Bool.or_assoc, Bool.or_comm (decide (q ∈ temp)),
      ← Bool.decide_or]
    simp [List.mem_cons]

theorem contains_fileFaults (es : List (Nat × List MemFetch)) (g : Gpu) {q : Nat}
    (h : g.req_info.contains q = true) : (es.foldl fileFault g).req_info.contains q = true := by
  induction es generalizing g with
  | nil => exact h
  | cons e es ih =>
    refine ih (fileFault g e) ?_
    change (g.req_info.alter e.1 [] fun _ => e.2).contains q = true
    rw [StdMap.contains_alter, h, Bool.or_true]

/-- However the transfers of a turn are split, their pages stay the same. -/
theorem pagesQueued_transfers (turn : Turn) :
    pagesQueued (turn.transfers.flatMap fun t => splitTransfer cfg t.1 [] t.2) = planned turn := by
  unfold planned
  induction turn.transfers with
  | nil => rfl
  | cons t ts ih =>
    rw [List.flatMap_cons, pagesQueued_append, ih, pagesQueued_splitTransfer]
    rfl

theorem queuedPages_stageTurn (g : Gpu) (turn : Turn) :
    queuedPages (stageTurn cfg g turn) = queuedPages g ++ planned turn := by
  unfold stageTurn
  rw [fileFaults_frame, ← pagesQueued_transfers cfg]
  simp only [queuedPages]
  rw [← List.append_assoc, pagesQueued_append]

/-- The planned pages join the queue, and their faults the MSHR. -/
theorem coming_stageTurn {g : Gpu} {turn : Turn} (h : Coming g (queuedPages g))
    (hplan : Plan g turn.temp_req_info (planned turn)) :
    (queuedPages (stageTurn cfg g turn)).Nodup ∧
      ∀ p ∈ queuedPages (stageTurn cfg g turn), is_valid (stageTurn cfg g turn) p = false ∧
        (stageTurn cfg g turn).req_info.contains p = true := by
  have hvalid : ∀ p, is_valid (stageTurn cfg g turn) p = is_valid g p := by
    intro p
    rw [stageTurn_frame]
    rfl
  have hreq : ∀ p, p ∈ turn.temp_req_info ∨ g.req_info.contains p = true →
      (stageTurn cfg g turn).req_info.contains p = true := by
    intro p hp
    refine contains_fileFaults _ _ ?_
    change (turn.temp_req_info.foldl (fun m p => m.alter p [] id) g.req_info).contains p = true
    rw [contains_touched]
    rcases hp with hp | hp <;> simp [hp]
  rw [queuedPages_stageTurn]
  refine ⟨List.nodup_append.mpr ⟨h.once, hplan.once, ?_⟩, fun p hp => ?_⟩
  · rintro p hp q hq rfl
    have hwait := h.awaited p hp
    rw [hplan.fresh p hq] at hwait
    cases hwait
  · rw [hvalid]
    rcases List.mem_append.mp hp with hp | hp
    · exact ⟨h.absent p hp, hreq p (Or.inr (h.awaited p hp))⟩
    · exact ⟨hplan.absent p hp, hreq p (Or.inl (hplan.listed p hp))⟩

/-- Behind the hardware prefetcher the turn has no faults left. -/
theorem coming_do_hardware_prefetch {g : Gpu} (h : Coming g (queuedPages g))
    (hw : Watched Event.selectsFresh (do_hardware_prefetch cfg g)) :
    Coming (do_hardware_prefetch cfg g) (queuedPages (do_hardware_prefetch cfg g)) ∧
      (do_hardware_prefetch cfg g).page_fault_this_turn.entries = [] := by
  revert hw
  simp only [do_hardware_prefetch]
  split
  · rename_i hnone
    exact fun _ => ⟨h, hnone⟩
  · intro hw
    have hstaged := hw.before (noteOversubscription_grows cfg _ _)
    have hchosen : Watched Event.selectsFresh (chooseMigrations cfg g).1 := by
      refine Watched.before ?_ (stageTurn_grows cfg _ (chooseMigrations cfg g).2)
      exact ⟨hstaged.runs, hstaged.events⟩
    have hplan := plan_chooseMigrations cfg h.faulting hchosen
    have hcoming : Coming (chooseMigrations cfg g).1 (queuedPages (chooseMigrations cfg g).1) := by
      rw [chooseMigrations_frame]
      exact h.same (fun _ => id) (fun _ => rfl) rfl
    obtain ⟨honce, hpages⟩ := coming_stageTurn cfg hcoming hplan
    rw [noteOversubscription_frame]
    refine ⟨⟨honce, fun p hp => (hpages p hp).1, fun p hp => (hpages p hp).2, ?_⟩, rfl⟩
    intro p hp
    cases hp

/-! ## The user prefetch -/

theorem coming_takePage {g : Gpu} (q : PrefetchReq) (page : Nat) {ps : List Nat}
    (h : Coming g (ps ++ q.pending_prefetch)) (hturn : g.page_fault_this_turn.entries = [])
    (hvalid : is_valid g page = false)
    (hw : Watched Event.selectsFresh (takePage g q page).1) :
    Coming (takePage g q page).1 (ps ++ (takePage g q page).2.pending_prefetch) := by
  have hfresh := hw.events (.selected page (g.req_info.contains page)) List.mem_cons_self
  rw [Event.selectsFresh, Bool.not_eq_true'] at hfresh
  have hreq : ∀ p, (takePage g q page).1.req_info.contains p =
      (decide (p = page) || g.req_info.contains p) :=
    fun p => StdMap.contains_alter _ _ _ _ _
  have hnew : page ∉ ps ++ q.pending_prefetch := by
    intro hin
    have hwait := h.awaited page hin
    rw [hfresh] at hwait
    cases hwait
  change Coming _ (ps ++ (q.pending_prefetch ++ [page]))
  rw [← List.append_assoc]
  refine ⟨?_, fun p hp => ?_, fun p hp => ?_, fun p hp => ?_⟩
  · refine List.nodup_append.mpr ⟨h.once, List.nodup_singleton page, ?_⟩
    rintro p hp r hr rfl
    rw [List.mem_singleton.mp hr] at hp
    exact hnew hp
  · rcases List.mem_append.mp hp with hp | hp
    · exact h.absent p hp
    · rw [List.mem_singleton.mp hp]
      exact hvalid
  · rw [hreq]
    rcases List.mem_append.mp hp with hp | hp
    · rw [h.awaited p hp, Bool.or_true]
    · simp [List.mem_singleton.mp hp]
  · change g.page_fault_this_turn.contains p = true at hp
    simp [StdMap.contains, StdMap.find, hturn, std_map.findList] at hp

/-- Behind the pages `ps`, the pages of the chunk come one by one. -/
theorem coming_selectChunk (n : Nat) (g : Gpu) (q : PrefetchReq) (ps : List Nat)
    (h : Coming g (ps ++ q.pending_prefetch)) (hturn : g.page_fault_this_turn.entries = [])
    (hw : Watched Event.selectsFresh (selectChunk cfg n g q).1) :
    Coming (selectChunk cfg n g q).1 (ps ++ (selectChunk cfg n g q).2.pending_prefetch) := by
  induction n generalizing g q with
  | zero => exact h
  | succ n ih =>
    have hcheck : Coming
        (check_write_stage_queue cfg (g.require (is_mapped g (cfg.get_page_num q.cur_addr)))
          (cfg.get_page_num q.cur_addr)) (ps ++ q.pending_prefetch) := by
      have hsame := check_write_stage_queue_samePages cfg
        (g.require (is_mapped g (cfg.get_page_num q.cur_addr))) (cfg.get_page_num q.cur_addr)
      have hframe := check_write_stage_queue_frame cfg
        (g.require (is_mapped g (cfg.get_page_num q.cur_addr))) (cfg.get_page_num q.cur_addr)
      refine h.same (fun p hp => (hsame.is_valid p).trans hp) (fun p => ?_) ?_
      · rw [hframe]
        rfl
      · rw [hframe]
        rfl
    have hcheckTurn : (check_write_stage_queue cfg
        (g.require (is_mapped g (cfg.get_page_num q.cur_addr)))
          (cfg.get_page_num q.cur_addr)).page_fault_this_turn.entries = [] := by
      rw [check_write_stage_queue_frame]
      exact hturn
    have hreq : Coming (g.require (is_mapped g (cfg.get_page_num q.cur_addr)))
        (ps ++ q.pending_prefetch) :=
      h.same (fun _ => id) (fun _ => rfl) rfl
    revert hw
    simp only [selectChunk]
    split_ifs with hvalid hpending hgoes hgoes
    · exact fun _ => hcheck
    · exact fun hw => ih _ _ hcheck hcheckTurn hw
    · exact fun _ => hcheck
    · intro hw
      have htaken := coming_takePage { q with cur_addr := q.cur_addr + cfg.page_size }
        (cfg.get_page_num q.cur_addr) hreq hturn (Bool.eq_false_iff.mpr hvalid)
        (hw.before (selectChunk_grows cfg n _ _))
      exact ih _ _ htaken hturn hw
    · exact fun hw => coming_takePage { q with cur_addr := q.cur_addr + cfg.page_size }
        (cfg.get_page_num q.cur_addr) hreq hturn (Bool.eq_false_iff.mpr hvalid) hw

theorem pagesQueued_chunkTransfer (pages : List Nat) :
    pagesQueued (chunkTransfer cfg pages) = pages := by
  unfold chunkTransfer
  split
  · rename_i h
    rw [h]
    rfl
  · exact List.append_nil pages

theorem coming_user_prefetch {g : Gpu} (h : Coming g (queuedPages g))
    (hturn : g.page_fault_this_turn.entries = [])
    (hw : Watched Event.selectsFresh (user_prefetch cfg g)) :
    Coming (user_prefetch cfg g) (queuedPages (user_prefetch cfg g)) := by
  revert hw
  unfold user_prefetch
  split
  · exact fun _ => h
  · rename_i q rest _
    split
    · rename_i hactive
      have hreplay : Coming (replayChunk cfg g q).1
          (queuedPages g ++ (replayChunk cfg g q).2.pending_prefetch) := by
        have hnone : (replayChunk cfg g q).2.pending_prefetch = [] := by
          unfold replayChunk
          split <;> exact hactive.2
        rw [hnone, List.append_nil, replayChunk_frame]
        exact h.same (fun _ => id) (fun _ => rfl) rfl
      have hreplayTurn : (replayChunk cfg g q).1.page_fault_this_turn.entries = [] := by
        rw [replayChunk_frame]
        exact hturn
      dsimp only
      split
      · intro _
        unfold finishPrefetch
        rw [replayChunk_frame]
        exact h.same (fun _ => id) (fun _ => rfl) rfl
      · intro hw
        have hselect := coming_selectChunk cfg (pages_left cfg (replayChunk cfg g q).2)
          (replayChunk cfg g q).1 (replayChunk cfg g q).2 (queuedPages g) hreplay hreplayTurn
          ⟨hw.runs, hw.events⟩
        have hqueued : queuedPages (stageChunk cfg
            (selectChunk cfg (pages_left cfg (replayChunk cfg g q).2) (replayChunk cfg g q).1
              (replayChunk cfg g q).2).1
            (selectChunk cfg (pages_left cfg (replayChunk cfg g q).2) (replayChunk cfg g q).1
              (replayChunk cfg g q).2).2 rest) = queuedPages g ++
            (selectChunk cfg (pages_left cfg (replayChunk cfg g q).2) (replayChunk cfg g q).1
              (replayChunk cfg g q).2).2.pending_prefetch := by
          simp only [queuedPages, stageChunk]
          rw [← List.append_assoc, pagesQueued_append, pagesQueued_chunkTransfer]
          rw [selectChunk_frame, replayChunk_frame]
        rw [hqueued]
        exact hselect.same (fun _ => id) (fun _ => rfl) rfl
    · exact fun _ => h

/-! ## Steps -/

/-- Between two steps no fault is left over from a cycle. -/
structure Migrating (g : Gpu) : Prop where
  coming : Coming g (queuedPages g)
  turn_over : g.page_fault_this_turn.entries = []

/-- The watch and the invariant of this module, over one step. -/
abbrev MigrationsFollow (g g' : Gpu) : Prop :=
  monitor.Follows (Watched Event.selectsFresh) Migrating g g'

/-- A step that the queued pages do not notice. -/
theorem Migrating.same {g g' : Gpu} (h : Migrating g)
    (hvalid : ∀ p, is_valid g p = false → is_valid g' p = false)
    (hreq : g'.req_info = g.req_info) (hturn : g'.page_fault_this_turn = g.page_fault_this_turn)
    (hstage : g'.pcie_read_stage_queue = g.pcie_read_stage_queue)
    (hlatency : g'.pcie_read_latency_queue = g.pcie_read_latency_queue) : Migrating g' := by
  refine ⟨?_, ?_⟩
  · unfold queuedPages
    rw [hstage, hlatency]
    exact h.coming.same hvalid (fun p => by rw [hreq]) hturn
  · rw [hturn]
    exact h.turn_over

theorem coming_eviction_check {g : Gpu} (h : Coming g (queuedPages g)) :
    Coming (eviction_check cfg g) (queuedPages (eviction_check cfg g)) := by
  rw [eviction_check_frame]
  exact h.same (fun _ => id) (fun _ => rfl) rfl

theorem is_valid_invalidate_pages (m : StdMap Nat MemStorage) (ps : List Nat) {p : Nat}
    (h : (pageOf m p).valid = false) : (pageOf (ps.foldl invalidate_page m) p).valid = false := by
  rw [pageOf_invalidate_pages]
  split
  · rfl
  · exact h

theorem coming_write_back_schedule {g : Gpu} (h : Coming g (queuedPages g)) :
    Coming (write_back_schedule cfg g) (queuedPages (write_back_schedule cfg g)) := by
  unfold write_back_schedule
  split
  · rename_i t _ _ _
    exact h.same (fun p hp => is_valid_invalidate_pages g.m_data t.page_list hp) (fun _ => rfl) rfl
  · exact h

theorem coming_read_schedule {g : Gpu} (h : Coming g (queuedPages g)) :
    Coming (read_schedule cfg g) (queuedPages (read_schedule cfg g)) := by
  rw [queuedPages_read_schedule, read_schedule_frame]
  exact h.same (fun _ => id) (fun _ => rfl) rfl

theorem coming_walkFetches (mfs : List MemFetch) {g : Gpu} {ps : List Nat} (h : Coming g ps) :
    Coming (mfs.foldl (walkFetch cfg) g) ps := by
  induction mfs generalizing g with
  | nil => exact h
  | cons mf mfs ih => exact ih (coming_walkFetch cfg mf h)

theorem coming_page_table_walk {g : Gpu} {ps : List Nat} (h : Coming g ps) :
    Coming (page_table_walk cfg g) ps :=
  coming_walkFetches cfg _ h

theorem queuedPages_page_table_walk (g : Gpu) :
    queuedPages (page_table_walk cfg g) = queuedPages g := by
  unfold page_table_walk
  generalize (g.page_table_walk_queue.takeWhile _).map Prod.fst = mfs
  induction mfs generalizing g with
  | nil => rfl
  | cons mf mfs ih => rw [List.foldl_cons, ih, queuedPages_walkFetch]

theorem gmmu_cycle_migrationsFollow (g : Gpu) : MigrationsFollow g (gmmu_cycle cfg g) := by
  refine (gmmu_cycle_grows cfg g).follows fun h hw => ?_
  have h1 := coming_eviction_check cfg h.coming
  have h2 : Coming (write_back_done cfg (eviction_check cfg g))
      (queuedPages (write_back_done cfg (eviction_check cfg g))) :=
    h1.same (fun _ => id) (fun _ => rfl) rfl
  have h5 := coming_read_schedule cfg (coming_read_done cfg (coming_write_back_schedule cfg h2))
  have hw8 := hw.before (user_prefetch_grows cfg _)
  have h6 := coming_page_table_walk cfg h5
  rw [← queuedPages_page_table_walk] at h6
  obtain ⟨h7, hturn⟩ := coming_do_hardware_prefetch cfg h6
    (hw8.before (fetch_from_clusters_grows cfg _))
  have h8 := fetch_from_clusters_frame cfg (do_hardware_prefetch cfg (page_table_walk cfg
    (read_schedule cfg (read_done cfg (write_back_schedule cfg
      (write_back_done cfg (eviction_check cfg g)))))))
  refine ⟨coming_user_prefetch cfg ?_ ?_ hw, ?_⟩
  · rw [h8]
    exact h7.same (fun _ => id) (fun _ => rfl) rfl
  · rw [h8]
    exact hturn
  · change (user_prefetch cfg _).page_fault_this_turn.entries = []
    rw [user_prefetch_frame, h8]
    exact hturn

theorem ldst_cycle_migrationsFollow (g : Gpu) (sid : Nat) (p : Port) :
    MigrationsFollow g (ldst_cycle cfg g sid p) := by
  refine ldst_cycle_follows cfg (fun g sid => ?_) (fun g sid p => ?_) (fun g sid => ?_) g sid p
  · refine (access_cycle_grows cfg g sid).unnoticed fun h => h.same ?_ ?_ ?_ ?_ ?_
    · exact fun q hq => ((access_cycle_samePages cfg g sid).is_valid q).trans hq
    all_goals rw [access_cycle_frame]
  · refine (memory_cycle_grows cfg g sid p).unnoticed fun h => h.same ?_ ?_ ?_ ?_ ?_
    · exact fun q hq => ((memory_cycle_samePages cfg g sid p).is_valid q).trans hq
    all_goals rw [memory_cycle_frame]
  · exact (retire_grows g sid).unnoticed fun h => h.same (fun _ => id) rfl rfl rfl rfl

theorem perform_migrationsFollow (g : Gpu) (a : Action) : MigrationsFollow g (perform cfg g a) := by
  have hgrows := perform_grows cfg g a
  cases a with
  | cudaMallocManaged cpu size =>
    refine hgrows.unnoticed fun h => h.same (fun p hp => ?_) rfl rfl rfl rfl
    exact (is_valid_cudaMallocManaged cfg g cpu size p).trans hp
  | cudaDeviceSynchronize =>
    refine hgrows.unnoticed fun h => h.same (fun p hp => ?_) rfl rfl rfl rfl
    exact is_valid_invalidate_pages g.m_data _ hp
  | issue sid w bytes =>
    refine hgrows.unnoticed fun h => h.same (fun p hp => ?_) rfl rfl rfl rfl
    exact ((writeDevice_samePages cfg _ bytes).is_valid p).trans hp
  | do_atomic sid k bytes =>
    refine hgrows.unnoticed fun h => h.same (fun p hp => ?_) rfl rfl rfl rfl
    exact ((writeDevice_samePages cfg _ bytes).is_valid p).trans hp
  | ldst_cycle sid p => exact ldst_cycle_migrationsFollow cfg g sid p
  | gmmu_cycle => exact gmmu_cycle_migrationsFollow cfg g
  | cudaSetupArgument p =>
    refine hgrows.unnoticed fun h => ?_
    simp only [perform]
    rw [cudaSetupArgument_frame]
    exact h.same (fun _ => id) rfl rfl rfl rfl
  | cudaMemPrefetchAsync p n s =>
    refine hgrows.unnoticed fun h => ?_
    simp only [perform]
    rw [cudaMemPrefetchAsync_frame]
    exact h.same (fun _ => id) rfl rfl rfl rfl
  | icnt_cycle c =>
    refine hgrows.unnoticed fun h => ?_
    simp only [perform]
    rw [icnt_cycle_frame]
    exact h.same (fun _ => id) rfl rfl rfl rfl
  | answer sid k how =>
    refine hgrows.unnoticed fun h => ?_
    simp only [perform]
    rw [answer_frame]
    exact h.same (fun _ => id) rfl rfl rfl rfl
  | cudaMalloc _ | host_write _ _ | activate_prefetch _ _ _ | log_kernel_start _
  | log_kernel_finish _ | dispatch _ _ | tick =>
    exact hgrows.unnoticed fun h => h.same (fun _ => id) rfl rfl rfl rfl

/-! ## The law of the migrations -/

/-- A run that meets the condition: one page faults, and is queued. -/
def queuedFault : List Action :=
  [.cudaMallocManaged 65536 65536, .cudaSetupArgument 65536] ++
    loadOn 0 [pageAccess 0 .GLOBAL_ACC_R 1] ++ deviceCycles 2

/-- A page faults, and a user prefetch of its allocation becomes active before
the page has come. -/
def prefetchOverFault : List Action :=
  queuedFault ++ [.cudaMemPrefetchAsync 65536 65536 0,
    .activate_prefetch (GLOBAL_HEAP_START + GLOBAL_MEM_SIZE_MAX) 65536 0, .gmmu_cycle]

end gpgpu_sim_uvm
