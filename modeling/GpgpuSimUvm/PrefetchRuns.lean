-- The user prefetches of a run. A run is read as the events of its prefetch requests; each request
-- is worked off page by page in the order of the buffer, one chunk after the other.
import GpgpuSimUvm.PrefetchChunks

namespace gpgpu_sim_uvm

open monitor

/-! ## The events -/

/-- What a run does about its prefetch requests. -/
inductive PrefetchEvent
  | registered (q : PrefetchReq)
  /-- A migration to the GPU is complete. -/
  | transferred (pages : List Nat)
  /-- The loop came to a page, resident or not, queued for migration or not. -/
  | visited (page : Nat) (valid queued : Bool)
  | staged (t : PcieLatency)
  /-- `record_next_done`, and the request is taken out. -/
  | done (q : PrefetchReq)

def visitsOf : List PrefetchEvent → List (Nat × Bool × Bool) := List.filterMap fun
  | .visited page valid queued => some (page, valid, queued)
  | _ => none

def stagedOf : List PrefetchEvent → List PcieLatency := List.filterMap fun
  | .staged t => some t
  | _ => none

def registeredOf : List PrefetchEvent → List PrefetchReq := List.filterMap fun
  | .registered q => some q
  | _ => none

def doneOf : List PrefetchEvent → List PrefetchReq := List.filterMap fun
  | .done q => some q
  | _ => none

/-- What one event makes of the events since the last request was done. -/
def PrefetchEvent.since (es : List PrefetchEvent) : PrefetchEvent → List PrefetchEvent
  | .done _ => []
  | e => es ++ [e]

def since (es : List PrefetchEvent) : List PrefetchEvent := es.foldl PrefetchEvent.since []

/-- What one event makes of the chunk that is under way. -/
def PrefetchEvent.under (ps : List Nat) : PrefetchEvent → List Nat
  | .staged t => t.page_list
  | .transferred pages => if pages = ps then [] else ps
  | _ => ps

/-- The pages of the last chunk, none once it is transferred. -/
def underWay (es : List PrefetchEvent) : List Nat := es.foldl PrefetchEvent.under []

/-- The block works on a request. -/
def PrefetchEvent.isWork : PrefetchEvent → Bool
  | .visited _ _ _ => true
  | .staged _ => true
  | .done _ => true
  | _ => false

/-- What `register_prefetch` was called with. -/
def PrefetchReq.asked (q : PrefetchReq) : Nat × Nat × Nat × Nat :=
  (q.start_addr, q.size, q.allocation_addr, q.m_stream)

variable (cfg : Config)

def frontAddr (g : Gpu) : Nat := g.prefetch_req_buffer.head?.elim 0 PrefetchReq.cur_addr

/-- The work of the block, from the states before and behind it. -/
def workOf (g g' : Gpu) : List PrefetchEvent :=
  if g'.prefetch_req_buffer.length < g.prefetch_req_buffer.length then
    (g.prefetch_req_buffer.take 1).map .done
  else
    (pagesUpTo cfg (frontAddr g) (frontAddr g')).map (fun p =>
      .visited p (is_valid g p) (decide (p ∈ queuedPages g))) ++
        (g'.pcie_read_stage_queue.drop g.pcie_read_stage_queue.length).map .staged

/-- The migration that is complete, from the states before and behind `read_done`. -/
def arrivalsOf (g g' : Gpu) : List PrefetchEvent :=
  if g'.pcie_read_latency_queue.isNone then
    (g.pcie_read_latency_queue.toList.filter isMigration).map fun t => .transferred t.page_list
  else []

/-- The state in which a cycle comes to the read queues. -/
def beforeRead (g : Gpu) : Gpu :=
  write_back_schedule cfg (write_back_done cfg (eviction_check cfg g))

/-- The events of one step. -/
def observe (g : Gpu) : Action → List PrefetchEvent
  | .gmmu_cycle =>
    arrivalsOf (beforeRead cfg g) (read_done cfg (beforeRead cfg g)) ++
      workOf cfg (beforeUserPrefetch cfg g) (gmmu_cycle cfg g)
  | a =>
    ((perform cfg g a).prefetch_req_buffer.drop g.prefetch_req_buffer.length).map .registered

/-- The states of all runs whose steps meet a condition, with the events on the way. -/
inductive Logged (ok : Gpu → Action → Bool) : Gpu → List PrefetchEvent → Prop
  | boot : Logged ok (boot cfg) []
  | step {g g' : Gpu} {a : Action} {es : List PrefetchEvent} : Logged ok g es → ok g a = true →
      step cfg g a = some g' → Logged ok g' (es ++ observe cfg g a)

/-! ## What the events should be -/

/-- The pages lie in one 2MB piece of an allocation. -/
def InPiece (alloc : Nat) (ps : List Nat) : Prop :=
  ∃ k, ∀ p ∈ ps, alloc + k * MAX_PREFETCH_SIZE ≤ cfg.get_mem_addr p ∧
    cfg.get_mem_addr p + cfg.page_size ≤ alloc + (k + 1) * MAX_PREFETCH_SIZE

/-- A chunk of the request: a migration of at most 2MB, of pages of one piece. -/
structure ChunkOf (q : PrefetchReq) (t : PcieLatency) : Prop where
  type : t.type = .PCIE_READ
  nonempty : t.page_list ≠ []
  size : t.size = t.page_list.length * cfg.page_size ∧ t.size ≤ MAX_PREFETCH_SIZE
  piece : InPiece cfg q.allocation_addr t.page_list

/-- The work on a request so far: the pages up to its current address were visited one by one,
and those that were neither resident nor queued are the pages of its chunks. -/
structure Served (q : PrefetchReq) (es : List PrefetchEvent) : Prop where
  visits : (visitsOf es).map Prod.fst = pagesUpTo cfg q.start_addr q.cur_addr
  moved : (stagedOf es).flatMap PcieLatency.page_list =
    ((visitsOf es).filter fun v => !v.2.1 && !v.2.2).map Prod.fst
  chunks : ∀ t ∈ stagedOf es, ChunkOf cfg q t

/-- Each request is served from its start to where it is now, or to its end when it is done;
the next work on a request comes behind the transfer of its last chunk; each request that was
registered is done once, in turn, or still in the buffer; and no fetch was lost with one. -/
structure PrefetchesServed (g : Gpu) (es : List PrefetchEvent) : Prop where
  front : ∀ q, g.prefetch_req_buffer.head? = some q →
    Served cfg q (since es) ∧ q.cur_addr ≤ q.start_addr + q.size
  finished : ∀ pre q post, es = pre ++ .done q :: post →
    Served cfg q (since pre) ∧ q.cur_addr = q.start_addr + q.size
  order : ∀ pre e post, es = pre ++ e :: post → e.isWork = true → underWay pre = []
  once : (registeredOf es).map PrefetchReq.asked =
    (doneOf es ++ g.prefetch_req_buffer).map PrefetchReq.asked
  replayed : Kept cfg g

/-- The block makes headway whenever the request in front is ready for its next chunk. -/
def MakesHeadway (g : Gpu) : Prop :=
  ∀ q, (beforeUserPrefetch cfg g).prefetch_req_buffer.head? = some q → q.ready = true →
    if q.cur_addr = q.start_addr + q.size then .done q ∈ observe cfg g .gmmu_cycle
    else ∃ page valid queued, .visited page valid queued ∈ observe cfg g .gmmu_cycle

variable {cfg}

/-! ## Logs that grow -/

/-- An event of a log that grew is an old one or a new one. -/
theorem event_of_append {A : Type} {es fs pre post : List A} {e : A}
    (h : es ++ fs = pre ++ e :: post) :
    (∃ post', es = pre ++ e :: post') ∨ ∃ pre', pre = es ++ pre' ∧ fs = pre' ++ e :: post := by
  rcases List.append_eq_append_iff.mp h with ⟨pre', hpre, hfs⟩ | ⟨mid, hes, hmid⟩
  · exact Or.inr ⟨pre', hpre, hfs⟩
  · cases mid with
    | nil =>
      rw [List.append_nil] at hes
      exact Or.inr ⟨[], by rw [hes, List.append_nil], hmid.symm⟩
    | cons a mid =>
      rw [List.cons_append, List.cons.injEq] at hmid
      rw [hmid.1]
      exact Or.inl ⟨mid, hes⟩

theorem underWay_append (es fs : List PrefetchEvent) :
    underWay (es ++ fs) = fs.foldl PrefetchEvent.under (underWay es) := by
  rw [underWay, underWay, List.foldl_append]

theorem since_append (es fs : List PrefetchEvent) :
    since (es ++ fs) = fs.foldl PrefetchEvent.since (since es) := by
  rw [since, since, List.foldl_append]

/-- Events that end no request join those since the last one. -/
theorem since_goes_on {es fs : List PrefetchEvent} (h : ∀ q, .done q ∉ fs) :
    since (es ++ fs) = since es ++ fs := by
  rw [since_append]
  generalize since es = ds
  induction fs generalizing ds with
  | nil => exact (List.append_nil ds).symm
  | cons f fs ih =>
    have hstep : PrefetchEvent.since ds f = ds ++ [f] := by
      cases f with
      | done q => exact absurd List.mem_cons_self (h q)
      | _ => rfl
    rw [List.foldl_cons, hstep, ih fun q hq => h q (List.mem_cons_of_mem _ hq), List.append_assoc]
    rfl

variable (cfg) in
/-- What a log says by itself: `finished`, `order` and `once` of `PrefetchesServed`. -/
structure LogKept (buffer : List PrefetchReq) (es : List PrefetchEvent) : Prop where
  finished : ∀ pre q post, es = pre ++ .done q :: post →
    Served cfg q (since pre) ∧ q.cur_addr = q.start_addr + q.size
  order : ∀ pre e post, es = pre ++ e :: post → e.isWork = true → underWay pre = []
  once : (registeredOf es).map PrefetchReq.asked =
    (doneOf es ++ buffer).map PrefetchReq.asked

theorem LogKept.append {buffer buffer' : List PrefetchReq} {es fs : List PrefetchEvent}
    (h : LogKept cfg buffer es)
    (hfinished : ∀ pre q post, fs = pre ++ .done q :: post →
      Served cfg q (since (es ++ pre)) ∧ q.cur_addr = q.start_addr + q.size)
    (horder : ∀ pre e post, fs = pre ++ e :: post → e.isWork = true → underWay (es ++ pre) = [])
    (honce : (buffer ++ registeredOf fs).map PrefetchReq.asked =
      (doneOf fs ++ buffer').map PrefetchReq.asked) :
    LogKept cfg buffer' (es ++ fs) := by
  refine ⟨?_, ?_, ?_⟩
  · intro pre q post heq
    rcases event_of_append heq with ⟨post', hes⟩ | ⟨pre', rfl, hfs⟩
    · exact h.finished pre q post' hes
    · exact hfinished pre' q post hfs
  · intro pre e post heq hwork
    rcases event_of_append heq with ⟨post', hes⟩ | ⟨pre', rfl, hfs⟩
    · exact h.order pre e post' hes hwork
    · exact horder pre' e post hfs hwork
  · have hregistered : registeredOf (es ++ fs) = registeredOf es ++ registeredOf fs :=
      List.filterMap_append ..
    have hdone : doneOf (es ++ fs) = doneOf es ++ doneOf fs := List.filterMap_append ..
    rw [hregistered, hdone, List.map_append, h.once, ← List.map_append, List.append_assoc,
      List.map_append, honce, ← List.map_append, List.append_assoc]

/-! ## The invariant -/

/-- A request on which the block did not work yet. -/
def PrefetchReq.Untouched (q : PrefetchReq) : Prop :=
  q.cur_addr = q.start_addr ∧ q.pending_prefetch = []

variable (cfg) in
/-- The fetches that wait with a request wait for pages that it did not come to yet. -/
structure Waits (q : PrefetchReq) : Prop where
  some_pages : 0 < q.size
  whole : cfg.page_size ∣ q.start_addr + q.size
  allocation : cfg.page_size ∣ q.allocation_addr
  inside : q.allocation_addr ≤ q.start_addr
  parked : ∀ p, q.incoming_replayable_nacks.contains p = true →
    cfg.get_page_num q.cur_addr ≤ p ∧ p < cfg.get_page_num (q.start_addr + q.size)

variable (cfg) in
/-- The pages that the request waits for are those of its last chunk, which is under way. -/
structure Leads (g : Gpu) (es : List PrefetchEvent) (q : PrefetchReq) : Prop where
  served : Served cfg q (since es)
  pending : underWay es = q.pending_prefetch
  queued : q.pending_prefetch ≠ [] → ∃ t ∈ g.pcie_read_latency_queue.toList ++
    g.pcie_read_stage_queue, isMigration t = true ∧ t.page_list = q.pending_prefetch
  inactive : q.active = false → q.Untouched

variable (cfg) in
structure Serving (g : Gpu) (es : List PrefetchEvent) : Prop where
  front : ∀ q, g.prefetch_req_buffer.head? = some q → Leads cfg g es q
  none : g.prefetch_req_buffer = [] →
    visitsOf (since es) = [] ∧ stagedOf (since es) = [] ∧ underWay es = []
  behind : ∀ q ∈ g.prefetch_req_buffer.tail, q.Untouched
  requests : ∀ q ∈ g.prefetch_req_buffer, Waits cfg q
  log : LogKept cfg g.prefetch_req_buffer es
  lost : g.lost = []

variable {g g' : Gpu} {es : List PrefetchEvent}

theorem Served.of_same {q q' : PrefetchReq} {es fs : List PrefetchEvent} (h : Served cfg q es)
    (hstart : q'.start_addr = q.start_addr) (hcur : q'.cur_addr = q.cur_addr)
    (halloc : q'.allocation_addr = q.allocation_addr) (hvisits : visitsOf fs = visitsOf es)
    (hstaged : stagedOf fs = stagedOf es) : Served cfg q' fs := by
  refine ⟨?_, ?_, ?_⟩
  · rw [hvisits, hstart, hcur]
    exact h.visits
  · rw [hvisits, hstaged]
    exact h.moved
  · rw [hstaged]
    intro t ht
    obtain ⟨htype, hne, hsize, hpiece⟩ := h.chunks t ht
    exact ⟨htype, hne, hsize, halloc ▸ hpiece⟩

/-- A request of which the block notices nothing new. -/
structure PrefetchReq.Alike (q q' : PrefetchReq) : Prop where
  asked : q'.asked = q.asked
  cur : q'.cur_addr = q.cur_addr
  pending : q'.pending_prefetch = q.pending_prefetch
  inactive : q'.active = false → q.active = false

theorem PrefetchReq.Alike.refl (q : PrefetchReq) : q.Alike q := ⟨rfl, rfl, rfl, id⟩

theorem PrefetchReq.Alike.untouched {q q' : PrefetchReq} (h : q.Alike q') (hq : q.Untouched) :
    q'.Untouched := by
  have hasked := h.asked
  simp only [PrefetchReq.asked, Prod.mk.injEq] at hasked
  exact ⟨h.cur.trans (hq.1.trans hasked.1.symm), h.pending.trans hq.2⟩

theorem asked_of_alike {qs qs' : List PrefetchReq} (h : List.Forall₂ PrefetchReq.Alike qs qs') :
    qs'.map PrefetchReq.asked = qs.map PrefetchReq.asked := by
  induction h with
  | nil => rfl
  | cons hq _ ih => rw [List.map_cons, List.map_cons, hq.asked, ih]

theorem untouched_of_alike {qs qs' : List PrefetchReq} (h : List.Forall₂ PrefetchReq.Alike qs qs')
    (hqs : ∀ q ∈ qs, q.Untouched) : ∀ q ∈ qs', q.Untouched := by
  induction h with
  | nil => exact fun q hq => nomatch hq
  | cons hq _ ih =>
    obtain ⟨hfirst, hrest⟩ := List.forall_mem_cons.mp hqs
    exact List.forall_mem_cons.mpr ⟨hq.untouched hfirst, ih hrest⟩

/-- The block notices no change of the requests, and the queues keep the migrations that are
under way. -/
theorem Serving.changed (h : Serving cfg g es)
    (hbuffer : List.Forall₂ PrefetchReq.Alike g.prefetch_req_buffer g'.prefetch_req_buffer)
    (hwaits : ∀ q ∈ g'.prefetch_req_buffer, Waits cfg q) (hlost : g'.lost = g.lost)
    (hqueues : ∀ t ∈ g.pcie_read_latency_queue.toList ++ g.pcie_read_stage_queue,
      isMigration t = true → ∃ t' ∈ g'.pcie_read_latency_queue.toList ++ g'.pcie_read_stage_queue,
        isMigration t' = true ∧ t'.page_list = t.page_list) : Serving cfg g' es := by
  have hlog : LogKept cfg g'.prefetch_req_buffer es := by
    refine ⟨h.log.finished, h.log.order, ?_⟩
    rw [h.log.once, List.map_append, List.map_append, asked_of_alike hbuffer]
  cases hold : g.prefetch_req_buffer with
  | nil =>
    rw [hold, List.forall₂_nil_left_iff] at hbuffer
    refine ⟨fun q hq => ?_, fun _ => h.none hold, fun q hq => ?_, hwaits, hlog,
      hlost.trans h.lost⟩
    · rw [hbuffer] at hq
      cases hq
    · rw [hbuffer] at hq
      cases hq
  | cons q rest =>
    have hbehind := h.behind
    rw [hold] at hbuffer hbehind
    obtain ⟨q', rest', halike, hrest, hnew⟩ := List.forall₂_cons_left_iff.mp hbuffer
    refine ⟨fun q1 hq1 => ?_, fun hnil => ?_, ?_, hwaits, hlog, hlost.trans h.lost⟩
    · rw [hnew] at hq1
      cases hq1
      obtain ⟨hserved, hpending, hqueued, hinactive⟩ := h.front q (by rw [hold]; rfl)
      have hasked := halike.asked
      simp only [PrefetchReq.asked, Prod.mk.injEq] at hasked
      refine ⟨hserved.of_same hasked.1 halike.cur hasked.2.2.1 rfl rfl, ?_, fun hne => ?_, ?_⟩
      · rw [halike.pending]
        exact hpending
      · rw [halike.pending] at hne ⊢
        obtain ⟨t, ht, hmig, hpages⟩ := hqueued hne
        obtain ⟨t', ht', hmig', hpages'⟩ := hqueues t ht hmig
        exact ⟨t', ht', hmig', hpages'.trans hpages⟩
      · exact fun hoff => halike.untouched (hinactive (halike.inactive hoff))
    · rw [hnew] at hnil
      cases hnil
    · rw [hnew]
      exact untouched_of_alike hrest hbehind

theorem Serving.next (h : Serving cfg g es)
    (hbuffer : g'.prefetch_req_buffer = g.prefetch_req_buffer) (hlost : g'.lost = g.lost)
    (hqueues : ∀ t ∈ g.pcie_read_latency_queue.toList ++ g.pcie_read_stage_queue,
      isMigration t = true → ∃ t' ∈ g'.pcie_read_latency_queue.toList ++ g'.pcie_read_stage_queue,
        isMigration t' = true ∧ t'.page_list = t.page_list) : Serving cfg g' es := by
  apply h.changed
  · rw [hbuffer]
    exact List.forall₂_same.mpr fun q _ => PrefetchReq.Alike.refl q
  · rw [hbuffer]
    exact h.requests
  · exact hlost
  · exact hqueues

/-- What is appended to the stage queue does not hide the migrations before it. -/
theorem Serving.staged (h : Serving cfg g es)
    (hbuffer : List.Forall₂ PrefetchReq.Alike g.prefetch_req_buffer g'.prefetch_req_buffer)
    (hwaits : ∀ q ∈ g'.prefetch_req_buffer, Waits cfg q) (hlost : g'.lost = g.lost)
    (hlatency : g'.pcie_read_latency_queue = g.pcie_read_latency_queue)
    (hstage : ∃ ts, g'.pcie_read_stage_queue = g.pcie_read_stage_queue ++ ts) :
    Serving cfg g' es := by
  obtain ⟨ts, hstage⟩ := hstage
  refine h.changed hbuffer hwaits hlost fun t ht hmig => ⟨t, ?_, hmig, rfl⟩
  rw [hlatency, hstage, ← List.append_assoc]
  exact List.mem_append_left _ ht

/-- A step that neither the requests nor the read queues notice. -/
theorem Serving.same (h : Serving cfg g es)
    (hbuffer : g'.prefetch_req_buffer = g.prefetch_req_buffer) (hlost : g'.lost = g.lost)
    (hstage : g'.pcie_read_stage_queue = g.pcie_read_stage_queue)
    (hlatency : g'.pcie_read_latency_queue = g.pcie_read_latency_queue) :
    Serving cfg g' es := by
  apply h.next hbuffer hlost
  rw [hstage, hlatency]
  exact fun t ht hmig => ⟨t, ht, hmig, rfl⟩

/-! ## Migrations that are complete -/

variable (cfg) in
/-- The request in front waits for the completed pages no more. -/
theorem completePages_buffer (ps : List Nat) (g : Gpu) :
    ∃ out : PrefetchReq → StdMap Nat (List MemFetch), (ps.foldl (completePage cfg) g).prefetch_req_buffer =
      g.prefetch_req_buffer.modifyHead fun q => { q with
        pending_prefetch := ps.foldl List.erase q.pending_prefetch,
        outgoing_replayable_nacks := out q } := by
  induction ps generalizing g with
  | nil =>
    refine ⟨fun q => q.outgoing_replayable_nacks, ?_⟩
    cases hbuffer : g.prefetch_req_buffer <;> simp [hbuffer]
  | cons p ps ih =>
    have hone : ∃ out : PrefetchReq → StdMap Nat (List MemFetch),
        (completePage cfg g p).prefetch_req_buffer = g.prefetch_req_buffer.modifyHead fun q =>
          { q with
            pending_prefetch := q.pending_prefetch.erase p
            outgoing_replayable_nacks := out q } := by
      have htaken : (admitPage cfg g p).prefetch_req_buffer = g.prefetch_req_buffer := rfl
      have hfaulted : (completePage cfg g p).prefetch_req_buffer =
          (completePrefetched (admitPage cfg g p) p).prefetch_req_buffer := by
        unfold completePage completeFaulted
        rw [replay_foldl_frame]
      rw [hfaulted]
      unfold completePrefetched
      rw [htaken]
      cases hbuffer : g.prefetch_req_buffer with
      | nil => exact ⟨fun q => q.outgoing_replayable_nacks, htaken.trans hbuffer⟩
      | cons q rest =>
        dsimp only
        split_ifs with hp
        · exact ⟨fun q => q.outgoing_replayable_nacks.alter p []
            (· ++ (admitPage cfg g p).req_info.findD p []), rfl⟩
        · refine ⟨fun q => q.outgoing_replayable_nacks, ?_⟩
          rw [htaken, hbuffer, List.modifyHead_cons, List.erase_of_not_mem hp]
    obtain ⟨out, hout⟩ := hone
    obtain ⟨out', hout'⟩ := ih (completePage cfg g p)
    rw [List.foldl_cons, hout', hout]
    cases g.prefetch_req_buffer with
    | nil => exact ⟨out, rfl⟩
    | cons q rest =>
      exact ⟨fun q => out' { q with
        pending_prefetch := q.pending_prefetch.erase p, outgoing_replayable_nacks := out q }, rfl⟩

theorem erase_all (ps : List Nat) : ps.foldl List.erase ps = [] := by
  induction ps with
  | nil => rfl
  | cons p ps ih => rw [List.foldl_cons, List.erase_cons_head, ih]

theorem erase_none {ps qs : List Nat} (h : ∀ p ∈ ps, p ∉ qs) : ps.foldl List.erase qs = qs := by
  induction ps with
  | nil => rfl
  | cons p ps ih =>
    rw [List.foldl_cons, List.erase_of_not_mem (h p List.mem_cons_self)]
    exact ih fun p' hp' => h p' (List.mem_cons_of_mem _ hp')

theorem since_transferred (es : List PrefetchEvent) (ps : List Nat) :
    visitsOf (since (es ++ [.transferred ps])) = visitsOf (since es) ∧
      stagedOf (since (es ++ [.transferred ps])) = stagedOf (since es) := by
  have hsince : since (es ++ [.transferred ps]) = since es ++ [.transferred ps] :=
    since_goes_on fun q hq => nomatch List.mem_singleton.mp hq
  rw [hsince]
  exact ⟨List.filterMap_append.trans (List.append_nil _),
    List.filterMap_append.trans (List.append_nil _)⟩

theorem LogKept.transferred {buffer buffer' : List PrefetchReq} (h : LogKept cfg buffer es)
    (ps : List Nat) (hasked : buffer'.map PrefetchReq.asked = buffer.map PrefetchReq.asked) :
    LogKept cfg buffer' (es ++ [.transferred ps]) := by
  apply h.append
  · intro pre q post heq
    have hmem : PrefetchEvent.done q ∈ [PrefetchEvent.transferred ps] := by
      rw [heq]
      exact List.mem_append_right _ List.mem_cons_self
    exact nomatch List.mem_singleton.mp hmem
  · intro pre e post heq hwork
    have hmem : e ∈ [PrefetchEvent.transferred ps] := by
      rw [heq]
      exact List.mem_append_right _ List.mem_cons_self
    rw [List.mem_singleton.mp hmem] at hwork
    cases hwork
  · exact (congrArg _ (List.append_nil _)).trans hasked.symm

/-- Pages arrive: those of the chunk that the request in front waits for, or others. -/
theorem Serving.arrive (h : Serving cfg g es) {ps : List Nat}
    (hbuffer : ∃ out : PrefetchReq → StdMap Nat (List MemFetch),
      g'.prefetch_req_buffer = g.prefetch_req_buffer.modifyHead fun q => { q with
        pending_prefetch := ps.foldl List.erase q.pending_prefetch,
        outgoing_replayable_nacks := out q })
    (hlost : g'.lost = g.lost)
    (hfront : ∀ q, g.prefetch_req_buffer.head? = some q → q.pending_prefetch = ps ∨
      (∀ p ∈ ps, p ∉ q.pending_prefetch) ∧ (q.pending_prefetch ≠ [] → ps ≠ q.pending_prefetch ∧
        ∃ t ∈ g'.pcie_read_latency_queue.toList ++ g'.pcie_read_stage_queue,
          isMigration t = true ∧ t.page_list = q.pending_prefetch)) :
    Serving cfg g' (es ++ [.transferred ps]) := by
  obtain ⟨out, hbuffer⟩ := hbuffer
  obtain ⟨hvisits, hstaged⟩ := since_transferred es ps
  have hunder : underWay (es ++ [.transferred ps]) =
      if ps = underWay es then [] else underWay es := by
    rw [underWay_append]
    rfl
  cases hold : g.prefetch_req_buffer with
  | nil =>
    rw [hold] at hbuffer
    obtain ⟨hnovisit, hnostage, hnone⟩ := h.none hold
    have hlog := h.log
    rw [hold] at hlog
    refine ⟨?_, ?_, ?_, ?_, ?_, hlost.trans h.lost⟩
    · rw [hbuffer]
      exact fun q hq => nomatch hq
    · intro _
      rw [hvisits, hstaged, hunder, hnone, ite_self]
      exact ⟨hnovisit, hnostage, rfl⟩
    · rw [hbuffer]
      exact fun q hq => nomatch hq
    · rw [hbuffer]
      exact fun q hq => nomatch hq
    · rw [hbuffer]
      exact hlog.transferred ps rfl
  | cons q rest =>
    rw [hold, List.modifyHead_cons] at hbuffer
    have hhead : g.prefetch_req_buffer.head? = some q := by rw [hold]; rfl
    have hlead := h.front q hhead
    have hlog := h.log
    have hbehind := h.behind
    have hrequests := h.requests
    rw [hold] at hlog hbehind hrequests
    refine ⟨?_, ?_, ?_, ?_, ?_, hlost.trans h.lost⟩
    · intro q' hq'
      rw [hbuffer] at hq'
      cases hq'
      have hpending : ps.foldl List.erase q.pending_prefetch = [] ∨
          ps.foldl List.erase q.pending_prefetch = q.pending_prefetch := by
        rcases hfront q hhead with heq | ⟨hapart, -⟩
        · left
          rw [heq, erase_all]
        · exact Or.inr (erase_none hapart)
      refine ⟨hlead.served.of_same rfl rfl rfl hvisits hstaged, ?_, ?_, ?_⟩
      · rw [hunder, hlead.pending]
        rcases hfront q hhead with heq | ⟨hapart, hother⟩
        · rw [if_pos heq.symm, heq, erase_all]
        · rw [erase_none hapart]
          split_ifs with heq
          · by_contra hne
            exact (hother (Ne.symm hne)).1 heq
          · rfl
      · intro hne
        rcases hfront q hhead with heq | ⟨hapart, hother⟩
        · rw [heq, erase_all] at hne
          exact absurd rfl hne
        · rw [erase_none hapart] at hne ⊢
          exact (hother hne).2
      · intro hinactive
        obtain ⟨hcur, hnone⟩ := hlead.inactive hinactive
        refine ⟨hcur, ?_⟩
        rcases hpending with heq | heq
        · exact heq
        · exact heq.trans hnone
    · rw [hbuffer]
      exact fun hnil => nomatch hnil
    · rw [hbuffer]
      exact hbehind
    · rw [hbuffer]
      intro q' hq'
      rcases List.mem_cons.mp hq' with rfl | hq'
      · obtain ⟨hsome, hwhole, halloc, hinside, hparked⟩ := hrequests q List.mem_cons_self
        exact ⟨hsome, hwhole, halloc, hinside, hparked⟩
      · exact hrequests q' (List.mem_cons_of_mem _ hq')
    · rw [hbuffer]
      exact hlog.transferred ps rfl

theorem Serving.read_done (h : Serving cfg g es) (honce : (queuedPages g).Nodup) :
    Serving cfg (read_done cfg g) (es ++ arrivalsOf g (read_done cfg g)) := by
  cases hlatency : g.pcie_read_latency_queue with
  | none =>
    have hidle : gpgpu_sim_uvm.read_done cfg g = g := by
      unfold gpgpu_sim_uvm.read_done
      rw [hlatency]
    rw [hidle, arrivalsOf, hlatency, Option.isNone_none, if_pos rfl]
    exact (List.append_nil es).symm ▸ h
  | some t =>
    by_cases hready : t.ready_cycle ≤ g.sim_cycle
    · have hdone : gpgpu_sim_uvm.read_done cfg g =
          { finishRead cfg g t with pcie_read_latency_queue := Option.none } := by
        unfold gpgpu_sim_uvm.read_done
        rw [hlatency]
        exact if_pos hready
      have hlost : (gpgpu_sim_uvm.read_done cfg g).lost = g.lost := by rw [read_done_frame]
      have hstage : (gpgpu_sim_uvm.read_done cfg g).pcie_read_stage_queue =
          g.pcie_read_stage_queue := by rw [read_done_frame]
      have hempty : (gpgpu_sim_uvm.read_done cfg g).pcie_read_latency_queue = Option.none := by rw [hdone]
      rw [arrivalsOf, hempty, hlatency, Option.isNone_none, if_pos rfl, Option.toList_some]
      by_cases hmig : isMigration t = true
      · have htype : t.type = .PCIE_READ := of_decide_eq_true hmig
        rw [List.filter_cons_of_pos hmig, List.filter_nil, List.map_cons, List.map_nil]
        apply h.arrive
        · rw [hdone]
          simp only [finishRead, htype]
          exact completePages_buffer cfg t.page_list g
        · exact hlost
        · intro q hq
          obtain ⟨-, -, hqueued, -⟩ := h.front q hq
          by_cases hne : q.pending_prefetch = []
          · right
            rw [hne]
            exact ⟨fun p _ hp => (nomatch hp), fun hnot => absurd rfl hnot⟩
          · obtain ⟨t', ht', hmig', hpages⟩ := hqueued hne
            rw [hlatency, Option.toList_some, List.singleton_append] at ht'
            rcases List.mem_cons.mp ht' with rfl | ht'
            · exact Or.inl hpages.symm
            · -- no page is queued twice
              right
              rw [queuedPages, hlatency, Option.toList_some, List.singleton_append,
                pagesQueued_cons, if_pos hmig] at honce
              have hapart : ∀ p ∈ t.page_list, p ∉ q.pending_prefetch := by
                intro p hp hin
                refine (List.nodup_append.mp honce).2.2 p hp p ?_ rfl
                exact List.mem_flatMap.mpr
                  ⟨t', List.mem_filter.mpr ⟨ht', hmig'⟩, hpages.symm ▸ hin⟩
              refine ⟨hapart, fun _ => ⟨fun heq => ?_, t', ?_, hmig', hpages⟩⟩
              · obtain ⟨p, rest, hcons⟩ := List.exists_cons_of_ne_nil hne
                have hp : p ∈ q.pending_prefetch := by
                  rw [hcons]
                  exact List.mem_cons_self
                exact hapart p (heq ▸ hp) hp
              · rw [hempty, hstage]
                exact ht'
      · rw [List.filter_cons_of_neg hmig, List.filter_nil, List.map_nil, List.append_nil]
        refine h.next ?_ hlost ?_
        · rw [hdone]
          have hother : t.type ≠ .PCIE_READ := fun heq => hmig (decide_eq_true heq)
          unfold finishRead
          split
          · exact absurd ‹_› hother
          · cases t.mf <;> rfl
          · rfl
        · intro t' ht' hmig'
          rw [hlatency, Option.toList_some, List.singleton_append] at ht'
          rcases List.mem_cons.mp ht' with rfl | ht'
          · exact absurd hmig' hmig
          · refine ⟨t', ?_, hmig', rfl⟩
            rw [hempty, hstage]
            exact ht'
    · have hidle : gpgpu_sim_uvm.read_done cfg g = g := by
        unfold gpgpu_sim_uvm.read_done
        rw [hlatency]
        exact if_neg hready
      rw [hidle, arrivalsOf, hlatency, Option.isNone_some, if_neg Bool.false_ne_true]
      exact (List.append_nil es).symm ▸ h

/-! ## The other parts of a cycle -/

/-- A migration moves from one read queue to the other, or stays. -/
theorem Serving.read_schedule (h : Serving cfg g es) :
    Serving cfg (read_schedule cfg g) es := by
  refine h.next ?_ ?_ ?_
  · rw [read_schedule_frame]
  · rw [read_schedule_frame]
  intro t ht hmig
  unfold gpgpu_sim_uvm.read_schedule
  split
  · rename_i front rest hstage hlatency
    split_ifs
    · rw [hlatency, hstage] at ht
      dsimp only
      let isDma := fun t : PcieLatency => decide (t.type = .DMA)
      have hother : ¬ isDma t = true := by
        have htype : t.type = .PCIE_READ := of_decide_eq_true hmig
        simp [isDma, htype]
      cases hfind : (front :: rest).find? isDma with
      | none =>
        have hnone : (front :: rest).any isDma = false := by
          simpa using List.find?_eq_none.mp hfind
        obtain ⟨htype, hpages⟩ := startRead_same cfg g front
        rw [hnone]
        rcases List.mem_cons.mp ht with rfl | ht
        · refine ⟨startRead cfg g t, List.mem_append_left _ List.mem_cons_self, ?_, hpages⟩
          rw [isMigration, htype]
          exact hmig
        · exact ⟨t, List.mem_append_right _ ht, hmig, rfl⟩
      | some d =>
        have hany : (front :: rest).any isDma = true :=
          List.any_eq_true.mpr ⟨d, List.mem_of_find?_eq_some hfind, List.find?_some hfind⟩
        rw [hany]
        refine ⟨t, List.mem_append_right _ ?_, hmig, rfl⟩
        exact (List.mem_eraseP_of_neg hother).mpr ht
    · exact ⟨t, ht, hmig, rfl⟩
  · exact ⟨t, ht, hmig, rfl⟩

theorem Serving.do_hardware_prefetch (h : Serving cfg g es) :
    Serving cfg (do_hardware_prefetch cfg g) es := by
  have hstage : ∃ ts, (gpgpu_sim_uvm.do_hardware_prefetch cfg g).pcie_read_stage_queue =
      g.pcie_read_stage_queue ++ ts := by
    simp only [gpgpu_sim_uvm.do_hardware_prefetch]
    split
    · exact ⟨[], (List.append_nil _).symm⟩
    · refine ⟨(chooseMigrations cfg g).2.transfers.flatMap fun t =>
        splitTransfer cfg t.1 [] t.2, ?_⟩
      rw [noteOversubscription_frame]
      unfold stageTurn
      rw [fileFaults_frame]
      dsimp only
      rw [chooseMigrations_frame]
  have hbuffer : (gpgpu_sim_uvm.do_hardware_prefetch cfg g).prefetch_req_buffer =
      g.prefetch_req_buffer := by rw [do_hardware_prefetch_frame]
  refine h.staged ?_ (hbuffer ▸ h.requests) ?_ ?_ hstage
  · rw [hbuffer]
    exact List.forall₂_same.mpr fun q _ => PrefetchReq.Alike.refl q
  · rw [do_hardware_prefetch_frame]
  · rw [do_hardware_prefetch_frame]

end gpgpu_sim_uvm
