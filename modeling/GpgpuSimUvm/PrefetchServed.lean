-- The cycles of a run with user prefetches. The walks of a cycle park fetches with the requests,
-- its last part goes on with the request in front, and the events of the cycle say so.
import GpgpuSimUvm.PrefetchRuns

namespace gpgpu_sim_uvm

open monitor

variable (cfg : Config)

/-! ## When the prefetches are served -/

/-- The fetches that a cycle walks for. -/
def walking (g : Gpu) : List MemFetch :=
  (g.page_table_walk_queue.takeWhile fun e => decide (e.2 ≤ g.sim_cycle)).map Prod.fst

/-- The walk parks the fetch with no request that has passed the page. -/
def parksAhead (g : Gpu) (mf : MemFetch) : Bool :=
  is_valid g (fetchPage cfg mf) || g.req_info.contains (fetchPage cfg mf) ||
    g.prefetch_req_buffer.all fun q =>
      !q.covers mf.access.addr || decide (cfg.get_page_num q.cur_addr ≤ fetchPage cfg mf)

/-- No fetch waits with the request in front for a resident page that the loop comes to. -/
def comesInTime (g : Gpu) : Bool :=
  g.prefetch_req_buffer.head?.all fun q =>
    !q.ready || q.incoming_replayable_nacks.keys.all fun p =>
      !(comesTo cfg g q p && is_valid g p)

/-- The state in which a cycle comes to the page table walk. -/
def beforeWalk (g : Gpu) : Gpu := read_schedule cfg (read_done cfg (beforeRead cfg g))

/-- No fetch is parked too late, no parked page comes too early, and with 2MB pages prefetches are
for allocations that start with a page. -/
def servesPrefetches (g : Gpu) : Action → Bool
  | .gmmu_cycle =>
    (walking (beforeWalk cfg g)).all (parksAhead cfg (beforeWalk cfg g)) &&
      comesInTime cfg (beforeUserPrefetch cfg g)
  | .cudaMemPrefetchAsync devPtr count _ =>
    decide (cfg.page_size = 4096) || g.managedAllocations.all fun a =>
      !decide (a.cpu_mem_addr ≤ devPtr ∧ devPtr + count ≤ a.cpu_mem_addr + a.allocation_size) ||
        decide (cfg.page_size ∣ a.gpu_mem_addr)
  | _ => true

variable {cfg} {g g' : Gpu} {es : List PrefetchEvent}

/-! ## The walk -/

/-- The requests once a fetch is parked with one of them. -/
theorem parkFetch_alike (mf : MemFetch) (page : Nat) (qs : List PrefetchReq) :
    List.Forall₂ PrefetchReq.Alike qs (parkFetch mf page qs) := by
  induction qs with
  | nil => exact .nil
  | cons q qs ih =>
    unfold parkFetch
    split
    · exact .cons ⟨rfl, rfl, rfl, id⟩ (List.forall₂_same.mpr fun q _ => PrefetchReq.Alike.refl q)
    · exact .cons (PrefetchReq.Alike.refl q) ih

theorem waits_parkFetch {mf : MemFetch} {page : Nat} {qs : List PrefetchReq}
    (hpage : cfg.get_page_num mf.access.addr = page) (hwaits : ∀ q ∈ qs, Waits cfg q)
    (hahead : ∀ q ∈ qs, q.covers mf.access.addr = true → cfg.get_page_num q.cur_addr ≤ page) :
    ∀ q ∈ parkFetch mf page qs, Waits cfg q := by
  induction qs with
  | nil => exact fun q hq => nomatch hq
  | cons q qs ih =>
    obtain ⟨hq, hrest⟩ := List.forall_mem_cons.mp hwaits
    obtain ⟨hfirst, hlater⟩ := List.forall_mem_cons.mp hahead
    unfold parkFetch
    split
    · rename_i hcovers
      refine List.forall_mem_cons.mpr ⟨?_, hrest⟩
      refine ⟨hq.some_pages, hq.whole, hq.allocation, hq.inside, fun p hp => ?_⟩
      rw [StdMap.contains_alter, Bool.or_eq_true, decide_eq_true_eq] at hp
      rcases hp with rfl | hp
      · refine ⟨hfirst hcovers, ?_⟩
        rw [PrefetchReq.covers, decide_eq_true_eq] at hcovers
        rw [← hpage, Config.get_page_num, Config.get_page_num,
          Nat.div_lt_iff_lt_mul cfg.page_size_pos, Nat.div_mul_cancel hq.whole]
        exact hcovers.2
      · exact hq.parked p hp
    · exact List.forall_mem_cons.mpr ⟨hq, ih hrest hlater⟩

variable (cfg) in
/-- The walk of one fetch changes neither what is resident nor what is asked for. -/
theorem walkFetch_asks (mf : MemFetch) (g : Gpu) :
    (∀ p, is_valid (walkFetch cfg g mf) p = is_valid g p) ∧
      (∀ p, (walkFetch cfg g mf).req_info.contains p = g.req_info.contains p) ∧
      List.Forall₂ PrefetchReq.Alike g.prefetch_req_buffer
        (walkFetch cfg g mf).prefetch_req_buffer := by
  have hrefl := List.forall₂_same.mpr fun q (_ : q ∈ g.prefetch_req_buffer) =>
    PrefetchReq.Alike.refl q
  unfold walkFetch
  split
  · have hframe := check_write_stage_queue_frame cfg (popWalk cfg g mf)
      (cfg.get_page_num mf.access.addr)
    have hsame := check_write_stage_queue_samePages cfg (popWalk cfg g mf)
      (cfg.get_page_num mf.access.addr)
    refine ⟨fun p => hsame.is_valid p, fun p => ?_, ?_⟩
    · rw [hframe]
      rfl
    · rw [hframe]
      exact hrefl
  · rename_i page rest hfaulty
    unfold fileFetch
    split
    · rename_i hreq
      refine ⟨fun p => rfl, fun p => ?_, hrefl⟩
      change (g.req_info.alter page [] (· ++ [mf])).contains p = _
      rw [StdMap.contains_alter]
      by_cases hp : p = page
      · rw [hp]
        exact (Bool.or_eq_true _ _ ▸ Or.inr hreq : _ = true).trans hreq.symm
      · rw [decide_eq_false hp, Bool.false_or]
    · split
      · exact ⟨fun p => rfl, fun p => rfl, parkFetch_alike mf page g.prefetch_req_buffer⟩
      · exact ⟨fun p => rfl, fun p => rfl, hrefl⟩

theorem parksAhead_of_same {mf : MemFetch} (hvalid : ∀ p, is_valid g' p = is_valid g p)
    (hreq : ∀ p, g'.req_info.contains p = g.req_info.contains p)
    (hbuffer : List.Forall₂ PrefetchReq.Alike g.prefetch_req_buffer g'.prefetch_req_buffer)
    (h : parksAhead cfg g mf = true) : parksAhead cfg g' mf = true := by
  have hall : ∀ {qs qs' : List PrefetchReq}, List.Forall₂ PrefetchReq.Alike qs qs' →
      qs'.all (fun q => !q.covers mf.access.addr ||
        decide (cfg.get_page_num q.cur_addr ≤ fetchPage cfg mf)) =
      qs.all (fun q => !q.covers mf.access.addr ||
        decide (cfg.get_page_num q.cur_addr ≤ fetchPage cfg mf)) := by
    intro qs qs' hqs
    induction hqs with
    | nil => rfl
    | cons hq _ ih =>
      have hasked := hq.asked
      simp only [PrefetchReq.asked, Prod.mk.injEq] at hasked
      rw [List.all_cons, List.all_cons, ih, PrefetchReq.covers, PrefetchReq.covers, hasked.1,
        hasked.2.1, hq.cur]
  unfold parksAhead at h ⊢
  rw [hvalid, hreq, hall hbuffer]
  exact h

/-- A fault that waits for nothing yet is parked where its page is still ahead. -/
theorem parksAhead_covers {mf : MemFetch} (h : parksAhead cfg g mf = true)
    (habsent : is_valid g (fetchPage cfg mf) = false)
    (hreq : ¬ g.req_info.contains (fetchPage cfg mf) = true) :
    ∀ q ∈ g.prefetch_req_buffer, q.covers mf.access.addr = true →
      cfg.get_page_num q.cur_addr ≤ fetchPage cfg mf := by
  rw [parksAhead, habsent, Bool.eq_false_iff.mpr hreq, Bool.false_or, Bool.false_or,
    List.all_eq_true] at h
  intro q hq hcovers
  have hahead := h q hq
  rw [hcovers] at hahead
  exact of_decide_eq_true hahead

theorem walkFetch_requests (mf : MemFetch) (hwaits : ∀ q ∈ g.prefetch_req_buffer, Waits cfg q)
    (hahead : parksAhead cfg g mf = true) :
    ∀ q ∈ (walkFetch cfg g mf).prefetch_req_buffer, Waits cfg q := by
  unfold walkFetch
  split
  · have hkept : (check_write_stage_queue cfg (popWalk cfg g mf)
        (cfg.get_page_num mf.access.addr)).prefetch_req_buffer = g.prefetch_req_buffer := by
      rw [check_write_stage_queue_frame]
      rfl
    exact hkept.symm ▸ hwaits
  · rename_i page rest hfaulty
    have hpage : fetchPage cfg mf = page := FetchPages.faulty_page hfaulty
    have habsent : is_valid g (fetchPage cfg mf) = false := by
      have hin : page ∈ get_faulty_pages cfg g mf.access.addr mf.access.size := by
        rw [hfaulty]
        exact List.mem_cons_self
      rw [hpage]
      simpa using (List.mem_filter.mp hin).2
    unfold fileFetch
    split
    · exact hwaits
    · rename_i hreq
      split
      · refine waits_parkFetch hpage hwaits fun q hq hcovers => hpage ▸ ?_
        exact parksAhead_covers hahead habsent (hpage.symm ▸ hreq) q hq hcovers
      · exact hwaits

theorem walkFetch_stage (mf : MemFetch) (g : Gpu) :
    ∃ ts, (walkFetch cfg g mf).pcie_read_stage_queue = g.pcie_read_stage_queue ++ ts := by
  unfold walkFetch
  split
  · refine ⟨[], ?_⟩
    rw [List.append_nil, replay, check_write_stage_queue_frame]
    rfl
  · unfold fileFetch
    split
    · exact ⟨[], (List.append_nil _).symm⟩
    · split
      · exact ⟨[], (List.append_nil _).symm⟩
      · unfold newFault
        dsimp only
        split
        · exact ⟨[], (List.append_nil _).symm⟩
        · exact ⟨_, rfl⟩

theorem Serving.walkFetch (h : Serving cfg g es) {mf : MemFetch}
    (hahead : parksAhead cfg g mf = true) : Serving cfg (walkFetch cfg g mf) es := by
  refine h.staged (walkFetch_asks cfg mf g).2.2 (walkFetch_requests mf h.requests hahead) ?_ ?_
    (walkFetch_stage mf g)
  · rw [walkFetch_frame]
  · rw [walkFetch_frame]

theorem Serving.walkFetches {mfs : List MemFetch} {g : Gpu} (h : Serving cfg g es)
    (hahead : ∀ mf ∈ mfs, parksAhead cfg g mf = true) :
    Serving cfg (mfs.foldl (gpgpu_sim_uvm.walkFetch cfg) g) es := by
  induction mfs generalizing g with
  | nil => exact h
  | cons mf mfs ih =>
    obtain ⟨hfirst, hrest⟩ := List.forall_mem_cons.mp hahead
    obtain ⟨hvalid, hreq, hbuffer⟩ := walkFetch_asks cfg mf g
    refine ih (h.walkFetch hfirst) fun mf' hmf' => ?_
    exact parksAhead_of_same hvalid hreq hbuffer (hrest mf' hmf')

theorem Serving.page_table_walk (h : Serving cfg g es)
    (hahead : (walking g).all (parksAhead cfg g) = true) :
    Serving cfg (page_table_walk cfg g) es :=
  h.walkFetches (List.all_eq_true.mp hahead)

/-! ## Where the requests are -/

/-- What a request asks for, and the address it has come to. -/
def PrefetchReq.place (q : PrefetchReq) : (Nat × Nat × Nat × Nat) × Nat := (q.asked, q.cur_addr)

def places (g : Gpu) : List ((Nat × Nat × Nat × Nat) × Nat) :=
  g.prefetch_req_buffer.map PrefetchReq.place

theorem places_of_alike
    (h : List.Forall₂ PrefetchReq.Alike g.prefetch_req_buffer g'.prefetch_req_buffer) :
    places g' = places g := by
  unfold places
  generalize g.prefetch_req_buffer = qs at h
  generalize g'.prefetch_req_buffer = qs' at h
  induction h with
  | nil => rfl
  | cons hq _ ih =>
    rw [List.map_cons, List.map_cons, ih, PrefetchReq.place, hq.asked, hq.cur]
    rfl

theorem places_read_done (g : Gpu) : places (read_done cfg g) = places g := by
  unfold read_done
  split
  · rfl
  · rename_i t hlatency
    split
    · change places (finishRead cfg g t) = places g
      unfold finishRead
      split
      · obtain ⟨out, hbuffer⟩ := completePages_buffer cfg t.page_list g
        unfold places
        rw [hbuffer]
        cases g.prefetch_req_buffer with
        | nil => rfl
        | cons q rest => rfl
      · cases t.mf with
        | none => rfl
        | some mf => rfl
      · rfl
    · rfl

theorem places_page_table_walk (g : Gpu) : places (page_table_walk cfg g) = places g := by
  unfold page_table_walk
  generalize (g.page_table_walk_queue.takeWhile _).map Prod.fst = mfs
  induction mfs generalizing g with
  | nil => rfl
  | cons mf mfs ih => rw [List.foldl_cons, ih, places_of_alike (walkFetch_asks cfg mf g).2.2]

variable (cfg) in
/-- Until it comes to the block, a cycle moves no request. -/
theorem places_beforeUserPrefetch (g : Gpu) : places (beforeUserPrefetch cfg g) = places g := by
  have h1 : ∀ g, places (eviction_check cfg g) = places g := fun g => by
    rw [places, eviction_check_frame]
    rfl
  have h3 : ∀ g, places (write_back_schedule cfg g) = places g := fun g => by
    rw [places, write_back_schedule_frame]
    rfl
  have h5 : ∀ g, places (read_schedule cfg g) = places g := fun g => by
    rw [places, read_schedule_frame]
    rfl
  have h7 : ∀ g, places (do_hardware_prefetch cfg g) = places g := fun g => by
    rw [places, do_hardware_prefetch_frame]
    rfl
  have h8 : ∀ g, places (fetch_from_clusters cfg g) = places g := fun g => by
    rw [places, fetch_from_clusters_frame]
    rfl
  unfold beforeUserPrefetch
  dsimp only
  rw [h8, h7, places_page_table_walk, h5, places_read_done, h3]
  exact h1 g

/-- The request that the block works on was in front before. -/
theorem front_beforeUserPrefetch {q : PrefetchReq}
    (hq : (beforeUserPrefetch cfg g).prefetch_req_buffer.head? = some q) :
    ∃ q0 ∈ g.prefetch_req_buffer, q.asked = q0.asked ∧ q.cur_addr = q0.cur_addr := by
  have hplace : q.place ∈ places g := by
    rw [← places_beforeUserPrefetch cfg]
    exact List.mem_map_of_mem (List.mem_of_mem_head? hq)
  obtain ⟨q0, hq0, heq⟩ := List.mem_map.mp hplace
  rw [PrefetchReq.place, PrefetchReq.place, Prod.mk.injEq] at heq
  exact ⟨q0, hq0, heq.1.symm, heq.2.symm⟩

/-- It is at a page of its range, or behind the last. -/
theorem requestOn_beforeUserPrefetch (h : Handles cfg g) {q : PrefetchReq}
    (hq : (beforeUserPrefetch cfg g).prefetch_req_buffer.head? = some q) :
    RequestOn cfg (Managed g) q := by
  obtain ⟨q0, hq0, hasked, hcur⟩ := front_beforeUserPrefetch hq
  simp only [PrefetchReq.asked, Prod.mk.injEq] at hasked
  exact requestOn_pending (h.requests q0 hq0) hasked.1 hasked.2.1 hcur

/-! ## The block -/

theorem workOf_self (g : Gpu) : workOf cfg g g = [] := by
  rw [workOf, if_neg (Nat.lt_irrefl _), pagesUpTo_self, List.drop_length]
  rfl

section

variable {q q' : PrefetchReq} {rest : List PrefetchReq}

theorem workOf_finish (hold : g.prefetch_req_buffer = q :: rest)
    (hnew : g'.prefetch_req_buffer = rest) : workOf cfg g g' = [.done q] := by
  rw [workOf, hold, hnew, if_pos (by simp)]
  rfl

/-- The visits of the pages of a chunk. -/
def visitEvents (g : Gpu) (ps : List Nat) : List PrefetchEvent :=
  ps.map fun p => .visited p (is_valid g p) (decide (p ∈ queuedPages g))

theorem workOf_chunk (hold : g.prefetch_req_buffer = q :: rest)
    (hnew : g'.prefetch_req_buffer = q' :: rest) {ts : List PcieLatency}
    (hstage : g'.pcie_read_stage_queue = g.pcie_read_stage_queue ++ ts) :
    workOf cfg g g' = visitEvents g (pagesUpTo cfg q.cur_addr q'.cur_addr) ++ ts.map .staged := by
  rw [workOf, frontAddr, frontAddr, hold, hnew, if_neg (by simp), hstage, List.drop_left]
  rfl

theorem visitsOf_append (es fs : List PrefetchEvent) :
    visitsOf (es ++ fs) = visitsOf es ++ visitsOf fs := List.filterMap_append ..

theorem stagedOf_append (es fs : List PrefetchEvent) :
    stagedOf (es ++ fs) = stagedOf es ++ stagedOf fs := List.filterMap_append ..

theorem visitsOf_visitEvents (g : Gpu) (ps : List Nat) :
    visitsOf (visitEvents g ps) =
      ps.map fun p => (p, is_valid g p, decide (p ∈ queuedPages g)) := by
  induction ps with
  | nil => rfl
  | cons p ps ih => exact congrArg ((p, is_valid g p, decide (p ∈ queuedPages g)) :: ·) ih

theorem stagedOf_visitEvents (g : Gpu) (ps : List Nat) : stagedOf (visitEvents g ps) = [] := by
  induction ps with
  | nil => rfl
  | cons p ps ih => exact ih

theorem visitsOf_staged (ts : List PcieLatency) : visitsOf (ts.map .staged) = [] := by
  induction ts with
  | nil => rfl
  | cons t ts ih => exact ih

theorem stagedOf_staged (ts : List PcieLatency) : stagedOf (ts.map .staged) = ts := by
  induction ts with
  | nil => rfl
  | cons t ts ih => exact congrArg (t :: ·) ih

/-- The loop itself changes nothing about the chunk that is under way. -/
theorem underWay_visits (es : List PrefetchEvent) {g : Gpu} {ps : List Nat}
    {pre : List PrefetchEvent} (h : pre ⊆ visitEvents g ps) : underWay (es ++ pre) = underWay es := by
  rw [underWay_append]
  generalize underWay es = under
  induction pre with
  | nil => rfl
  | cons e pre ih =>
    obtain ⟨he, hpre⟩ := List.cons_subset.mp h
    obtain ⟨p, -, rfl⟩ := List.mem_map.mp he
    exact ih hpre

theorem not_done_of_chunk (g : Gpu) (q0 : PrefetchReq) (ps : List Nat) (ts : List PcieLatency) :
    PrefetchEvent.done q0 ∉ visitEvents g ps ++ ts.map .staged := by
  intro hin
  rcases List.mem_append.mp hin with hin | hin
  · obtain ⟨p, -, hp⟩ := List.mem_map.mp hin
    cases hp
  · obtain ⟨t, -, ht⟩ := List.mem_map.mp hin
    cases ht

/-- The pages of a chunk are less than 2MB, in one piece. -/
theorem Chunk.chunkOf (h : Chunk cfg g q q') (hnone : q.pending_prefetch = [])
    (hcur : cfg.page_size ∣ q.cur_addr) (halloc : cfg.page_size ∣ q.allocation_addr)
    (hle : q.allocation_addr ≤ q.cur_addr) :
    ∀ t ∈ chunkTransfer cfg q'.pending_prefetch, ChunkOf cfg q t := by
  intro t ht
  unfold chunkTransfer at ht
  split_ifs at ht with hempty
  · cases ht
  rw [List.mem_singleton.mp ht]
  have hpages : q'.pending_prefetch =
      (pagesUpTo cfg q.cur_addr q'.cur_addr).filter fun p => !is_valid g p := by
    rw [h.pending, hnone, List.nil_append]
  have hpiece := h.piece halloc hle
  have hahead := h.ahead
  have hhigh : q'.cur_addr - 1 - q.allocation_addr <
      (q.cur_addr - q.allocation_addr) / MAX_PREFETCH_SIZE * MAX_PREFETCH_SIZE +
        MAX_PREFETCH_SIZE := by
    rw [← hpiece]
    exact Nat.lt_div_mul_add (by decide)
  have hlow : (q.cur_addr - q.allocation_addr) / MAX_PREFETCH_SIZE * MAX_PREFETCH_SIZE ≤
      q.cur_addr - q.allocation_addr := Nat.div_mul_le_self _ _
  refine ⟨rfl, hempty, ⟨rfl, ?_⟩, (q.cur_addr - q.allocation_addr) / MAX_PREFETCH_SIZE, ?_⟩
  · change q'.pending_prefetch.length * cfg.page_size ≤ MAX_PREFETCH_SIZE
    have hcount : q'.pending_prefetch.length ≤
        cfg.get_page_num q'.cur_addr - cfg.get_page_num q.cur_addr := by
      rw [hpages]
      refine (List.length_filter_le _ _).trans ?_
      rw [pagesUpTo, List.length_range']
    refine (Nat.mul_le_mul_right _ hcount).trans ?_
    rw [Nat.sub_mul, Config.get_page_num, Config.get_page_num, Nat.div_mul_cancel h.aligned,
      Nat.div_mul_cancel hcur]
    omega
  · intro p hp
    change p ∈ q'.pending_prefetch at hp
    rw [hpages] at hp
    obtain ⟨hfirst, hlast⟩ := mem_pagesUpTo.mp (List.mem_of_mem_filter hp)
    have hfrom : q.cur_addr ≤ cfg.get_mem_addr p := by
      rw [← Nat.div_mul_cancel hcur]
      exact Nat.mul_le_mul_right _ hfirst
    have hupto : cfg.get_mem_addr p + cfg.page_size ≤ q'.cur_addr := by
      rw [Config.get_mem_addr, ← Nat.succ_mul]
      exact (Nat.le_div_iff_mul_le cfg.page_size_pos).mp hlast
    constructor
    · omega
    · rw [Nat.succ_mul]
      omega

theorem only_event {a e : PrefetchEvent} {pre post : List PrefetchEvent}
    (h : [a] = pre ++ e :: post) : pre = [] ∧ e = a := by
  rcases List.singleton_eq_append_iff.mp h with ⟨hpre, hpost⟩ | ⟨-, hpost⟩
  · exact ⟨hpre, (List.cons.inj hpost).1⟩
  · cases hpost

/-- The request in front is done, and the next has not begun. -/
theorem Serving.finish (h : Serving cfg g es) (hold : g.prefetch_req_buffer = q :: rest)
    (hready : q.ready = true) (hend : q.cur_addr = q.start_addr + q.size) :
    Serving cfg (user_prefetch cfg g)
      (es ++ workOf cfg g (user_prefetch cfg g)) := by
  have hbehind := h.behind
  have hrequests := h.requests
  have hlog := h.log
  rw [hold] at hbehind hrequests hlog
  obtain ⟨hwaits, hrest⟩ := List.forall_mem_cons.mp hrequests
  have hlead := h.front q (by rw [hold]; rfl)
  have hunder : underWay es = [] := hlead.pending.trans (ready_spec hready).2
  obtain ⟨hbuffer, -, hlost⟩ := user_prefetch_finish cfg hold hready hend
    (by have := hwaits.some_pages; omega)
  have hnone : q.incoming_replayable_nacks.pooled = [] := by
    refine StdMap.pooled_of_no_key fun p => Bool.eq_false_iff.mpr fun hp => ?_
    obtain ⟨hlow, hhigh⟩ := hwaits.parked p hp
    rw [hend] at hlow
    omega
  have hsince : since (es ++ [.done q]) = [] := by rw [since_append]; rfl
  have hunder' : underWay (es ++ [.done q]) = [] := by
    rw [underWay_append, hunder]
    rfl
  rw [workOf_finish hold hbuffer]
  refine ⟨?_, ?_, ?_, ?_, ?_, ?_⟩
  · intro q2 hq2
    rw [hbuffer] at hq2
    obtain ⟨hcur, hpending⟩ := hbehind q2 (List.mem_of_mem_head? hq2)
    refine ⟨⟨?_, ?_, ?_⟩, ?_, fun hne => absurd hpending hne, fun _ => ⟨hcur, hpending⟩⟩
    · rw [hsince, hcur, pagesUpTo_self]
      rfl
    · rw [hsince]
      rfl
    · rw [hsince]
      intro t ht
      cases ht
    · rw [hunder', hpending]
  · intro _
    rw [hsince]
    exact ⟨rfl, rfl, hunder'⟩
  · rw [hbuffer]
    exact fun q2 hq2 => hbehind q2 (List.mem_of_mem_tail hq2)
  · rw [hbuffer]
    exact hrest
  · rw [hbuffer]
    refine hlog.append ?_ ?_ ?_
    · intro pre q2 post heq
      obtain ⟨rfl, he⟩ := only_event heq
      cases he
      rw [List.append_nil]
      exact ⟨hlead.served, hend⟩
    · intro pre e post heq _
      obtain ⟨rfl, -⟩ := only_event heq
      rw [List.append_nil]
      exact hunder
    · exact congrArg (List.map PrefetchReq.asked) (List.append_nil (q :: rest))
  · rw [hlost, hnone, h.lost]
    rfl

/-- What the visits and the migration of a chunk add to the work on a request. -/
theorem Served.chunk (h : Served cfg q es) (hchunk : Chunk cfg g q q')
    (hnone : q.pending_prefetch = []) {M : Nat → Prop} (hon : RequestOn cfg M q) (hwaits : Waits cfg q)
    (hfresh : ∀ p ∈ q'.pending_prefetch, p ∉ queuedPages g) :
    Served cfg q' (es ++ (visitEvents g (pagesUpTo cfg q.cur_addr q'.cur_addr) ++
      (chunkTransfer cfg q'.pending_prefetch).map .staged)) := by
  have hpages : q'.pending_prefetch =
      (pagesUpTo cfg q.cur_addr q'.cur_addr).filter fun p => !is_valid g p := by
    rw [hchunk.pending, hnone, List.nil_append]
  have hvisits : visitsOf (es ++ (visitEvents g (pagesUpTo cfg q.cur_addr q'.cur_addr) ++
      (chunkTransfer cfg q'.pending_prefetch).map .staged)) = visitsOf es ++
        (pagesUpTo cfg q.cur_addr q'.cur_addr).map
          fun p => (p, is_valid g p, decide (p ∈ queuedPages g)) := by
    rw [visitsOf_append, visitsOf_append, visitsOf_visitEvents, visitsOf_staged, List.append_nil]
  have hstaged : stagedOf (es ++ (visitEvents g (pagesUpTo cfg q.cur_addr q'.cur_addr) ++
      (chunkTransfer cfg q'.pending_prefetch).map .staged)) =
        stagedOf es ++ chunkTransfer cfg q'.pending_prefetch := by
    rw [stagedOf_append, stagedOf_append, stagedOf_visitEvents, stagedOf_staged, List.nil_append]
  refine ⟨?_, ?_, ?_⟩
  · rw [hvisits, List.map_append, h.visits, List.map_map, hchunk.start,
      ← pagesUpTo_append cfg hon.begun (Nat.le_of_lt hchunk.ahead)]
    exact congrArg (_ ++ ·) (List.map_id _)
  · have htaken : (pagesUpTo cfg q.cur_addr q'.cur_addr).filter
        (fun p => !is_valid g p && !decide (p ∈ queuedPages g)) = q'.pending_prefetch := by
      rw [hpages]
      refine List.filter_congr fun p hp => ?_
      cases hvalid : is_valid g p
      · have hin : p ∈ q'.pending_prefetch := by
          rw [hpages]
          exact List.mem_filter.mpr ⟨hp, by simp [hvalid]⟩
        simp [hfresh p hin]
      · rfl
    have hchunkPages : (chunkTransfer cfg q'.pending_prefetch).flatMap PcieLatency.page_list =
        q'.pending_prefetch := by
      unfold chunkTransfer
      split_ifs with hempty
      · exact hempty.symm
      · exact List.append_nil _
    rw [hvisits, hstaged, List.flatMap_append, h.moved, hchunkPages, List.filter_append,
      List.map_append, List.filter_map, List.map_map]
    exact congrArg (_ ++ ·) (htaken.symm.trans (List.map_id _).symm)
  · rw [hstaged]
    have hsame : ∀ t, ChunkOf cfg q t → ChunkOf cfg q' t := fun t ht =>
      ⟨ht.type, ht.nonempty, ht.size, hchunk.allocation.symm ▸ ht.piece⟩
    intro t ht
    rcases List.mem_append.mp ht with ht | ht
    · exact hsame t (h.chunks t ht)
    · exact hsame t (hchunk.chunkOf hnone hon.cur hwaits.allocation
        (hwaits.inside.trans hon.begun) t ht)

/-- The fetches that still wait with the request wait for pages behind the chunk. -/
theorem Waits.chunk (h : Waits cfg q) (hchunk : Chunk cfg g q q')
    {M : Nat → Prop} (hon : RequestOn cfg M q)
    (hstops : ∀ p ∈ pagesUpTo cfg q.cur_addr q'.cur_addr,
      ∀ r ∈ (pagesUpTo cfg q.cur_addr (cfg.get_mem_addr p)).dropWhile (is_valid g),
        is_valid g r = false)
    (htime : ∀ p, q.incoming_replayable_nacks.contains p = true →
      ¬ (comesTo cfg g q p = true ∧ is_valid g p = true)) : Waits cfg q' := by
  refine ⟨?_, ?_, ?_, ?_, fun p hp => ?_⟩
  · rw [hchunk.size]
    exact h.some_pages
  · rw [hchunk.start, hchunk.size]
    exact h.whole
  · rw [hchunk.allocation]
    exact h.allocation
  · rw [hchunk.allocation, hchunk.start]
    exact h.inside
  · obtain ⟨hold, hvalid⟩ := hchunk.incoming p hp
    obtain ⟨hlow, hhigh⟩ := h.parked p hold
    rw [hchunk.start, hchunk.size]
    refine ⟨?_, hhigh⟩
    by_contra hlt
    have hin : p ∈ pagesUpTo cfg q.cur_addr q'.cur_addr :=
      mem_pagesUpTo.mpr ⟨hlow, Nat.lt_of_not_le hlt⟩
    refine htime p hold ⟨?_, hvalid hin⟩
    exact hchunk.comesTo hon.cur h.allocation (h.inside.trans hon.begun) hin (hstops p hin)

/-- The visits of a chunk come before its migration, and both behind the chunk before. -/
theorem LogKept.chunk (h : LogKept cfg (q :: rest) es) (hasked : q'.asked = q.asked)
    (hunder : underWay es = []) {ts : List PcieLatency} (hone : ts.length ≤ 1) (ps : List Nat) :
    LogKept cfg (q' :: rest) (es ++ (visitEvents g ps ++ ts.map .staged)) := by
  refine h.append ?_ ?_ ?_
  · intro pre q0 post heq
    refine absurd ?_ (not_done_of_chunk g q0 ps ts)
    rw [heq]
    exact List.mem_append_right _ List.mem_cons_self
  · intro pre e post heq _
    have hpre : pre ⊆ visitEvents g ps := by
      rcases event_of_append heq with ⟨post', hvisits⟩ | ⟨pre', rfl, hstaged⟩
      · rw [hvisits]
        exact List.subset_append_left _ _
      · have hlength := congrArg List.length hstaged
        rw [List.length_map, List.length_append, List.length_cons] at hlength
        obtain rfl : pre' = [] := List.length_eq_zero_iff.mp (by omega)
        rw [List.append_nil]
        exact List.Subset.refl _
    rw [underWay_visits es hpre]
    exact hunder
  · have hregistered : registeredOf (visitEvents g ps ++ ts.map .staged) = [] := by
      rw [registeredOf, List.filterMap_eq_nil_iff]
      intro e he
      rcases List.mem_append.mp he with he | he
      · obtain ⟨p, -, rfl⟩ := List.mem_map.mp he
        rfl
      · obtain ⟨t, -, rfl⟩ := List.mem_map.mp he
        rfl
    have hdone : doneOf (visitEvents g ps ++ ts.map .staged) = [] := by
      rw [doneOf, List.filterMap_eq_nil_iff]
      intro e he
      rcases List.mem_append.mp he with he | he
      · obtain ⟨p, -, rfl⟩ := List.mem_map.mp he
        rfl
      · obtain ⟨t, -, rfl⟩ := List.mem_map.mp he
        rfl
    rw [hregistered, hdone, List.append_nil, List.nil_append, List.map_cons, List.map_cons, hasked]

variable (cfg) in
theorem chunkTransfer_migration {ps : List Nat} (h : ps ≠ []) :
    ∃ t, chunkTransfer cfg ps = [t] ∧ isMigration t = true ∧ t.page_list = ps := by
  unfold chunkTransfer
  rw [if_neg h]
  exact ⟨_, rfl, rfl, rfl⟩

/-- The request in front takes its next chunk. -/
theorem Serving.chunk (h : Serving cfg g es) (hold : g.prefetch_req_buffer = q :: rest)
    (hready : q.ready = true) {M : Nat → Prop} (hon : RequestOn cfg M q)
    (hlt : q.cur_addr < q.start_addr + q.size) (htime : comesInTime cfg g = true)
    (honce : (queuedPages (user_prefetch cfg g)).Nodup) :
    Serving cfg (user_prefetch cfg g) (es ++ workOf cfg g (user_prefetch cfg g)) := by
  have hbehind := h.behind
  have hrequests := h.requests
  have hlog := h.log
  rw [hold] at hbehind hrequests hlog
  obtain ⟨hwaits, hrest⟩ := List.forall_mem_cons.mp hrequests
  have hhead : g.prefetch_req_buffer.head? = some q := by rw [hold]; rfl
  have hlead := h.front q hhead
  obtain ⟨hactive, hnone⟩ := ready_spec hready
  have hunder : underWay es = [] := hlead.pending.trans hnone
  obtain ⟨q', hchunk, hstops, hbuffer, hstage, hlost⟩ :=
    user_prefetch_chunk cfg hold hready hon.cur hwaits.whole hlt
  have hlatency : (user_prefetch cfg g).pcie_read_latency_queue = g.pcie_read_latency_queue := by
    rw [user_prefetch_frame]
  have hfresh : ∀ p ∈ q'.pending_prefetch, p ∉ queuedPages g := by
    have hqueued : queuedPages (user_prefetch cfg g) = queuedPages g ++ q'.pending_prefetch := by
      rw [queuedPages, queuedPages, hlatency, hstage, ← List.append_assoc, pagesQueued_append,
        pagesQueued_chunkTransfer]
    rw [hqueued] at honce
    exact fun p hp hin => (List.nodup_append.mp honce).2.2 p hin p hp rfl
  have hparked : ∀ p, q.incoming_replayable_nacks.contains p = true →
      ¬ (comesTo cfg g q p = true ∧ is_valid g p = true) := by
    intro p hp hboth
    rw [comesInTime, hhead, Option.all_some, hready, Bool.not_true, Bool.false_or,
      List.all_eq_true] at htime
    have hkey := htime p ((StdMap.mem_keys _ p).mpr hp)
    rw [hboth.1, hboth.2] at hkey
    cases hkey
  have hasked : q'.asked = q.asked := by
    rw [PrefetchReq.asked, PrefetchReq.asked, hchunk.start, hchunk.size, hchunk.allocation,
      hchunk.stream]
  have hone : (chunkTransfer cfg q'.pending_prefetch).length ≤ 1 := by
    unfold chunkTransfer
    split_ifs <;> simp
  rw [workOf_chunk hold hbuffer hstage]
  have hsince : since (es ++ (visitEvents g (pagesUpTo cfg q.cur_addr q'.cur_addr) ++
      (chunkTransfer cfg q'.pending_prefetch).map .staged)) = since es ++
        (visitEvents g (pagesUpTo cfg q.cur_addr q'.cur_addr) ++
          (chunkTransfer cfg q'.pending_prefetch).map .staged) :=
    since_goes_on fun q0 => not_done_of_chunk g q0 _ _
  refine ⟨?_, ?_, ?_, ?_, ?_, hlost.trans h.lost⟩
  · intro q1 hq1
    rw [hbuffer] at hq1
    cases hq1
    refine ⟨?_, ?_, fun hne => ?_, fun hoff => ?_⟩
    · rw [hsince]
      exact hlead.served.chunk hchunk hnone hon hwaits hfresh
    · rw [← List.append_assoc, underWay_append, underWay_visits es (List.Subset.refl _), hunder]
      unfold chunkTransfer
      split_ifs with hempty
      · exact hempty.symm
      · rfl
    · obtain ⟨t, ht, hmig, hpages⟩ := chunkTransfer_migration cfg hne
      refine ⟨t, ?_, hmig, hpages⟩
      rw [hstage, ht]
      exact List.mem_append_right _ (List.mem_append_right _ (List.mem_singleton_self t))
    · rw [hchunk.active, hactive] at hoff
      cases hoff
  · intro hnil
    rw [hbuffer] at hnil
    cases hnil
  · rw [hbuffer]
    exact hbehind
  · rw [hbuffer]
    exact List.forall_mem_cons.mpr ⟨hwaits.chunk hchunk hon hstops hparked, hrest⟩
  · rw [hbuffer]
    exact hlog.chunk hasked hunder hone _

end

theorem Serving.user_prefetch (h : Serving cfg g es) {M : Nat → Prop}
    (hon : ∀ q, g.prefetch_req_buffer.head? = some q → RequestOn cfg M q)
    (htime : comesInTime cfg g = true)
    (honce : (queuedPages (user_prefetch cfg g)).Nodup) :
    Serving cfg (user_prefetch cfg g) (es ++ workOf cfg g (user_prefetch cfg g)) := by
  by_cases hready : ∃ q, g.prefetch_req_buffer.head? = some q ∧ q.ready = true
  · obtain ⟨q, hq, hready⟩ := hready
    obtain ⟨rest, hold⟩ := List.head?_eq_some_iff.mp hq
    have hrange := hon q hq
    rcases Nat.lt_or_eq_of_le hrange.within with hlt | hend
    · exact h.chunk hold hready hrange hlt htime honce
    · exact h.finish hold hready hend
  · have hidle : gpgpu_sim_uvm.user_prefetch cfg g = g := by
      refine user_prefetch_idle fun q hq => Bool.eq_false_iff.mpr fun hr => ?_
      exact hready ⟨q, hq, hr⟩
    rw [hidle, workOf_self, List.append_nil]
    exact h

end gpgpu_sim_uvm
