-- Runs of the texture cache over a memory that answers in any order: no assertion
-- fails, and the results come out in the order of the accesses.
import GpgpuSimUvm.Machines
import GpgpuSimUvm.TexCacheLaws

namespace gpgpu_sim_uvm.gpu_cache

variable (cfg : TexConfig)

/-! ## The cache and what is around it -/

inductive TexCall
  | access (mf : MemFetch) (time : Nat)
  | cycle (port_full : Bool)
  /-- A reply for the fetch with the number. -/
  | fill (serial time : Nat)
  | next_access

structure TexRun where
  cache : TexCache
  /-- The requests that were sent, with the replies that they still wait for. -/
  below : List (MemFetch × Nat) := []
  /-- The fetches that were accepted, as `access` left them. -/
  accepted : List MemFetch := []
  returned : List MemFetch := []

namespace TexRun

def start : TexRun := { cache := .new cfg }

/-- A reply leaves, and with the last one the request. -/
def answer (serial : Nat) : List (MemFetch × Nat) → List (MemFetch × Nat)
  | [] => []
  | b :: bs =>
    if b.1.serial = serial then
      if b.2 ≤ 1 then bs else (b.1, b.2 - 1) :: bs
    else b :: answer serial bs

/-- The call and what it does around the cache. None is a failed assertion, or a
call for nothing. -/
def step (t : TexRun) : TexCall → Option TexRun
  | .access mf time =>
    (t.cache.access cfg mf.addr mf time).map fun a =>
      match a.status with
      | .RESERVATION_FAIL => { t with cache := a.cache }
      | .MISS =>
        { t with
          cache := a.cache
          accepted := t.accepted ++ [{ mf with data_size := cfg.m_line_sz }] }
      | .HIT | .HIT_RESERVED | .SECTOR_MISS =>
        { t with cache := a.cache, accepted := t.accepted ++ [mf] }
  | .cycle port_full =>
    (t.cache.cycle cfg port_full).map fun (cache, sent) =>
      { t with cache := cache, below := t.below ++ sent.toList.map fun mf => (mf, cfg.replies) }
  | .fill serial time =>
    (t.below.find? fun b => decide (b.1.serial = serial)).bind fun b =>
      (t.cache.fill cfg b.1 (some b.1) time).map fun cache =>
        { t with cache := cache, below := answer serial t.below }
  | .next_access =>
    t.cache.next_access.map fun (mf, cache) =>
      { t with cache := cache, returned := t.returned ++ [mf] }

/-- The fetches that were accepted and have not come out. -/
def inFlight (t : TexRun) : List MemFetch := t.accepted.drop t.returned.length

/-- What the core and the memory keep to: a fetch is not accessed again while it is
in flight, and a reply comes for a request that waits for one. -/
def Proper (t : TexRun) : TexCall → Prop
  | .access mf time =>
    mf.data_size ≤ cfg.m_line_sz ∧ time < UNSIGNED_MAX ∧
      mf.serial ∉ t.inFlight.map MemFetch.serial
  | .cycle _ => True
  | .fill serial _ => ∃ b ∈ t.below, b.1.serial = serial ∧ 0 < b.2
  | .next_access => t.cache.access_ready = true

instance (t : TexRun) : ∀ c, Decidable (t.Proper cfg c)
  | .access mf time => inferInstanceAs (Decidable (mf.data_size ≤ cfg.m_line_sz ∧
      time < UNSIGNED_MAX ∧ mf.serial ∉ t.inFlight.map MemFetch.serial))
  | .cycle _ => inferInstanceAs (Decidable True)
  | .fill serial _ => inferInstanceAs (Decidable (∃ b ∈ t.below, b.1.serial = serial ∧ 0 < b.2))
  | .next_access => inferInstanceAs (Decidable (t.cache.access_ready = true))

end TexRun

/-! ## The invariant -/

def FragmentEntry.claim (e : FragmentEntry) : MemFetch × Nat × Nat :=
  (e.m_request, e.m_cache_index, cfg.block_addr e.m_request.addr)

def RobEntry.claim (r : RobEntry) : MemFetch × Nat × Nat :=
  (r.m_request, r.m_index, r.m_block_addr)

/-- The requests of the reorder buffer that wait for their line. -/
def TexCache.unready (c : TexCache) : List MemFetch :=
  (c.m_rob.contents.filter fun r => !r.m_ready).map RobEntry.m_request

namespace TexRun

/-- The requests that wait for replies, sent and not. -/
def asking (t : TexRun) : List (MemFetch × Nat) :=
  t.below ++ t.cache.m_request_fifo.contents.map fun mf => (mf, cfg.replies)

structure Sound (t : TexRun) : Prop where
  fragments : t.cache.m_fragment_fifo.Sound
  requests : t.cache.m_request_fifo.Sound
  rob : t.cache.m_rob.Sound
  results : t.cache.m_result_fifo.Sound
  quiet : t.cache.m_tags.Quiet
  order : t.accepted = t.returned ++ (t.cache.m_result_fifo.contents ++
    t.cache.m_fragment_fifo.contents.map FragmentEntry.m_request)
  distinct : ((t.cache.m_result_fifo.contents ++
    t.cache.m_fragment_fifo.contents.map FragmentEntry.m_request).map MemFetch.serial).Nodup
  misses : t.cache.m_rob.contents.map RobEntry.claim =
    (t.cache.m_fragment_fifo.contents.filter FragmentEntry.m_miss).map (FragmentEntry.claim cfg)
  hits : HitsFind cfg t.cache.m_cache t.cache.m_fragment_fifo.contents
  ahead : ∀ i b, t.cache.m_tags.Keeps i b →
    t.cache.m_fragment_fifo.contents.foldl (settle cfg) t.cache.m_cache i =
      { m_valid := true, m_block_addr := b }
  waiting : (t.asking cfg).map Prod.fst = t.cache.unready
  marks : ∀ k r, t.cache.m_rob.contents[k]? = some r → r.m_ready = false →
    ∃ n, (r.m_request, n) ∈ t.asking cfg ∧
      t.cache.m_extra_mf_fields.find r.m_request.serial =
        some { m_valid := true
               m_rob_index := (t.cache.m_rob.m_tail + k) % t.cache.m_rob.m_size
               pending_read := cfg.pending n }
  counts : ∀ b ∈ t.below, b.2 ≤ cfg.replies

variable {cfg} {t : TexRun}

theorem Sound.start : (start cfg).Sound cfg := by
  refine ⟨Fifo.sound_new _, Fifo.sound_new _, Fifo.sound_new _, Fifo.sound_new _,
    TagArray.quiet_new, rfl, List.nodup_nil, rfl, trivial, ?_, rfl, ?_, ?_⟩
  · rintro i b ⟨hvalid, -⟩
    cases hvalid
  · intro k r hk
    cases hk
  · intro b hb
    cases hb

theorem Sound.inFlight_eq (h : t.Sound cfg) :
    t.inFlight = t.cache.m_result_fifo.contents ++
      t.cache.m_fragment_fifo.contents.map FragmentEntry.m_request := by
  unfold inFlight
  rw [h.order, List.drop_left]

/-- What the reorder buffer waits for is in the fragment queue. -/
theorem Sound.rob_request (h : t.Sound cfg) {r : RobEntry} (hr : r ∈ t.cache.m_rob.contents) :
    ∃ e ∈ t.cache.m_fragment_fifo.contents, e.m_miss = true ∧ e.claim cfg = r.claim := by
  have hmem : r.claim ∈ t.cache.m_rob.contents.map RobEntry.claim := List.mem_map_of_mem hr
  rw [h.misses] at hmem
  obtain ⟨e, he, heq⟩ := List.mem_map.mp hmem
  obtain ⟨hin, hmiss⟩ := List.mem_filter.mp he
  exact ⟨e, hin, hmiss, heq⟩

/-! ## Accesses -/

theorem unready_concat {c c' : TexCache} {r : RobEntry} (hready : r.m_ready = false)
    (hrob : c'.m_rob.contents = c.m_rob.contents ++ [r]) :
    c'.unready = c.unready ++ [r.m_request] := by
  simp [TexCache.unready, hrob, List.filter_append, hready]

/-- A hit waits behind the fragments before it. -/
theorem Sound.accepts_hit (h : t.Sound cfg) {mf : MemFetch} {idx : Nat} {tags : TagArray}
    (hnew : mf.serial ∉ t.inFlight.map MemFetch.serial)
    (hroom : t.cache.m_fragment_fifo.full = false) (hquiet : tags.Quiet)
    (hkeeps : ∀ i b, tags.Keeps i b ↔ t.cache.m_tags.Keeps i b)
    (hhit : t.cache.m_tags.Keeps idx (cfg.block_addr mf.addr)) :
    ∃ c, ({ t.cache with m_tags := tags } : TexCache).accept mf idx false = some c ∧
      Sound cfg { t with cache := c, accepted := t.accepted ++ [mf] } := by
  obtain ⟨fragments, hpush, hsound, hc, -, -⟩ := h.fragments.push hroom
    { m_request := mf, m_cache_index := idx, m_miss := false, m_data_size := mf.data_size }
  refine ⟨_, TexCache.accept_eq hpush, ?_⟩
  rw [h.inFlight_eq] at hnew
  refine { h with fragments := hsound, quiet := hquiet, order := ?_, distinct := ?_, misses := ?_,
                  hits := ?_, ahead := ?_ }
  · simp [hc, h.order]
  · have hdistinct := h.distinct.concat hnew
    simpa [hc, List.concat_eq_append] using hdistinct
  · simpa [hc, List.filter_append] using h.misses
  · rw [hc]
    exact hitsFind_concat.mpr ⟨h.hits, fun _ => h.ahead idx _ hhit⟩
  · intro i b hb
    rw [hc, List.foldl_concat]
    exact h.ahead i b ((hkeeps i b).mp hb)

/-- A miss takes its place in the reorder buffer too, and its request is queued. -/
theorem Sound.accepts_miss (h : t.Sound cfg) (mf : MemFetch) {idx : Nat} {tags : TagArray}
    (hnew : mf.serial ∉ t.inFlight.map MemFetch.serial)
    (hfragments : t.cache.m_fragment_fifo.full = false)
    (hrequests : t.cache.m_request_fifo.full = false) (hrob : t.cache.m_rob.full = false)
    (hquiet : (fillIndex cfg.toCacheConfig tags idx mf.sector_mask mf.byte_mask).Quiet)
    (hkeeps : ∀ i b,
      (fillIndex cfg.toCacheConfig tags idx mf.sector_mask mf.byte_mask).Keeps i b ↔
        if i = idx then cfg.block_addr mf.addr = b else t.cache.m_tags.Keeps i b) :
    ∃ c, (({ t.cache with m_tags := tags } : TexCache).accept mf idx true).bind
        (fun c => c.sendMiss cfg (cfg.block_addr mf.addr) mf idx) = some c ∧
      Sound cfg { t with cache := c, accepted := t.accepted ++ [mf] } := by
  obtain ⟨fragments, hpush, hsound, hc, -, -⟩ := h.fragments.push hfragments
    { m_request := mf, m_cache_index := idx, m_miss := true, m_data_size := mf.data_size }
  obtain ⟨rob, hpushRob, hsoundRob, hcRob, htail, hsize⟩ := h.rob.push hrob
    { m_index := idx, m_request := mf, m_block_addr := cfg.block_addr mf.addr }
  obtain ⟨requests, hpushReq, hsoundReq, hcReq, -, -⟩ := h.requests.push hrequests mf
  refine ⟨_, Option.bind_eq_some_iff.mpr
    ⟨_, TexCache.accept_eq hpush, TexCache.sendMiss_eq hpushRob hpushReq⟩, ?_⟩
  rw [h.inFlight_eq] at hnew
  have hasking : t.below ++ requests.contents.map (fun mf => (mf, cfg.replies)) =
      t.asking cfg ++ [(mf, cfg.replies)] := by
    simp [asking, hcReq]
  refine { h with fragments := hsound, requests := hsoundReq, rob := hsoundRob, quiet := hquiet,
                  order := ?_, distinct := ?_, misses := ?_, hits := ?_, ahead := ?_, waiting := ?_,
                  marks := ?_ }
  · simp [hc, h.order]
  · have hdistinct := h.distinct.concat hnew
    simpa [hc, List.concat_eq_append] using hdistinct
  · simp [hc, hcRob, List.filter_append, h.misses, RobEntry.claim, FragmentEntry.claim]
  · rw [hc]
    exact hitsFind_concat.mpr ⟨h.hits, fun hcon => by cases hcon⟩
  · intro i b hb
    rw [hc, List.foldl_concat]
    have hb := (hkeeps i b).mp hb
    simp only [settle, if_true]
    split at hb
    · rename_i hi
      rw [hi, Function.update_self, hb]
    · rename_i hi
      rw [Function.update_of_ne hi]
      exact h.ahead i b hb
  · refine Eq.trans ?_ (unready_concat (c := t.cache) rfl hcRob).symm
    change (t.below ++ requests.contents.map fun mf => (mf, cfg.replies)).map Prod.fst = _
    rw [hasking, List.map_append, h.waiting]
    rfl
  · intro k r hk hready
    change ∃ n, (r.m_request, n) ∈ t.below ++ requests.contents.map (fun mf => (mf, cfg.replies)) ∧ _
    rw [hasking]
    change rob.contents[k]? = some r at hk
    rw [hcRob] at hk
    rcases Nat.lt_or_ge k t.cache.m_rob.contents.length with hlt | hge
    · rw [List.getElem?_append_left hlt] at hk
      obtain ⟨n, hn, hfind⟩ := h.marks k r hk hready
      have hne : r.m_request.serial ≠ mf.serial := by
        intro heq
        obtain ⟨e, he, -, hclaim⟩ := h.rob_request (List.mem_of_getElem? hk)
        have hsame : e.m_request = r.m_request := congrArg Prod.fst hclaim
        refine hnew (List.mem_map.mpr ⟨r.m_request, List.mem_append_right _ ?_, heq⟩)
        exact List.mem_map.mpr ⟨e, he, hsame⟩
      refine ⟨n, List.mem_append_left _ hn, ?_⟩
      change (t.cache.m_extra_mf_fields.alter mf.serial {} _).find r.m_request.serial = _
      rw [StdMap.find_alter_ne _ _ _ hne, hfind, htail, hsize]
    · rw [List.getElem?_append_right hge] at hk
      obtain ⟨hk', rfl⟩ : k = t.cache.m_rob.contents.length ∧ _ = r := by
        have hlen := (List.getElem?_eq_some_iff.mp hk).1
        rw [List.length_singleton] at hlen
        have hzero : k - t.cache.m_rob.contents.length = 0 := by omega
        rw [hzero] at hk
        exact ⟨by omega, Option.some.inj hk⟩
      refine ⟨cfg.replies, List.mem_append_right _ List.mem_cons_self, ?_⟩
      change (t.cache.m_extra_mf_fields.alter mf.serial {} _).find mf.serial = _
      rw [StdMap.find_alter_self, htail, hsize, hk']

theorem Sound.access (h : t.Sound cfg) (hnormal : cfg.m_cache_type = .NORMAL)
    (hassoc : 0 < cfg.m_assoc) {mf : MemFetch} {time : Nat}
    (hok : t.Proper cfg (.access mf time)) :
    ∃ t', t.step cfg (.access mf time) = some t' ∧ t'.Sound cfg := by
  obtain ⟨hsize, htime, hnew⟩ := hok
  unfold step
  dsimp only
  cases hfull : t.cache.m_fragment_fifo.full || t.cache.m_request_fifo.full ||
      t.cache.m_rob.full with
  | true =>
    unfold TexCache.access
    rw [if_pos hfull]
    exact ⟨t, rfl, h⟩
  | false =>
    simp only [Bool.or_eq_false_iff] at hfull
    obtain ⟨⟨hfragments, hrequests⟩, hrob⟩ := hfull
    have htag : cfg.tag (cfg.block_addr mf.addr) = cfg.block_addr mf.addr :=
      block_addr_block_addr _ _
    unfold TexCache.access
    rw [if_neg (by simp [hfragments, hrequests, hrob]), if_neg (by omega)]
    dsimp only
    rcases h.quiet.use.probe hnormal hassoc (cfg.block_addr mf.addr) mf.sector_mask mf.is_write with
      ⟨idx, hprobe, hhit⟩ | ⟨idx, hprobe⟩
    · obtain ⟨hstatus, hclean, hquiet, hkeeps⟩ := h.quiet.access_hit htime hprobe
      rw [hstatus, hclean]
      rw [htag] at hhit
      obtain ⟨c, hc, hsound⟩ := h.accepts_hit hnew hfragments hquiet hkeeps hhit
      simp only [Option.isNone_none, TagArray.require_true, hc, Option.map_some]
      exact ⟨_, rfl, hsound⟩
    · obtain ⟨hstatus, hclean, hquiet, hkeeps⟩ := h.quiet.access_miss hnormal cfg.on_miss htime
        hprobe mf.byte_mask
      rw [htag] at hkeeps
      rw [hstatus, hclean]
      obtain ⟨c, hc, hsound⟩ := h.accepts_miss { mf with data_size := cfg.m_line_sz } hnew
        hfragments hrequests hrob hquiet hkeeps
      obtain ⟨c', hc', hc⟩ := Option.bind_eq_some_iff.mp hc
      simp only [Option.isNone_none, TagArray.require_true, hc', Option.bind_some]
      change ∃ t', ((c'.sendMiss cfg (cfg.block_addr mf.addr) _ idx).map _).map _ = some t' ∧ _
      change c'.sendMiss cfg (cfg.block_addr mf.addr) _ idx = some c at hc
      rw [hc]
      exact ⟨_, rfl, hsound⟩

/-! ## Cycles -/

/-- Sending a request takes it from the queue to the memory. -/
theorem Sound.sendRequest (h : t.Sound cfg) (port_full : Bool) :
    ∃ c sent, t.cache.sendRequest port_full = some (c, sent) ∧
      Sound cfg { t with
        cache := c
        below := t.below ++ sent.toList.map fun mf => (mf, cfg.replies) } := by
  unfold TexCache.sendRequest
  split
  · exact ⟨t.cache, none, rfl, by simpa using h⟩
  · rename_i hgo
    obtain ⟨mf, rest, hc⟩ : ∃ mf rest, t.cache.m_request_fifo.contents = mf :: rest := by
      refine List.exists_cons_of_ne_nil fun hnil => hgo ?_
      rw [h.requests.empty_iff.mpr hnil]
      rfl
    obtain ⟨requests, hpop, hsound, hrest, -, -⟩ := h.requests.pop hc
    rw [hpop]
    refine ⟨_, _, rfl, ?_⟩
    have hasking : (t.below ++ [(mf, cfg.replies)]) ++
        requests.contents.map (fun mf => (mf, cfg.replies)) = t.asking cfg := by
      simp [asking, hc, hrest]
    refine { h with requests := hsound, waiting := ?_, marks := ?_, counts := ?_ }
    · exact (congrArg (List.map Prod.fst) hasking).trans h.waiting
    · intro k r hk hready
      obtain ⟨n, hn, hfind⟩ := h.marks k r hk hready
      rw [← hasking] at hn
      exact ⟨n, hn, hfind⟩
    · intro b hb
      rcases List.mem_append.mp hb with hb | hb
      · exact h.counts b hb
      · rw [List.mem_singleton.mp hb]

/-- The oldest fragment goes to the results once its line is there. -/
theorem Sound.finish (h : t.Sound cfg) {e : FragmentEntry} {es : List FragmentEntry}
    (hc : t.cache.m_fragment_fifo.contents = e :: es)
    (hroom : t.cache.m_result_fifo.full = false) {rob : Fifo RobEntry} (hrob : rob.Sound)
    (hmisses : rob.contents.map RobEntry.claim =
      (es.filter FragmentEntry.m_miss).map (FragmentEntry.claim cfg))
    (hunready : ({ t.cache with m_rob := rob } : TexCache).unready = t.cache.unready)
    (hcells : ∀ k r, rob.contents[k]? = some r → ∃ k', t.cache.m_rob.contents[k']? = some r ∧
      (rob.m_tail + k) % rob.m_size = (t.cache.m_rob.m_tail + k') % t.cache.m_rob.m_size) :
    ∃ c, ({ t.cache with
        m_cache := settle cfg t.cache.m_cache e
        m_rob := rob } : TexCache).finish e = some c ∧
      c.m_fragment_fifo.contents = es ∧ Sound cfg { t with cache := c } := by
  obtain ⟨results, hpush, hsound, hcResults, -, -⟩ := h.results.push hroom e.m_request
  obtain ⟨fragments, hpop, hsoundFragments, hcFragments, -, -⟩ := h.fragments.pop hc
  refine ⟨_, TexCache.finish_eq hpush hpop, hcFragments, ?_⟩
  have hhits := h.hits
  rw [hc] at hhits
  have hsame : results.contents ++ fragments.contents.map FragmentEntry.m_request =
      t.cache.m_result_fifo.contents ++
        t.cache.m_fragment_fifo.contents.map FragmentEntry.m_request := by
    simp [hc, hcResults, hcFragments]
  refine { h with fragments := hsoundFragments, results := hsound, rob := hrob, order := ?_,
                  distinct := ?_, misses := ?_, hits := ?_, ahead := ?_, waiting := ?_,
                  marks := ?_ }
  · exact h.order.trans (congrArg (t.returned ++ ·) hsame.symm)
  · exact (congrArg (fun l => (l.map MemFetch.serial).Nodup) hsame).mpr h.distinct
  · rw [hcFragments]
    exact hmisses
  · rw [hcFragments]
    exact hhits.2
  · intro i b hb
    have hahead := h.ahead i b hb
    rw [hc, List.foldl_cons] at hahead
    rw [hcFragments]
    exact hahead
  · exact h.waiting.trans hunready.symm
  · intro k r hk hready
    obtain ⟨k', hk', hcell⟩ := hcells k r hk
    obtain ⟨n, hn, hfind⟩ := h.marks k' r hk' hready
    refine ⟨n, hn, hfind.trans ?_⟩
    rw [← hcell]

/-- The oldest entry of the reorder buffer is that of the oldest fragment, if it is a miss. -/
theorem Sound.oldest_miss (h : t.Sound cfg) {e : FragmentEntry} {es : List FragmentEntry}
    (hc : t.cache.m_fragment_fifo.contents = e :: es) (hmiss : e.m_miss = true) :
    ∃ r rs, t.cache.m_rob.contents = r :: rs ∧ r.claim = e.claim cfg ∧
      rs.map RobEntry.claim = (es.filter FragmentEntry.m_miss).map (FragmentEntry.claim cfg) := by
  have hmisses := h.misses
  rw [hc, List.filter_cons_of_pos hmiss, List.map_cons] at hmisses
  obtain ⟨r, rs, hrob, hclaim, hrest⟩ := List.map_eq_cons_iff.mp hmisses
  exact ⟨r, rs, hrob, hclaim, hrest⟩

theorem Sound.readMiss (h : t.Sound cfg) {e : FragmentEntry} {es : List FragmentEntry}
    (hc : t.cache.m_fragment_fifo.contents = e :: es) (hmiss : e.m_miss = true)
    (hroom : t.cache.m_result_fifo.full = false) :
    ∃ c, t.cache.readMiss e = some c ∧ Sound cfg { t with cache := c } ∧
      (t.cache.unready = [] → c.m_fragment_fifo.contents = es) := by
  obtain ⟨r, rs, hrob, hclaim, hrest⟩ := h.oldest_miss hc hmiss
  obtain ⟨hrequest, hindex, hblock⟩ : r.m_request = e.m_request ∧ r.m_index = e.m_cache_index ∧
      r.m_block_addr = cfg.block_addr e.m_request.addr := by
    simpa [RobEntry.claim, FragmentEntry.claim] using hclaim
  have hpeek : t.cache.m_rob.peekAt t.cache.m_rob.next_pop_index = some r := by
    have hpeek := h.rob.peekAt (k := 0) (by rw [hrob]; rfl)
    rwa [Nat.add_zero, Nat.mod_eq_of_lt (h.rob.tail_lt hrob)] at hpeek
  unfold TexCache.readMiss
  rw [hpeek, Option.bind_some, if_neg (by simp [hrequest])]
  cases hready : r.m_ready with
  | false =>
    rw [if_neg (by simp)]
    refine ⟨t.cache, rfl, h, fun hnone => ?_⟩
    simp [TexCache.unready, hrob, hready] at hnone
  | true =>
    rw [if_pos rfl, if_neg (by simp [hindex])]
    obtain ⟨rob, hpop, hsound, hcRob, htail, hsize⟩ := h.rob.pop hrob
    have hsettle : settle cfg t.cache.m_cache e = Function.update t.cache.m_cache r.m_index
        { m_valid := true, m_block_addr := r.m_block_addr } := by
      unfold settle
      rw [if_pos hmiss, hindex, hblock]
    rw [hpop, Option.bind_some, ← hsettle]
    have hcells : ∀ k r, rob.contents[k]? = some r → ∃ k', t.cache.m_rob.contents[k']? = some r ∧
        (rob.m_tail + k) % rob.m_size = (t.cache.m_rob.m_tail + k') % t.cache.m_rob.m_size := by
      intro k r' hk
      refine ⟨k + 1, ?_, by rw [htail, hsize, rings.cell_succ]⟩
      rw [hrob, List.getElem?_cons_succ, ← hcRob]
      exact hk
    obtain ⟨c, hfinish, hes, hc'⟩ := h.finish hc hroom hsound (hcRob ▸ hrest)
      (by simp [TexCache.unready, hrob, hcRob, hready]) hcells
    exact ⟨c, hfinish, hc', fun _ => hes⟩

theorem Sound.readHit (h : t.Sound cfg) {e : FragmentEntry} {es : List FragmentEntry}
    (hc : t.cache.m_fragment_fifo.contents = e :: es) (hhit : e.m_miss = false)
    (hroom : t.cache.m_result_fifo.full = false) :
    ∃ c, t.cache.readHit cfg e = some c ∧ Sound cfg { t with cache := c } ∧
      c.m_fragment_fifo.contents = es := by
  have hline := h.hits
  rw [hc] at hline
  have hline := hline.1 hhit
  unfold TexCache.readHit
  rw [if_pos (by simp [hline])]
  have hsettle : settle cfg t.cache.m_cache e = t.cache.m_cache := by simp [settle, hhit]
  have hmisses := h.misses
  rw [hc, List.filter_cons_of_neg (by simp [hhit])] at hmisses
  obtain ⟨c, hfinish, hes, hc'⟩ := h.finish hc hroom h.rob hmisses rfl fun k r hk => ⟨k, hk, rfl⟩
  rw [hsettle] at hfinish
  exact ⟨c, hfinish, hc', hes⟩

theorem Sound.readReady (h : t.Sound cfg) :
    ∃ c, t.cache.readReady cfg = some c ∧ Sound cfg { t with cache := c } ∧
      ∀ e es, t.cache.m_fragment_fifo.contents = e :: es →
        t.cache.m_result_fifo.full = false → t.cache.unready = [] →
          c.m_fragment_fifo.contents = es := by
  unfold TexCache.readReady
  cases hc : t.cache.m_fragment_fifo.contents with
  | nil =>
    rw [h.fragments.empty_iff.mpr hc, Bool.true_or, if_pos rfl]
    exact ⟨t.cache, rfl, h, fun e es hcon => by cases hcon⟩
  | cons e es =>
    cases hroom : t.cache.m_result_fifo.full with
    | true =>
      rw [Bool.or_true, if_pos rfl]
      exact ⟨t.cache, rfl, h, fun e es _ hcon => by cases hcon⟩
    | false =>
      have hsome : ¬ t.cache.m_fragment_fifo.empty = true := by
        rw [h.fragments.empty_iff, hc]
        exact List.cons_ne_nil e es
      rw [if_neg (by simpa using hsome), h.fragments.peek hc, Option.bind_some]
      cases hmiss : e.m_miss with
      | true =>
        obtain ⟨c, hread, hsound, hes⟩ := h.readMiss hc hmiss hroom
        refine ⟨c, by simpa using hread, hsound, fun e' es' heq _ hnone => ?_⟩
        rw [hes hnone, (List.cons.inj heq).2]
      | false =>
        obtain ⟨c, hread, hsound, hes⟩ := h.readHit hc hmiss hroom
        refine ⟨c, by simpa using hread, hsound, fun e' es' heq _ _ => ?_⟩
        rw [hes, (List.cons.inj heq).2]

theorem Sound.cycle (h : t.Sound cfg) (port_full : Bool) :
    ∃ t', t.step cfg (.cycle port_full) = some t' ∧ t'.Sound cfg := by
  obtain ⟨c, sent, hsend, hsound⟩ := h.sendRequest port_full
  obtain ⟨c', hread, hsound', -⟩ := hsound.readReady
  unfold step TexCache.cycle
  dsimp only at hread ⊢
  rw [hsend, Option.bind_some, hread]
  exact ⟨_, rfl, hsound'⟩

/-! ## Replies -/

theorem answer_eq {serial : Nat} {b : MemFetch × Nat} {b₁ : List (MemFetch × Nat)}
    (b₂ : List (MemFetch × Nat)) (hb : b.1.serial = serial) (hb₁ : ∀ x ∈ b₁, x.1.serial ≠ serial) :
    answer serial (b₁ ++ b :: b₂) =
      b₁ ++ if b.2 ≤ 1 then b₂ else (b.1, b.2 - 1) :: b₂ := by
  induction b₁ with
  | nil =>
    rw [List.nil_append, answer, if_pos hb]
    rfl
  | cons x b₁ ih =>
    rw [List.cons_append, answer, if_neg (hb₁ x List.mem_cons_self),
      ih fun y hy => hb₁ y (List.mem_cons_of_mem _ hy)]
    rfl

theorem Sound.rob_requests (h : t.Sound cfg) :
    t.cache.m_rob.contents.map RobEntry.m_request =
      (t.cache.m_fragment_fifo.contents.filter FragmentEntry.m_miss).map
        FragmentEntry.m_request := by
  have hfst := congrArg (List.map Prod.fst) h.misses
  simpa [RobEntry.claim, FragmentEntry.claim, Function.comp_def] using hfst

/-- No two requests have one number. -/
theorem Sound.asking_nodup (h : t.Sound cfg) :
    ((t.asking cfg).map fun b => b.1.serial).Nodup := by
  have hsub : t.cache.unready.Sublist
      (t.cache.m_fragment_fifo.contents.map FragmentEntry.m_request) :=
    (List.filter_sublist.map _).trans (h.rob_requests ▸ List.filter_sublist.map _)
  have hnodup := h.distinct
  rw [List.map_append] at hnodup
  have hunready := (hnodup.of_append_right).sublist (hsub.map MemFetch.serial)
  rw [← h.waiting, List.map_map] at hunready
  exact hunready

theorem Sound.asking_inj (h : t.Sound cfg) {b b' : MemFetch × Nat} (hb : b ∈ t.asking cfg)
    (hb' : b' ∈ t.asking cfg) (heq : b.1.serial = b'.1.serial) : b = b' :=
  List.inj_on_of_nodup_map h.asking_nodup hb hb' heq

/-- The entry of the reorder buffer that a request is for. -/
theorem Sound.entry (h : t.Sound cfg) {b : MemFetch × Nat} (hb : b ∈ t.asking cfg) :
    ∃ r₁ r r₂, t.cache.m_rob.contents = r₁ ++ r :: r₂ ∧ r.m_ready = false ∧ r.m_request = b.1 ∧
      t.cache.m_extra_mf_fields.find b.1.serial =
        some { m_valid := true
               m_rob_index := (t.cache.m_rob.m_tail + r₁.length) % t.cache.m_rob.m_size
               pending_read := cfg.pending b.2 } := by
  have hmem : b.1 ∈ t.cache.unready := h.waiting ▸ List.mem_map_of_mem hb
  obtain ⟨r, hr, hrequest⟩ := List.mem_map.mp hmem
  obtain ⟨hr, hready⟩ := List.mem_filter.mp hr
  obtain ⟨r₁, r₂, hsplit⟩ := List.append_of_mem hr
  have hready : r.m_ready = false := by simpa using hready
  obtain ⟨n, hn, hfind⟩ := h.marks r₁.length r (by simp [hsplit]) hready
  have hsame : (r.m_request, n) = b := h.asking_inj hn hb (by rw [hrequest])
  refine ⟨r₁, r, r₂, hsplit, hready, hrequest, ?_⟩
  rw [hrequest] at hfind
  rw [hfind, ← congrArg Prod.snd hsame]

/-- A reply that is not the last is counted. -/
theorem Sound.counted (h : t.Sound cfg) {b : MemFetch × Nat} {b₁ b₂ : List (MemFetch × Nat)}
    (hbelow : t.below = b₁ ++ b :: b₂) (hmore : 1 < b.2)
    (hsector : cfg.tex_mshr_type = .SECTOR_TEX_FIFO) {e : TexMfFields} :
    Sound cfg { t with
      cache := { t.cache with
        m_extra_mf_fields :=
          t.cache.m_extra_mf_fields.alter b.1.serial e fun e => e.dec_pending_read }
      below := b₁ ++ (b.1, b.2 - 1) :: b₂ } := by
  have hb : b ∈ t.asking cfg := by simp [asking, hbelow]
  refine { h with waiting := ?_, marks := ?_, counts := ?_ }
  · refine Eq.trans ?_ h.waiting
    simp [asking, hbelow]
  · intro k r hk hready
    obtain ⟨n, hn, hfind'⟩ := h.marks k r hk hready
    by_cases hserial : r.m_request.serial = b.1.serial
    · have hsame : (r.m_request, n) = b := h.asking_inj hn hb hserial
      obtain rfl : n = b.2 := congrArg Prod.snd hsame
      have hrequest : r.m_request = b.1 := congrArg Prod.fst hsame
      refine ⟨b.2 - 1, by simp [asking, hrequest], ?_⟩
      change (t.cache.m_extra_mf_fields.alter b.1.serial e _).find r.m_request.serial = _
      rw [hserial] at hfind' ⊢
      rw [StdMap.find_alter_self, StdMap.findD, hfind']
      have hpos : b.2 ≠ 0 := by omega
      simp [TexConfig.pending, hsector, TexMfFields.dec_pending_read, hpos]
    · refine ⟨n, ?_, ?_⟩
      · have hne : (r.m_request, n) ≠ b := fun heq => hserial (congrArg (fun b => b.1.serial) heq)
        simp only [asking, hbelow, List.mem_append, List.mem_cons] at hn ⊢
        tauto
      · change (t.cache.m_extra_mf_fields.alter b.1.serial e _).find r.m_request.serial = _
        rw [StdMap.find_alter_ne _ _ _ hserial, hfind']
  · intro x hx
    rcases List.mem_append.mp hx with hx | hx
    · exact h.counts x (by simp [hbelow, hx])
    · rcases List.mem_cons.mp hx with rfl | hx
      · have hle := h.counts b (by simp [hbelow])
        dsimp only
        omega
      · exact h.counts x (by simp [hbelow, hx])

/-- `fillRob` at an entry of the reorder buffer that is not ready. -/
theorem Sound.fillRob (h : t.Sound cfg) {fields : StdMap Nat TexMfFields} {mf : MemFetch}
    (time : Nat) {n : Nat} {r₁ r₂ : List RobEntry} {r : RobEntry}
    (hsplit : t.cache.m_rob.contents = r₁ ++ r :: r₂) (hready : r.m_ready = false)
    (hrequest : r.m_request = mf)
    (hfind : fields.find mf.serial =
      some { m_valid := true
             m_rob_index := (t.cache.m_rob.m_tail + r₁.length) % t.cache.m_rob.m_size
             pending_read := n }) :
    ∃ rob, ({ t.cache with m_extra_mf_fields := fields } : TexCache).fillRob cfg mf time =
        some { t.cache with m_extra_mf_fields := fields, m_rob := rob } ∧ rob.Sound ∧
      rob.contents = r₁ ++ { r with m_ready := true, m_time := time } :: r₂ ∧
      rob.m_tail = t.cache.m_rob.m_tail ∧ rob.m_size = t.cache.m_rob.m_size := by
  have hblock : r.m_block_addr = cfg.block_addr mf.addr := by
    obtain ⟨x, -, -, hx⟩ := h.rob_request (r := r) (by simp [hsplit])
    have hreq : x.m_request = r.m_request := congrArg Prod.fst hx
    have hblock : cfg.block_addr x.m_request.addr = r.m_block_addr := congrArg (fun y => y.2.2) hx
    rw [← hblock, hreq, hrequest]
  have hsome : t.cache.m_rob.empty = false := by
    rw [Bool.eq_false_iff, Ne, h.rob.empty_iff, hsplit]
    simp
  have hpeek := h.rob.peekAt (k := r₁.length) (e := r) (by simp [hsplit])
  obtain ⟨hsound, hcontents⟩ := h.rob.write (k := r₁.length) (by simp [hsplit])
    { r with m_ready := true, m_time := time }
  refine ⟨_, ?_, hsound, ?_, rfl, rfl⟩
  · unfold TexCache.fillRob
    dsimp only
    rw [hfind, Option.bind_some, if_neg (by simp [hsome]), hpeek, Option.bind_some,
      if_neg (by simp [hready, hblock])]
  · rw [hcontents, hsplit]
    simp

/-- The last reply makes the entry of its request ready. -/
theorem Sound.answered (h : t.Sound cfg) {b : MemFetch × Nat} {b₁ b₂ : List (MemFetch × Nat)}
    (hbelow : t.below = b₁ ++ b :: b₂) (time : Nat) (fields : StdMap Nat TexMfFields)
    (hothers : ∀ serial, serial ≠ b.1.serial →
      fields.find serial = t.cache.m_extra_mf_fields.find serial) {n : Nat}
    (hown : fields.find b.1.serial =
      (t.cache.m_extra_mf_fields.find b.1.serial).map fun e => { e with pending_read := n }) :
    ∃ c, ({ t.cache with m_extra_mf_fields := fields } : TexCache).fillRob cfg b.1 time = some c ∧
      Sound cfg { t with cache := c, below := b₁ ++ b₂ } := by
  have hb : b ∈ t.asking cfg := by simp [asking, hbelow]
  obtain ⟨r₁, r, r₂, hsplit, hready, hrequest, hmark⟩ := h.entry hb
  rw [hmark] at hown
  obtain ⟨rob, hfill, hsound, hcontents, htail, hsize⟩ := h.fillRob time hsplit hready
    hrequest hown
  refine ⟨_, hfill, ?_⟩
  have hasking : t.asking cfg = b₁ ++ b :: (b₂ ++
      t.cache.m_request_fifo.contents.map fun mf => (mf, cfg.replies)) := by
    simp [asking, hbelow]
  have hnodup := h.asking_nodup
  rw [hasking, List.map_append, List.map_cons, List.nodup_middle, List.nodup_cons,
    ← List.map_append] at hnodup
  -- the request leaves both lists at the same place
  have hwaiting := h.waiting
  have hunready : t.cache.unready = (r₁.filter fun r => !r.m_ready).map RobEntry.m_request ++
      b.1 :: (r₂.filter fun r => !r.m_ready).map RobEntry.m_request := by
    simp [TexCache.unready, hsplit, hready, hrequest]
  have hout : ∀ x ∈ b₁ ++ (b₂ ++
      t.cache.m_request_fifo.contents.map fun mf => (mf, cfg.replies)),
      x.1.serial ≠ b.1.serial :=
    fun x hx heq => hnodup.1 (List.mem_map.mpr ⟨x, hx, heq⟩)
  rw [hasking, hunready, List.map_append, List.map_cons, List.append_cons_inj_of_notMem] at hwaiting
  · obtain ⟨hfirst, -, hrest⟩ := hwaiting
    refine { h with rob := hsound, misses := ?_, waiting := ?_, marks := ?_, counts := ?_ }
    · have hmisses := h.misses
      rw [hsplit] at hmisses
      rw [← hmisses, hcontents]
      simp [RobEntry.claim]
    · simp only [asking, TexCache.unready, hcontents]
      rw [List.append_assoc, List.map_append, hfirst, hrest]
      simp
    · intro k r' hk hready'
      have hnot : r'.m_request.serial ≠ b.1.serial := by
        have hmem : r' ∈ rob.contents := List.mem_of_getElem? hk
        rw [hcontents, List.mem_append, List.mem_cons] at hmem
        intro heq
        rcases hmem with hmem | rfl | hmem
        · have hin : r'.m_request ∈ (r₁.filter fun r => !r.m_ready).map RobEntry.m_request :=
            List.mem_map_of_mem (List.mem_filter.mpr ⟨hmem, by simp [hready']⟩)
          rw [← hfirst] at hin
          obtain ⟨x, hx, hxr⟩ := List.mem_map.mp hin
          exact hout x (List.mem_append_left _ hx) (by rw [hxr, heq])
        · cases hready'
        · have hin : r'.m_request ∈ (r₂.filter fun r => !r.m_ready).map RobEntry.m_request :=
            List.mem_map_of_mem (List.mem_filter.mpr ⟨hmem, by simp [hready']⟩)
          rw [← hrest] at hin
          obtain ⟨x, hx, hxr⟩ := List.mem_map.mp hin
          exact hout x (List.mem_append_right _ hx) (by rw [hxr, heq])
      have hold : t.cache.m_rob.contents[k]? = some r' := by
        have hset : rob.contents =
            t.cache.m_rob.contents.set r₁.length { r with m_ready := true, m_time := time } := by
          rw [hcontents, hsplit]
          simp
        change rob.contents[k]? = some r' at hk
        rcases eq_or_ne r₁.length k with rfl | hne
        · rw [hset, List.getElem?_set_self (by simp [hsplit])] at hk
          cases hk
          cases hready'
        · rwa [hset, List.getElem?_set_ne hne] at hk
      obtain ⟨n', hn', hfind'⟩ := h.marks k r' hold hready'
      refine ⟨n', ?_, ?_⟩
      · have hne : (r'.m_request, n') ≠ b := fun heq => hnot (congrArg (fun b => b.1.serial) heq)
        rw [hasking] at hn'
        simp only [asking, List.mem_append, List.mem_cons] at hn' ⊢
        tauto
      · refine (hothers _ hnot).trans (hfind'.trans ?_)
        rw [htail, hsize]
    · intro x hx
      refine h.counts x ?_
      rw [hbelow]
      rcases List.mem_append.mp hx with hx | hx
      · exact List.mem_append_left _ hx
      · exact List.mem_append_right _ (List.mem_cons_of_mem _ hx)
  · intro hin
    obtain ⟨x, hx, heq⟩ := List.mem_map.mp hin
    exact hout x (List.mem_append_left _ hx) (by rw [heq])
  · intro hin
    obtain ⟨x, hx, heq⟩ := List.mem_map.mp hin
    exact hout x (List.mem_append_right _ hx) (by rw [heq])

theorem Sound.fill (h : t.Sound cfg) {serial time : Nat}
    (hok : t.Proper cfg (.fill serial time)) :
    ∃ t', t.step cfg (.fill serial time) = some t' ∧ t'.Sound cfg := by
  obtain ⟨b', hb', hserial', hpos⟩ := hok
  obtain ⟨b, hfound⟩ : ∃ b, t.below.find? (fun b => decide (b.1.serial = serial)) = some b :=
    Option.isSome_iff_exists.mp (List.find?_isSome.mpr ⟨b', hb', decide_eq_true hserial'⟩)
  obtain ⟨hserial, b₁, b₂, hbelow, hb₁⟩ := List.find?_eq_some_iff_append.mp hfound
  have hserial : b.1.serial = serial := of_decide_eq_true hserial
  have hb : b ∈ t.asking cfg := by simp [asking, hbelow]
  obtain rfl : b' = b :=
    h.asking_inj (List.mem_append_left _ hb') hb (hserial'.trans hserial.symm)
  have hanswer := answer_eq b₂ hserial fun x hx => by simpa using hb₁ x hx
  obtain ⟨r₁, r, r₂, -, -, -, hmark⟩ := h.entry hb
  unfold step
  dsimp only
  rw [hfound, Option.bind_some, hbelow, hanswer]
  unfold TexCache.fill
  cases hmshr : cfg.tex_mshr_type with
  | TEX_FIFO =>
    have hlast : b'.2 ≤ 1 := by
      have hle := h.counts b' hb'
      rwa [TexConfig.replies, hmshr] at hle
    obtain ⟨c, hc, hsound⟩ := h.answered hbelow time t.cache.m_extra_mf_fields
      (fun _ _ => rfl) (n := cfg.pending b'.2) (by rw [hmark]; rfl)
    rw [if_pos hlast]
    dsimp only
    rw [show t.cache.fillRob cfg b'.1 time = some c from hc]
    exact ⟨_, rfl, hsound⟩
  | SECTOR_TEX_FIFO =>
    obtain ⟨e, he, hpending⟩ : ∃ e, t.cache.m_extra_mf_fields.find b'.1.serial = some e ∧
        e.pending_read = b'.2 :=
      ⟨_, hmark, by simp [TexConfig.pending, hmshr]⟩
    have hdec : e.dec_pending_read.pending_read = b'.2 - 1 := by
      unfold TexMfFields.dec_pending_read
      rw [hpending]
      exact if_neg (by omega)
    rw [Option.bind_some, he, Option.bind_some]
    dsimp only
    rw [hdec]
    rcases Nat.lt_or_ge 1 b'.2 with hmore | hlast
    · rw [if_neg (by omega), if_pos (by omega)]
      exact ⟨_, rfl, h.counted hbelow hmore hmshr⟩
    · rw [if_pos hlast, if_neg (by omega)]
      obtain ⟨c, hc, hsound⟩ := h.answered hbelow time
        (t.cache.m_extra_mf_fields.alter b'.1.serial e fun e => e.dec_pending_read)
        (fun serial hne => StdMap.find_alter_ne _ _ _ hne) (n := b'.2 - 1) (by
          rw [StdMap.find_alter_self, StdMap.findD, he, ← hdec]
          rfl)
      rw [hc]
      exact ⟨_, rfl, hsound⟩

/-! ## Results -/

theorem Sound.next_access (h : t.Sound cfg) (hok : t.Proper cfg .next_access) :
    ∃ t', t.step cfg .next_access = some t' ∧ t'.Sound cfg := by
  obtain ⟨mf, rest, hc⟩ : ∃ mf rest, t.cache.m_result_fifo.contents = mf :: rest := by
    refine List.exists_cons_of_ne_nil fun hnil => ?_
    have hempty := h.results.empty_iff.mpr hnil
    change (!t.cache.m_result_fifo.empty) = true at hok
    rw [hempty] at hok
    cases hok
  obtain ⟨results, hpop, hsound, hrest, -, -⟩ := h.results.pop hc
  unfold step TexCache.next_access
  dsimp only
  rw [hpop]
  refine ⟨_, rfl, { h with results := hsound, order := ?_, distinct := ?_ }⟩
  · have horder := h.order
    rw [hc] at horder
    simp [horder, hrest]
  · have hdistinct := h.distinct
    rw [hc, List.cons_append, List.map_cons] at hdistinct
    rw [hrest]
    exact hdistinct.of_cons

/-! ## Runs -/

/-- No proper call fails an assertion. -/
theorem Sound.step (h : t.Sound cfg) (hnormal : cfg.m_cache_type = .NORMAL)
    (hassoc : 0 < cfg.m_assoc) {c : TexCall} (hok : t.Proper cfg c) :
    ∃ t', t.step cfg c = some t' ∧ t'.Sound cfg := by
  cases c with
  | access mf time => exact h.access hnormal hassoc hok
  | cycle port_full => exact h.cycle port_full
  | fill serial time => exact h.fill hok
  | next_access => exact h.next_access hok

/-- Where nothing waits for the memory, a cycle with room hands on the oldest fragment. -/
theorem Sound.hands_on (h : t.Sound cfg) (hbelow : t.below = [])
    (hrequests : t.cache.m_request_fifo.contents = []) {e : FragmentEntry}
    {es : List FragmentEntry} (hc : t.cache.m_fragment_fifo.contents = e :: es)
    (hroom : t.cache.m_result_fifo.full = false) (port_full : Bool) :
    ∃ t', t.step cfg (.cycle port_full) = some t' ∧
      t'.cache.m_fragment_fifo.contents = es := by
  have hsend : t.cache.sendRequest port_full = some (t.cache, none) := by
    unfold TexCache.sendRequest
    rw [h.requests.empty_iff.mpr hrequests]
    rfl
  have hunready : t.cache.unready = [] := by
    rw [← h.waiting]
    simp [asking, hbelow, hrequests]
  obtain ⟨c, hread, -, hes⟩ := h.readReady
  unfold TexRun.step TexCache.cycle
  dsimp only
  rw [hsend, Option.bind_some, hread]
  exact ⟨_, rfl, hes e es hc hroom hunready⟩

end TexRun

/-- Whatever the order of the replies, no assertion of the texture cache fails, and its
results come out in the order of the accesses: what has not come out is in its queues,
each missing line is asked for once, and nothing waits but for the memory. -/
theorem textures_come_in_order {cfg : TexConfig} (hnormal : cfg.m_cache_type = .NORMAL)
    (hassoc : 0 < cfg.m_assoc) {calls : List TexCall}
    (hproper : machines.Allowed (TexRun.step cfg) (TexRun.Proper cfg) (TexRun.start cfg) calls) :
    ∃ t, machines.run (TexRun.step cfg) (TexRun.start cfg) calls = some t ∧
      t.cache.m_tags.aborted = false ∧
      t.accepted = t.returned ++ (t.cache.m_result_fifo.contents ++
        t.cache.m_fragment_fifo.contents.map FragmentEntry.m_request) ∧
      t.below.map Prod.fst ++ t.cache.m_request_fifo.contents = t.cache.unready ∧
      t.cache.m_rob.contents.map RobEntry.m_request =
        (t.cache.m_fragment_fifo.contents.filter FragmentEntry.m_miss).map
          FragmentEntry.m_request ∧
      (t.below = [] → t.cache.m_request_fifo.contents = [] →
        t.cache.m_result_fifo.full = false → ∀ e es,
          t.cache.m_fragment_fifo.contents = e :: es → ∀ port_full, ∃ t',
            t.step cfg (.cycle port_full) = some t' ∧
              t'.cache.m_fragment_fifo.contents = es) := by
  obtain ⟨t, hrun, h⟩ := machines.runs_on
    (fun t c ht hok => TexRun.Sound.step ht hnormal hassoc hok) hproper TexRun.Sound.start
  refine ⟨t, hrun, h.quiet.going, h.order, ?_, h.rob_requests, ?_⟩
  · have hwaiting := h.waiting
    simpa [TexRun.asking, Function.comp_def] using hwaiting
  · intro hbelow hrequests hroom e es hc port_full
    exact h.hands_on hbelow hrequests hc hroom port_full

/-- One line, of 64 bytes, over a memory without sectors. -/
def oneTexLine : TexConfig where
  m_cache_type := .NORMAL
  m_nset := 1
  m_assoc := 1
  m_line_sz := 64
  m_replacement_policy := .LRU
  m_write_policy := .READ_ONLY
  m_alloc_policy := .ON_MISS
  m_write_alloc_policy := .NO_WRITE_ALLOCATE
  m_mshr_type := .ASSOC
  m_mshr_entries := 4
  m_mshr_max_merge := 2
  m_miss_queue_size := 2
  m_wr_percent := 0
  set_index := fun _ => 0
  m_wr_alloc_type := .L1_WR_ALLOC_R
  m_wrbk_type := .L1_WRBK_ACC
  set_index_lt := fun _ => Nat.zero_lt_one
  lines_fit := by decide
  on_fill_ok := by
    intro h
    cases h
  sectors_ok := by
    intro h
    cases h
  tex_mshr_type := .TEX_FIFO
  m_result_fifo_entries := 2
  read_only := rfl
  on_miss := rfl

def texRead (serial addr : Nat) : MemFetch where
  serial := serial
  addr := addr
  data_size := 32
  type := .TEXTURE_ACC_R
  is_write := false
  isatomic := false
  sector_mask := 1
  byte_mask := 0

/-- A miss, a hit of its line and a miss that takes the line, of which the second comes
back first. -/
def replacedLine : List TexCall :=
  [.access (texRead 1 0) 10, .access (texRead 2 32) 11, .access (texRead 3 128) 12,
    .cycle false, .cycle false, .fill 3 20, .cycle false, .fill 1 21, .cycle false, .cycle false,
    .next_access, .next_access, .cycle false, .next_access]

/-- The hit comes out before the line is taken. -/
theorem replaced_line_is_read_first : ∃ t,
    machines.run (TexRun.step oneTexLine) (TexRun.start oneTexLine) replacedLine = some t ∧
      t.returned.map MemFetch.serial = [1, 2, 3] := by
  have hproper : machines.Allowed (TexRun.step oneTexLine) (TexRun.Proper oneTexLine)
      (TexRun.start oneTexLine) replacedLine := by
    decide +kernel
  obtain ⟨t, hrun, -⟩ := textures_come_in_order rfl Nat.zero_lt_one hproper
  have hreturned : (machines.run (TexRun.step oneTexLine) (TexRun.start oneTexLine)
      replacedLine).map (fun t => t.returned.map MemFetch.serial) = some [1, 2, 3] := by
    decide +kernel
  rw [hrun] at hreturned
  exact ⟨t, hrun, Option.some.inj hreturned⟩

end gpgpu_sim_uvm.gpu_cache
