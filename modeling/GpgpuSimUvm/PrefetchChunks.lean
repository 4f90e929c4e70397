-- One execution of the user prefetch. The loop walks over the pages of a chunk, which lie in one
-- 2MB piece of the allocation, takes those that are not resident, and comes nearer to the end of
-- the request.
import GpgpuSimUvm.HandledPages
import GpgpuSimUvm.FetchPages

namespace gpgpu_sim_uvm

open monitor

variable {cfg : Config}

/-! ## Ranges of pages -/

variable (cfg) in
/-- The pages from one address to another. -/
def pagesUpTo (a b : Nat) : List Nat :=
  List.range' (cfg.get_page_num a) (cfg.get_page_num b - cfg.get_page_num a)

theorem pagesUpTo_self (a : Nat) : pagesUpTo cfg a a = [] := by
  rw [pagesUpTo, Nat.sub_self]
  rfl

variable (cfg) in
theorem page_mono {a b : Nat} (h : a ≤ b) : cfg.get_page_num a ≤ cfg.get_page_num b :=
  Nat.div_le_div_right h

variable (cfg) in
theorem pagesUpTo_append {a b c : Nat} (hab : a ≤ b) (hbc : b ≤ c) :
    pagesUpTo cfg a b ++ pagesUpTo cfg b c = pagesUpTo cfg a c := by
  have hfirst := page_mono cfg hab
  have hlast := page_mono cfg hbc
  have hend : cfg.get_page_num b =
      cfg.get_page_num a + (cfg.get_page_num b - cfg.get_page_num a) := by omega
  have hlength : cfg.get_page_num c - cfg.get_page_num a =
      (cfg.get_page_num b - cfg.get_page_num a) + (cfg.get_page_num c - cfg.get_page_num b) := by
    omega
  rw [pagesUpTo, pagesUpTo, pagesUpTo, hlength, ← List.range'_append_1, ← hend]

theorem page_add (a : Nat) : cfg.get_page_num (a + cfg.page_size) = cfg.get_page_num a + 1 :=
  Nat.add_div_right a cfg.page_size_pos

theorem pagesUpTo_page (a : Nat) : pagesUpTo cfg a (a + cfg.page_size) = [cfg.get_page_num a] := by
  rw [pagesUpTo, page_add, Nat.add_sub_cancel_left]
  rfl

theorem mem_pagesUpTo {a b p : Nat} :
    p ∈ pagesUpTo cfg a b ↔ cfg.get_page_num a ≤ p ∧ p < cfg.get_page_num b := by
  rw [pagesUpTo, List.mem_range'_1]
  omega

theorem pagesUpTo_nodup (a b : Nat) : (pagesUpTo cfg a b).Nodup := List.nodup_range'

/-! ## The 2MB pieces of an allocation -/

/-- A page lies in one piece of the allocation. -/
theorem piece_of_page {x : Nat} (hx : cfg.page_size ∣ x) :
    (x + cfg.page_size - 1) / MAX_PREFETCH_SIZE = x / MAX_PREFETCH_SIZE := by
  obtain ⟨k, rfl⟩ := hx
  rcases cfg.page_size_ok with h | h
  · rw [h, MAX_PREFETCH_SIZE]
    omega
  · rw [h, MAX_PREFETCH_SIZE]
    omega

theorem sub_size_t_piece {a b : Nat} (h : b ≤ a) :
    sub_size_t a b % MAX_PREFETCH_SIZE = (a - b) % MAX_PREFETCH_SIZE := by
  rw [sub_size_t, SIZE_T, MAX_PREFETCH_SIZE]
  omega

/-- So does the next page, unless a new piece starts there. -/
theorem piece_goes_on {x : Nat} (hx : cfg.page_size ∣ x)
    (hon : (x + cfg.page_size) % MAX_PREFETCH_SIZE ≠ 0) :
    (x + cfg.page_size) / MAX_PREFETCH_SIZE = x / MAX_PREFETCH_SIZE := by
  obtain ⟨k, rfl⟩ := hx
  rcases cfg.page_size_ok with h | h
  · rw [h, MAX_PREFETCH_SIZE] at hon ⊢
    omega
  · rw [h, MAX_PREFETCH_SIZE] at hon ⊢
    omega

/-! ## The loop -/

variable (cfg) in
/-- A part of the loop: from one address of the request on to another, in one piece of the
allocation, it takes the pages that are not resident. -/
structure Chunk (g : Gpu) (q q' : PrefetchReq) : Prop where
  start : q'.start_addr = q.start_addr
  size : q'.size = q.size
  allocation : q'.allocation_addr = q.allocation_addr
  stream : q'.m_stream = q.m_stream
  active : q'.active = q.active
  ahead : q.cur_addr < q'.cur_addr
  within : q'.cur_addr ≤ q.start_addr + q.size
  aligned : cfg.page_size ∣ q'.cur_addr
  piece : cfg.page_size ∣ q.allocation_addr → q.allocation_addr ≤ q.cur_addr →
    (q'.cur_addr - 1 - q.allocation_addr) / MAX_PREFETCH_SIZE =
      (q.cur_addr - q.allocation_addr) / MAX_PREFETCH_SIZE
  pending : q'.pending_prefetch = q.pending_prefetch ++
    (pagesUpTo cfg q.cur_addr q'.cur_addr).filter fun p => !is_valid g p
  incoming : ∀ p, q'.incoming_replayable_nacks.contains p = true →
    q.incoming_replayable_nacks.contains p = true ∧
      (p ∈ pagesUpTo cfg q.cur_addr q'.cur_addr → is_valid g p = true)

/-- One page of the request, taken or skipped. -/
theorem chunk_page {g : Gpu} {q q' : PrefetchReq} (hcur : cfg.page_size ∣ q.cur_addr)
    (hend : cfg.page_size ∣ q.start_addr + q.size) (hlt : q.cur_addr < q.start_addr + q.size)
    (hframe : q' = { q with
      cur_addr := q.cur_addr + cfg.page_size, pending_prefetch := q'.pending_prefetch,
      incoming_replayable_nacks := q'.incoming_replayable_nacks,
      outgoing_replayable_nacks := q'.outgoing_replayable_nacks })
    (hpending : q'.pending_prefetch = q.pending_prefetch ++
      if is_valid g (cfg.get_page_num q.cur_addr) then [] else [cfg.get_page_num q.cur_addr])
    (hincoming : ∀ p, q'.incoming_replayable_nacks.contains p = true →
      q.incoming_replayable_nacks.contains p = true ∧
        (p = cfg.get_page_num q.cur_addr → is_valid g p = true)) :
    Chunk cfg g q q' := by
  have hnext : q'.cur_addr = q.cur_addr + cfg.page_size := by rw [hframe]
  have hpages : pagesUpTo cfg q.cur_addr q'.cur_addr = [cfg.get_page_num q.cur_addr] := by
    rw [hnext, pagesUpTo_page]
  have hpos := cfg.page_size_pos
  refine ⟨?_, ?_, ?_, ?_, ?_, ?_, ?_, ?_, ?_, ?_, ?_⟩
  · rw [hframe]
  · rw [hframe]
  · rw [hframe]
  · rw [hframe]
  · rw [hframe]
  · omega
  · have hgap := Nat.le_of_dvd (by omega) (Nat.dvd_sub hend hcur)
    omega
  · rw [hnext]
    exact Nat.dvd_add hcur (Nat.dvd_refl _)
  · intro halloc hle
    rw [hnext, ← piece_of_page (Nat.dvd_sub hcur halloc)]
    congr 1
    omega
  · rw [hpages, hpending]
    cases hv : is_valid g (cfg.get_page_num q.cur_addr) <;> simp [hv]
  · intro p hp
    rw [hpages, List.mem_singleton]
    exact hincoming p hp

/-- The loop goes on behind a part of it. -/
theorem Chunk.trans {g g' : Gpu} {q q1 q2 : PrefetchReq} (h : Chunk cfg g q q1)
    (h' : Chunk cfg g' q1 q2) (hsame : ∀ p, is_valid g' p = is_valid g p)
    (hpiece : cfg.page_size ∣ q.allocation_addr → q.allocation_addr ≤ q.cur_addr →
      (q1.cur_addr - q.allocation_addr) / MAX_PREFETCH_SIZE =
        (q.cur_addr - q.allocation_addr) / MAX_PREFETCH_SIZE) :
    Chunk cfg g q q2 := by
  have hpages := pagesUpTo_append cfg (Nat.le_of_lt h.ahead) (Nat.le_of_lt h'.ahead)
  refine ⟨h'.start.trans h.start, h'.size.trans h.size, h'.allocation.trans h.allocation,
    h'.stream.trans h.stream, h'.active.trans h.active, Nat.lt_trans h.ahead h'.ahead, ?_,
    h'.aligned, ?_, ?_, ?_⟩
  · rw [← h.start, ← h.size]
    exact h'.within
  · intro halloc hle
    have hrest := h'.piece
    rw [h.allocation] at hrest
    rw [hrest halloc (Nat.le_trans hle (Nat.le_of_lt h.ahead)), hpiece halloc hle]
  · rw [h'.pending, h.pending, ← hpages, List.filter_append, List.append_assoc]
    simp only [hsame]
  · intro p hp
    obtain ⟨hmid, hlate⟩ := h'.incoming p hp
    obtain ⟨hold, hearly⟩ := h.incoming p hmid
    refine ⟨hold, fun hin => ?_⟩
    rw [← hpages] at hin
    rcases List.mem_append.mp hin with hin | hin
    · exact hearly hin
    · rw [← hsame]
      exact hlate hin

/-- The loop, with steps for all pages that are left. -/
theorem chunk_selectChunk (n : Nat) {g : Gpu} {q : PrefetchReq}
    (hcur : cfg.page_size ∣ q.cur_addr) (hend : cfg.page_size ∣ q.start_addr + q.size)
    (hlt : q.cur_addr < q.start_addr + q.size)
    (hn : q.start_addr + q.size - q.cur_addr ≤ n * cfg.page_size) :
    Chunk cfg g q (selectChunk cfg n g q).2 := by
  induction n generalizing g q with
  | zero => omega
  | succ n ih =>
    let page_num := cfg.get_page_num q.cur_addr
    let on : PrefetchReq := { q with cur_addr := q.cur_addr + cfg.page_size }
    let mapped := g.require (is_mapped g page_num)
    let checked := check_write_stage_queue cfg mapped page_num
    have hsame : ∀ p, is_valid checked p = is_valid g p :=
      (check_write_stage_queue_samePages cfg mapped page_num).is_valid
    have hskip : is_valid g page_num = true → Chunk cfg g q on := by
      intro hvalid
      refine chunk_page hcur hend hlt rfl ?_ fun p hp => ⟨hp, fun heq => heq ▸ hvalid⟩
      rw [if_pos hvalid, List.append_nil]
    have htake : ¬ is_valid g page_num = true →
        Chunk cfg g q (takePage mapped on page_num).2 := by
      intro hvalid
      refine chunk_page hcur hend hlt rfl ?_ fun p hp => ?_
      · rw [if_neg hvalid]
        rfl
      · change (q.incoming_replayable_nacks.erase page_num).contains p = true at hp
        rw [StdMap.contains_erase, Bool.and_eq_true, Bool.not_eq_true', decide_eq_false_iff_not] at hp
        exact ⟨hp.2, fun heq => absurd heq hp.1⟩
    have hon : ∀ {q1 : PrefetchReq} {g1 : Gpu}, Chunk cfg g q q1 →
        q1.cur_addr = q.cur_addr + cfg.page_size → chunkGoesOn q1 = true →
        (∀ p, is_valid g1 p = is_valid g p) →
        Chunk cfg g q (selectChunk cfg n g1 q1).2 := by
      intro q1 g1 hfirst hnext hgoes hvalid
      simp only [chunkGoesOn, decide_eq_true_eq] at hgoes
      have hend1 : q1.start_addr + q1.size = q.start_addr + q.size := by
        rw [hfirst.start, hfirst.size]
      have hlt1 : q1.cur_addr < q1.start_addr + q1.size :=
        lt_of_le_of_ne (hend1 ▸ hfirst.within) hgoes.1
      refine hfirst.trans (ih hfirst.aligned (hend1 ▸ hend) hlt1 ?_) hvalid ?_
      · rw [hend1, hnext]
        rw [Nat.succ_mul] at hn
        omega
      · intro halloc hle
        have hshift : q1.cur_addr - q.allocation_addr =
            q.cur_addr - q.allocation_addr + cfg.page_size := by omega
        rw [hfirst.allocation, sub_size_t_piece (by omega), hshift] at hgoes
        rw [hshift]
        exact piece_goes_on (Nat.dvd_sub hcur halloc) hgoes.2
    simp only [selectChunk]
    split_ifs with hvalid hpending hgoes hgoes
    · exact hskip hvalid
    · exact hon (hskip hvalid) rfl hgoes hsame
    · exact hskip hvalid
    · exact hon (htake hvalid) rfl hgoes fun _ => rfl
    · exact htake hvalid

theorem pagesUpTo_cons {a p : Nat} (h : cfg.get_page_num a < p) :
    pagesUpTo cfg a (cfg.get_mem_addr p) =
      cfg.get_page_num a :: pagesUpTo cfg (a + cfg.page_size) (cfg.get_mem_addr p) := by
  obtain ⟨n, hn⟩ : ∃ n, p - cfg.get_page_num a = n + 1 := ⟨p - cfg.get_page_num a - 1, by omega⟩
  rw [pagesUpTo, pagesUpTo, cfg.get_page_num_get_mem_addr, page_add, hn, List.range'_succ]
  congr 2
  omega

theorem pagesUpTo_front (a : Nat) :
    pagesUpTo cfg a (cfg.get_mem_addr (cfg.get_page_num a)) = [] := by
  rw [pagesUpTo, cfg.get_page_num_get_mem_addr, Nat.sub_self]
  rfl

/-- Behind the first page that is taken, the loop comes to no page behind a resident one. -/
theorem selectChunk_stops (n : Nat) {g : Gpu} {q : PrefetchReq} {p : Nat}
    (hp : p ∈ pagesUpTo cfg q.cur_addr (selectChunk cfg n g q).2.cur_addr) :
    (∀ r ∈ (pagesUpTo cfg q.cur_addr (cfg.get_mem_addr p)).dropWhile (is_valid g),
      is_valid g r = false) ∧
    (q.pending_prefetch ≠ [] → ∀ r ∈ pagesUpTo cfg q.cur_addr (cfg.get_mem_addr p),
      is_valid g r = false) := by
  induction n generalizing g q with
  | zero =>
    change p ∈ pagesUpTo cfg q.cur_addr q.cur_addr at hp
    rw [pagesUpTo_self] at hp
    cases hp
  | succ n ih =>
    obtain ⟨hlow, hhigh⟩ := mem_pagesUpTo.mp hp
    rcases Nat.lt_or_eq_of_le hlow with hlt | rfl
    · rw [pagesUpTo_cons hlt]
      have hrest : ∀ {g1 : Gpu} {q1 : PrefetchReq}, q1.cur_addr = q.cur_addr + cfg.page_size →
          p < cfg.get_page_num (selectChunk cfg n g1 q1).2.cur_addr →
          p ∈ pagesUpTo cfg q1.cur_addr (selectChunk cfg n g1 q1).2.cur_addr := by
        intro g1 q1 hcur hend
        rw [mem_pagesUpTo, hcur, page_add]
        exact ⟨hlt, hend⟩
      have hdone : ∀ {q1 : PrefetchReq}, q1.cur_addr = q.cur_addr + cfg.page_size →
          ¬ p < cfg.get_page_num q1.cur_addr := by
        intro q1 hcur
        rw [hcur, page_add]
        omega
      let mapped := g.require (is_mapped g (cfg.get_page_num q.cur_addr))
      have hsame : is_valid (check_write_stage_queue cfg mapped (cfg.get_page_num q.cur_addr)) =
          is_valid g :=
        funext (check_write_stage_queue_samePages cfg mapped _).is_valid
      simp only [selectChunk] at hhigh
      split_ifs at hhigh with hvalid hpending hgoes hgoes
      · exact absurd hhigh (hdone rfl)
      · obtain ⟨hskip, -⟩ := ih (hrest rfl hhigh)
        rw [hsame] at hskip
        rw [List.dropWhile_cons_of_pos (show is_valid g _ = true from hvalid)]
        exact ⟨hskip, fun hne => absurd hne hpending⟩
      · exact absurd hhigh (hdone rfl)
      · have habsent : ¬ is_valid g (cfg.get_page_num q.cur_addr) = true := hvalid
        have hgone : ∀ r ∈ pagesUpTo cfg (q.cur_addr + cfg.page_size) (cfg.get_mem_addr p),
            is_valid g r = false := (ih (hrest rfl hhigh)).2 (by simp [takePage])
        have hall : ∀ r ∈ cfg.get_page_num q.cur_addr ::
            pagesUpTo cfg (q.cur_addr + cfg.page_size) (cfg.get_mem_addr p), is_valid g r = false :=
          List.forall_mem_cons.mpr ⟨Bool.eq_false_iff.mpr habsent, hgone⟩
        rw [List.dropWhile_cons_of_neg habsent]
        exact ⟨hall, fun _ => hall⟩
      · exact absurd hhigh (hdone rfl)
    · rw [pagesUpTo_front]
      exact ⟨fun r hr => (by cases hr), fun _ r hr => (by cases hr)⟩

variable (cfg) in
/-- The loop comes to the page: it lies ahead, in the piece of the current address, and no
resident page before it is behind one that is not. -/
def comesTo (g : Gpu) (q : PrefetchReq) (p : Nat) : Bool :=
  decide (p ∈ pagesUpTo cfg q.cur_addr (q.start_addr + q.size)) &&
    decide ((cfg.get_mem_addr p - q.allocation_addr) / MAX_PREFETCH_SIZE =
      (q.cur_addr - q.allocation_addr) / MAX_PREFETCH_SIZE) &&
    ((pagesUpTo cfg q.cur_addr (cfg.get_mem_addr p)).dropWhile (is_valid g)).all
      fun r => !is_valid g r

theorem Chunk.comesTo {g : Gpu} {q q' : PrefetchReq} (h : Chunk cfg g q q')
    (hcur : cfg.page_size ∣ q.cur_addr) (halloc : cfg.page_size ∣ q.allocation_addr)
    (hle : q.allocation_addr ≤ q.cur_addr) {p : Nat} (hp : p ∈ pagesUpTo cfg q.cur_addr q'.cur_addr)
    (hstops : ∀ r ∈ (pagesUpTo cfg q.cur_addr (cfg.get_mem_addr p)).dropWhile (is_valid g),
      is_valid g r = false) :
    comesTo cfg g q p = true := by
  obtain ⟨hlow, hhigh⟩ := mem_pagesUpTo.mp hp
  have hfirst : q.cur_addr ≤ cfg.get_mem_addr p := by
    rw [← Nat.div_mul_cancel hcur]
    exact Nat.mul_le_mul_right _ hlow
  have hlast : cfg.get_mem_addr p + 1 ≤ q'.cur_addr := by
    have hnext : (p + 1) * cfg.page_size ≤ q'.cur_addr :=
      (Nat.le_div_iff_mul_le cfg.page_size_pos).mp hhigh
    have hpos := cfg.page_size_pos
    rw [Nat.succ_mul] at hnext
    rw [Config.get_mem_addr]
    omega
  rw [gpgpu_sim_uvm.comesTo, Bool.and_eq_true, Bool.and_eq_true, decide_eq_true_eq,
    decide_eq_true_eq, List.all_eq_true]
  refine ⟨⟨?_, ?_⟩, fun r hr => by rw [hstops r hr]; rfl⟩
  · exact mem_pagesUpTo.mpr ⟨hlow, Nat.lt_of_lt_of_le hhigh (page_mono cfg h.within)⟩
  · apply Nat.le_antisymm
    · rw [← h.piece halloc hle]
      exact Nat.div_le_div_right (by omega)
    · exact Nat.div_le_div_right (by omega)

/-! ## One execution of the block -/

/-- The request in front is ready for its next chunk. -/
def PrefetchReq.ready (q : PrefetchReq) : Bool := q.active && q.pending_prefetch.isEmpty

theorem user_prefetch_idle {g : Gpu}
    (h : ∀ q, g.prefetch_req_buffer.head? = some q → q.ready = false) : user_prefetch cfg g = g := by
  unfold user_prefetch
  split
  · rfl
  · rename_i q rest hbuffer
    rw [if_neg]
    rintro ⟨hactive, hnone⟩
    have hready := h q (by rw [hbuffer]; rfl)
    rw [PrefetchReq.ready, hactive, hnone] at hready
    cases hready

section

variable {g : Gpu} {q : PrefetchReq} {rest : List PrefetchReq}
  (hbuffer : g.prefetch_req_buffer = q :: rest) (hready : q.ready = true)
include hbuffer hready

omit hbuffer in
theorem ready_spec : q.active = true ∧ q.pending_prefetch = [] := by
  rw [PrefetchReq.ready, Bool.and_eq_true, List.isEmpty_iff] at hready
  exact hready

variable (cfg) in
/-- The request is worked off, with what still waits for pages behind its current address. -/
theorem user_prefetch_finish (hend : q.cur_addr = q.start_addr + q.size)
    (hbegun : q.start_addr < q.cur_addr) :
    (user_prefetch cfg g).prefetch_req_buffer = rest ∧
      (user_prefetch cfg g).pcie_read_stage_queue = g.pcie_read_stage_queue ∧
      (user_prefetch cfg g).lost = q.incoming_replayable_nacks.pooled ++ g.lost := by
  obtain ⟨hactive, hnone⟩ := ready_spec hready
  obtain ⟨hstart, hsize, hcur, -⟩ := replayChunk_range cfg g q
  have hleft : (replayChunk cfg g q).2 = { q with outgoing_replayable_nacks := .empty } := by
    rw [replayChunk, if_pos hbegun]
  have hblock : user_prefetch cfg g =
      finishPrefetch (replayChunk cfg g q).1 (replayChunk cfg g q).2 rest := by
    unfold user_prefetch
    rw [hbuffer]
    dsimp only
    rw [if_pos ⟨hactive, hnone⟩, hstart, hsize, hcur, if_pos hend]
  rw [hblock, hleft]
  refine ⟨rfl, ?_, ?_⟩
  · rw [finishPrefetch, replayChunk_frame]
  · simp only [finishPrefetch, StdMap.pooled_empty, List.append_nil]
    rw [replayChunk_frame]

variable (cfg) in
/-- The request takes its next chunk. -/
theorem user_prefetch_chunk (hcur : cfg.page_size ∣ q.cur_addr)
    (hend : cfg.page_size ∣ q.start_addr + q.size) (hlt : q.cur_addr < q.start_addr + q.size) :
    ∃ q', Chunk cfg g q q' ∧
      (∀ p ∈ pagesUpTo cfg q.cur_addr q'.cur_addr,
        ∀ r ∈ (pagesUpTo cfg q.cur_addr (cfg.get_mem_addr p)).dropWhile (is_valid g),
          is_valid g r = false) ∧
      (user_prefetch cfg g).prefetch_req_buffer = q' :: rest ∧
      (user_prefetch cfg g).pcie_read_stage_queue =
        g.pcie_read_stage_queue ++ chunkTransfer cfg q'.pending_prefetch ∧
      (user_prefetch cfg g).lost = g.lost := by
  obtain ⟨hactive, hnone⟩ := ready_spec hready
  obtain ⟨hstart, hsize, hcur', hpending⟩ := replayChunk_range cfg g q
  let s := replayChunk cfg g q
  let c := selectChunk cfg (pages_left cfg s.2) s.1 s.2
  have hblock : user_prefetch cfg g = stageChunk cfg c.1 c.2 rest := by
    unfold user_prefetch
    rw [hbuffer]
    dsimp only
    rw [if_pos ⟨hactive, hnone⟩, hstart, hsize, hcur', if_neg (Nat.ne_of_lt hlt)]
  have hleft : s.2 = { q with outgoing_replayable_nacks := s.2.outgoing_replayable_nacks } := by
    simp only [s, replayChunk]
    split <;> rfl
  have hvalid : ∀ p, is_valid s.1 p = is_valid g p := by
    intro p
    simp only [s]
    rw [replayChunk_frame]
    rfl
  have hchunk : Chunk cfg s.1 s.2 c.2 := by
    have hcover : s.2.start_addr + s.2.size - s.2.cur_addr ≤ pages_left cfg s.2 * cfg.page_size := by
      rw [pages_left, Nat.div_mul_cancel]
      rw [hleft]
      exact Nat.dvd_sub hend hcur
    apply chunk_selectChunk
    · rw [hleft]
      exact hcur
    · rw [hleft]
      exact hend
    · rw [hleft]
      exact hlt
    · exact hcover
  refine ⟨c.2, ?_, ?_, ?_, ?_, ?_⟩
  · rw [hleft] at hchunk
    refine ⟨hchunk.start, hchunk.size, hchunk.allocation, hchunk.stream, hchunk.active,
      hchunk.ahead, hchunk.within, hchunk.aligned, hchunk.piece, ?_, ?_⟩
    · rw [hchunk.pending]
      simp only [hvalid]
    · intro p hp
      obtain ⟨hold, hin⟩ := hchunk.incoming p hp
      exact ⟨hold, fun hmem => (hvalid p).symm.trans (hin hmem)⟩
  · intro p hp
    rw [← hcur'] at hp ⊢
    rw [← funext hvalid]
    exact (selectChunk_stops _ hp).1
  · rw [hblock]
    rfl
  · rw [hblock, stageChunk]
    simp only [c, s]
    rw [selectChunk_frame, replayChunk_frame]
  · rw [hblock, stageChunk]
    simp only [c, s]
    rw [selectChunk_frame, replayChunk_frame]

end

end gpgpu_sim_uvm
