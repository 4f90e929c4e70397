-- The accesses of a warp and the bytes that its threads address. An access keeps the
-- bytes of a request that stays in its chunk of 32 bytes; where each request does,
-- the accesses hold every byte, name it in their masks and do not overlap.
import GpgpuSimUvm.CoalescingLaws
import Mathlib.Data.List.TakeWhile

namespace gpgpu_sim_uvm

namespace warp_inst_t

open bitset

/-! ## What the accesses should do -/

/-- The thread addresses the byte. -/
def MemInst.Addresses (w : MemInst) (t b : Nat) : Prop :=
  ∃ a ∈ w.requestsOf t, a ≤ b ∧ b < a + w.data_size_coales

/-- The segment of the access holds the byte. -/
def MemAccessT.Holds (a : MemAccessT) (b : Nat) : Prop :=
  a.m_addr ≤ b ∧ b < a.m_addr + a.m_req_size

/-- The accesses of the subwarps, as the warp sends them. -/
structure Sends (w : MemInst) (sub : Nat → List MemAccessT) : Prop where
  subwarp : ∀ s < w.m_config.mem_warp_parts, w.coalesceSubwarp s = some (sub s)
  warp : w.memory_coalescing_arch = some ((List.range w.m_config.mem_warp_parts).flatMap sub)

/-- What the accesses promise for the bytes of the threads. -/
structure Coalesced (w : MemInst) (sub : Nat → List MemAccessT) : Prop where
  aligned : ∀ s < w.m_config.mem_warp_parts, ∀ a ∈ sub s, a.m_req_size ∣ a.m_addr
  holds : ∀ t < w.m_config.warp_size, w.active t = true → ∀ b, w.Addresses t b →
    ∃ s < w.m_config.mem_warp_parts, ∃ a ∈ sub s, a.Holds b
  bytes : ∀ s < w.m_config.mem_warp_parts, ∀ a ∈ sub s, ∀ k,
    a.m_byte_mask.getLsbD k = true ↔
      ∃ b, a.Holds b ∧ b % 128 = k ∧ ∃ t, a.m_warp_mask.getLsbD t = true ∧ w.Addresses t b
  threads : ∀ s < w.m_config.mem_warp_parts, ∀ a ∈ sub s, ∀ t,
    a.m_warp_mask.getLsbD t = true ↔ t ∈ w.threadsOf s ∧ ∃ b, a.Holds b ∧ w.Addresses t b
  apart : ∀ s < w.m_config.mem_warp_parts,
    (sub s).Pairwise fun a a' => ∀ b, a.Holds b → ¬ a'.Holds b

/-- Each request stays in its chunk, with a size that has segments, and its thread is in
a subwarp. -/
def MemInst.Kept (w : MemInst) : Prop :=
  ∀ t < w.m_config.warp_size, w.active t = true → ∀ a ∈ w.requestsOf t,
    w.data_size ∈ [1, 2, 4, 8, 16] ∧ a % 32 + w.data_size_coales ≤ 32 ∧
      t < w.m_config.mem_warp_parts * w.subwarp_size

/-! ## The transactions -/

/-- An address with the last byte of its request, where that lies in another segment. -/
def MemInst.touchesAt (w : MemInst) (thread addr : Nat) : List (Nat × Nat) :=
  (thread, addr) ::
    if w.block_address addr ≠ w.block_address (w.lastByte addr) then [(thread, w.lastByte addr)]
    else []

/-- What the threads of a subwarp touch, in the order of the loop. -/
def MemInst.touchesOf (w : MemInst) (s : Nat) : List (Nat × Nat) :=
  (w.threadsOf s).flatMap fun t => (w.requestsOf t).flatMap (w.touchesAt t)

/-- The transaction holds what was touched in its block. -/
structure Gathered (w : MemInst) (es : List (Nat × Nat)) (B : Nat) (info : TransactionInfo) :
    Prop where
  chunks : ∀ c, info.chunks.getLsbD c = true ↔
    ∃ e ∈ es, w.block_address e.2 = B ∧ c = e.2 % 128 / 32
  active : ∀ t, info.active.getLsbD t = true ↔
    ∃ e ∈ es, w.block_address e.2 = B ∧ e.1 = t ∧ t < 32
  bytes : ∀ k, info.bytes.getLsbD k = true ↔ ∃ e ∈ es, w.block_address e.2 = B ∧
    (e.2 % 128 ≤ k ∧ k < e.2 % 128 + w.data_size_coales) ∧ k < 128

section

variable {w : MemInst} {s : Nat}

theorem request_eq (m : StdMap Nat TransactionInfo) (t a : Nat) :
    w.request t m a = (w.touchesAt t a).foldl (fun m e => w.touch e.1 m e.2) m := by
  unfold MemInst.request MemInst.touchesAt
  split <;> simp

theorem subwarp_transactions_eq :
    w.subwarp_transactions s = (w.touchesOf s).foldl (fun m e => w.touch e.1 m e.2) .empty := by
  unfold MemInst.subwarp_transactions MemInst.touchesOf
  simp only [List.foldl_flatMap, ← request_eq]

theorem gathered_filter (es : List (Nat × Nat)) (B : Nat) :
    Gathered w es B ((es.filter fun e => decide (w.block_address e.2 = B)).foldl
      (fun info e => info.record e.1 e.2 w.data_size_coales) {}) := by
  induction es using List.reverseRecOn with
  | nil => exact ⟨by simp, by simp, by simp⟩
  | append_singleton es e ih =>
    have hlast : ∀ P : Nat × Nat → Prop, (∃ x ∈ es ++ [e], w.block_address x.2 = B ∧ P x) ↔
        (∃ x ∈ es, w.block_address x.2 = B ∧ P x) ∨ w.block_address e.2 = B ∧ P e := by
      intro P
      simp only [List.mem_append, List.mem_singleton, or_and_right, exists_or, exists_eq_left]
    rw [List.filter_append, List.foldl_append]
    by_cases hB : w.block_address e.2 = B
    · rw [List.filter_cons_of_pos (by simpa using hB), List.filter_nil, List.foldl_cons,
        List.foldl_nil]
      refine ⟨fun c => ?_, fun t => ?_, fun k => ?_⟩
      · have hlt : e.2 % 128 / 32 < 4 := by omega
        rw [hlast, ← ih.chunks, TransactionInfo.record, getLsbD_set, Bool.or_eq_true,
          decide_eq_true_eq]
        exact or_congr_right ⟨fun h => ⟨hB, h.1⟩, fun h => ⟨h.2, h.2 ▸ hlt⟩⟩
      · rw [hlast, ← ih.active, TransactionInfo.record, getLsbD_set, Bool.or_eq_true,
          decide_eq_true_eq]
        exact or_congr_right ⟨fun h => ⟨hB, h.1.symm, h.2⟩, fun h => ⟨h.2.1.symm, h.2.2⟩⟩
      · rw [hlast, ← ih.bytes, TransactionInfo.record, getLsbD_setRange, Bool.or_eq_true,
          decide_eq_true_eq, ← and_assoc]
        exact or_congr_right ⟨fun h => ⟨hB, h⟩, fun h => h.2⟩
    · rw [List.filter_cons_of_neg (by simpa using hB), List.filter_nil, List.foldl_nil]
      have hskip : ∀ P : Nat × Nat → Prop, (∃ x ∈ es ++ [e], w.block_address x.2 = B ∧ P x) ↔
          ∃ x ∈ es, w.block_address x.2 = B ∧ P x := by
        intro P
        rw [hlast]
        exact or_iff_left fun h => hB h.1
      exact ⟨fun c => (ih.chunks c).trans (hskip _).symm,
        fun t => (ih.active t).trans (hskip _).symm, fun k => (ih.bytes k).trans (hskip _).symm⟩

/-- An entry of the map is the transaction of a block that is touched. -/
theorem gathered_of_entry {e : Nat × TransactionInfo}
    (he : e ∈ (w.subwarp_transactions s).entries) :
    Gathered w (w.touchesOf s) e.1 e.2 ∧ ∃ x ∈ w.touchesOf s, w.block_address x.2 = e.1 := by
  have hval := StdMap.findD_of_mem _ ({} : TransactionInfo) he
  have hkey : e.1 ∈ (w.subwarp_transactions s).keys := List.mem_map_of_mem he
  rw [StdMap.mem_keys, subwarp_transactions_eq] at hkey
  rw [subwarp_transactions_eq] at hval
  unfold MemInst.touch at hkey hval
  rw [StdMap.contains_foldl_alter] at hkey
  rw [StdMap.findD_foldl_alter] at hval
  refine ⟨?_, hkey.resolve_left (by simp [StdMap.contains])⟩
  rw [← hval]
  exact gathered_filter _ _

theorem exists_entry {x : Nat × Nat} (hx : x ∈ w.touchesOf s) :
    ∃ info, (w.block_address x.2, info) ∈ (w.subwarp_transactions s).entries := by
  have hkey : w.block_address x.2 ∈ (w.subwarp_transactions s).keys := by
    rw [StdMap.mem_keys, subwarp_transactions_eq]
    unfold MemInst.touch
    rw [StdMap.contains_foldl_alter]
    exact .inr ⟨x, hx, rfl⟩
  obtain ⟨e, he, heq⟩ := List.mem_map.mp hkey
  exact ⟨e.2, heq ▸ he⟩

theorem mem_touchesOf {e : Nat × Nat} : e ∈ w.touchesOf s ↔ e.1 ∈ w.threadsOf s ∧
    ∃ a ∈ w.requestsOf e.1, e.2 = a ∨
      w.block_address a ≠ w.block_address (w.lastByte a) ∧ e.2 = w.lastByte a := by
  obtain ⟨t, x⟩ := e
  unfold MemInst.touchesOf MemInst.touchesAt
  simp only [List.mem_flatMap, List.mem_cons, Prod.mk.injEq]
  constructor
  · rintro ⟨t', ht, a, ha, ⟨rfl, rfl⟩ | hmem⟩
    · exact ⟨ht, x, ha, .inl rfl⟩
    · split at hmem
      · rename_i hne
        simp only [List.mem_singleton, Prod.mk.injEq] at hmem
        obtain ⟨rfl, hlast⟩ := hmem
        exact ⟨ht, a, ha, .inr ⟨hne, hlast⟩⟩
      · cases hmem
  · rintro ⟨ht, a, ha, rfl | ⟨hne, hlast⟩⟩
    · exact ⟨t, ht, x, ha, .inl ⟨rfl, rfl⟩⟩
    · refine ⟨t, ht, a, ha, .inr ?_⟩
      rw [if_pos hne, List.mem_singleton, hlast]

theorem mem_requestsOf_lt {t a : Nat} (h : a ∈ w.requestsOf t) : a < 2 ^ 64 := by
  unfold MemInst.requestsOf at h
  obtain ⟨i, -, rfl⟩ := List.mem_map.mp ((List.takeWhile_sublist _).subset h)
  exact w.addr_lt t i

theorem touch_lt {e : Nat × Nat} (h : e ∈ w.touchesOf s) : e.2 < 2 ^ 64 := by
  obtain ⟨-, a, ha, heq | ⟨-, heq⟩⟩ := mem_touchesOf.mp h
  · exact heq ▸ mem_requestsOf_lt ha
  · rw [heq]
    exact Nat.mod_lt _ (by simp [SIZE_T])

/-! ## The segments of the accesses -/

/-- The chunk of an address lies in its block. -/
theorem chunk_of_block (hn : SegmentSize w.segment_size) {x : Nat} (hx : x < 2 ^ 64) :
    w.segment_size ∣ w.block_address x ∧
      w.block_address x / 128 * 128 + 32 * (x % 128 / 32) = x / 32 * 32 ∧
      w.block_address x ≤ x / 32 * 32 ∧ x / 32 * 32 + 32 ≤ w.block_address x + w.segment_size := by
  unfold MemInst.block_address
  rw [tag_eq hn hx]
  refine ⟨Dvd.intro_left _ rfl, ?_⟩
  rcases hn with hn | hn | hn <;> rw [hn] <;> omega

/-- Addresses in one segment have one block. -/
theorem block_of_within (hn : SegmentSize w.segment_size) {x B : Nat} (hx : x < 2 ^ 64)
    (hB : w.segment_size ∣ B) (h : B ≤ x ∧ x < B + w.segment_size) : w.block_address x = B := by
  obtain ⟨m, rfl⟩ := hB
  unfold MemInst.block_address
  rw [tag_eq hn hx]
  rcases hn with hn | hn | hn <;> rw [hn] at h ⊢ <;> omega

/-- An access with the transaction that it comes from. -/
structure Grown (w : MemInst) (s B : Nat) (info : TransactionInfo) (a : MemAccessT) : Prop where
  gathered : Gathered w (w.touchesOf s) B info
  used : ∃ x ∈ w.touchesOf s, w.block_address x.2 = B
  dvd : w.segment_size ∣ B
  reduced : Reduced info.chunks B w.segment_size (a.m_addr, a.m_req_size)
  active : a.m_warp_mask = info.active
  bytes : a.m_byte_mask = info.bytes

theorem grown_of_entry (hn : SegmentSize w.segment_size) {e : Nat × TransactionInfo}
    (he : e ∈ (w.subwarp_transactions s).entries) :
    w.memory_coalescing_arch_reduce_and_send e.2 e.1 = some (w.reducedAccess e.2 e.1) ∧
      Grown w s e.1 e.2 (w.reducedAccess e.2 e.1) := by
  obtain ⟨hgathered, x, hx, hxB⟩ := gathered_of_entry he
  have hdvd : w.segment_size ∣ e.1 := hxB ▸ (chunk_of_block hn (touch_lt hx)).1
  have hone : ∃ c, e.2.chunks.getLsbD c = true :=
    ⟨_, (hgathered.chunks _).mpr ⟨x, hx, hxB, rfl⟩⟩
  have hwithin : ChunksWithin e.2.chunks e.1 w.segment_size := by
    intro c hc
    obtain ⟨y, hy, hyB, rfl⟩ := (hgathered.chunks c).mp hc
    obtain ⟨-, hchunk, hlo, hhi⟩ := chunk_of_block hn (touch_lt hy)
    rw [hyB] at hchunk hlo hhi
    rw [hchunk]
    exact ⟨hlo, hhi⟩
  exact ⟨MemInst.send_ok hn hdvd hwithin hone, hgathered, ⟨x, hx, hxB⟩, hdvd,
    reduceSegment_reduced hn hdvd hwithin hone, rfl, rfl⟩

/-- The accesses of a subwarp, where no assertion fails. -/
def MemInst.subwarpAccesses (w : MemInst) (s : Nat) : List MemAccessT :=
  (w.subwarp_transactions s).entries.map fun e => w.reducedAccess e.2 e.1

theorem data_size_of_segments (hn : SegmentSize w.segment_size) :
    w.data_size ∈ [1, 2, 4, 8, 16] := by
  unfold MemInst.segment_size at hn
  split at hn
  case h_6 => rcases hn with hn | hn | hn <;> cases hn
  all_goals simp [*]

theorem sends_of_subwarps {sub : Nat → List MemAccessT}
    (h : ∀ s < w.m_config.mem_warp_parts, w.coalesceSubwarp s = some (sub s)) : Sends w sub := by
  refine ⟨h, ?_⟩
  unfold MemInst.memory_coalescing_arch
  rw [mapM_eq_map fun s hs => h s (List.mem_range.mp hs)]
  rfl

theorem sends_accesses (hn : SegmentSize w.segment_size) : Sends w w.subwarpAccesses := by
  refine sends_of_subwarps fun s _ => ?_
  have hfew : ¬MAX_ACCESSES_PER_INSN_PER_THREAD < w.num_accesses := by
    have hsize := data_size_of_segments hn
    simp only [List.mem_cons, List.not_mem_nil, or_false] at hsize
    unfold MemInst.num_accesses MAX_ACCESSES_PER_INSN_PER_THREAD
    split <;> omega
  unfold MemInst.coalesceSubwarp
  rw [if_neg fun h => hfew h.2, mapM_eq_map fun e he => (grown_of_entry hn he).1]
  rfl

theorem exists_grown (hn : SegmentSize w.segment_size) {a : MemAccessT}
    (ha : a ∈ w.subwarpAccesses s) : ∃ B info, Grown w s B info a := by
  obtain ⟨e, he, rfl⟩ := List.mem_map.mp ha
  exact ⟨e.1, e.2, (grown_of_entry hn he).2⟩

theorem exists_access (hn : SegmentSize w.segment_size) {x : Nat × Nat}
    (hx : x ∈ w.touchesOf s) :
    ∃ a ∈ w.subwarpAccesses s, ∃ info, Grown w s (w.block_address x.2) info a := by
  obtain ⟨info, he⟩ := exists_entry hx
  exact ⟨_, List.mem_map_of_mem he, info, (grown_of_entry hn he).2⟩

/-- The access keeps the chunks that are touched in its block. -/
theorem Grown.keeps (hn : SegmentSize w.segment_size) {B : Nat} {info : TransactionInfo}
    {a : MemAccessT} (h : Grown w s B info a) {x : Nat × Nat} (hx : x ∈ w.touchesOf s)
    (hxB : w.block_address x.2 = B) {b : Nat} (hb : b / 32 = x.2 / 32) : a.Holds b := by
  have hkeeps := h.reduced.keeps _ ((h.gathered.chunks _).mpr ⟨x, hx, hxB, rfl⟩)
  obtain ⟨-, hchunk, -, -⟩ := chunk_of_block hn (touch_lt hx)
  rw [hxB] at hchunk
  rw [hchunk] at hkeeps
  unfold MemAccessT.Holds
  omega

/-- Two accesses of a subwarp lie in different blocks. -/
theorem subwarpAccesses_apart (hn : SegmentSize w.segment_size) :
    (w.subwarpAccesses s).Pairwise fun a a' => ∀ b, a.Holds b → ¬a'.Holds b := by
  unfold MemInst.subwarpAccesses
  rw [List.pairwise_map]
  refine (w.subwarp_transactions s).sorted.imp_of_mem fun {e e'} he he' hlt b hb hb' => ?_
  have hgrown := (grown_of_entry hn he).2
  have hgrown' := (grown_of_entry hn he').2
  obtain ⟨m, hm⟩ := hgrown.dvd
  obtain ⟨m', hm'⟩ := hgrown'.dvd
  have hin := hgrown.reduced.within
  have hin' := hgrown'.reduced.within
  unfold MemAccessT.Holds at hb hb'
  rcases hn with hn | hn | hn <;> rw [hn] at hm hm' hin hin' <;> omega

theorem mem_of_mapM {α β : Type} {f : α → Option β} {l : List α} {ys : List β}
    (h : l.mapM f = some ys) {y : β} (hy : y ∈ ys) : ∃ x ∈ l, f x = some y := by
  induction l generalizing ys with
  | nil =>
    cases h
    cases hy
  | cons x l ih =>
    rw [List.mapM_cons] at h
    obtain ⟨z, hz, h⟩ := Option.bind_eq_some_iff.mp h
    obtain ⟨zs, hzs, h⟩ := Option.bind_eq_some_iff.mp h
    cases h
    rcases List.mem_cons.mp hy with rfl | hy
    · exact ⟨x, by simp, hz⟩
    · obtain ⟨x', hx', hf⟩ := ih hzs hy
      exact ⟨x', by simp [hx'], hf⟩

/-! ## Requests that stay in their chunks -/

theorem lastByte_eq {a : Nat} (hpos : 0 < w.data_size_coales)
    (h : a + w.data_size_coales ≤ 2 ^ 64) : w.lastByte a = a + w.data_size_coales - 1 := by
  unfold MemInst.lastByte sub_size_t SIZE_T
  omega

theorem data_size_coales_pos (h : 0 < w.data_size) : 0 < w.data_size_coales := by
  unfold MemInst.data_size_coales
  split <;> omega

/-- Nothing else is touched than the addresses of the requests. -/
theorem request_of_touch (hn : SegmentSize w.segment_size) (hpos : 0 < w.data_size_coales)
    (hin : ∀ t ∈ w.threadsOf s, ∀ a ∈ w.requestsOf t, a % 32 + w.data_size_coales ≤ 32)
    {e : Nat × Nat} (he : e ∈ w.touchesOf s) : e.1 ∈ w.threadsOf s ∧ e.2 ∈ w.requestsOf e.1 := by
  obtain ⟨ht, a, ha, heq | ⟨hne, -⟩⟩ := mem_touchesOf.mp he
  · exact ⟨ht, heq ▸ ha⟩
  · have hlt := mem_requestsOf_lt ha
    have hchunk := hin e.1 ht a ha
    obtain ⟨hdvd, -, hlo, hhi⟩ := chunk_of_block hn hlt
    refine absurd ?_ hne
    rw [lastByte_eq hpos (by omega)]
    exact (block_of_within hn (by omega) hdvd (by omega)).symm

theorem touch_of_request {t a : Nat} (ht : t ∈ w.threadsOf s) (ha : a ∈ w.requestsOf t) :
    (t, a) ∈ w.touchesOf s := mem_touchesOf.mpr ⟨ht, a, ha, .inl rfl⟩

theorem Sends.coalesced (hn : SegmentSize w.segment_size) (hkept : w.Kept) :
    Coalesced w w.subwarpAccesses := by
  have hpos : 0 < w.data_size_coales := by
    have hsize := data_size_of_segments hn
    simp only [List.mem_cons, List.not_mem_nil, or_false] at hsize
    exact data_size_coales_pos (by omega)
  have hin : ∀ s < w.m_config.mem_warp_parts, ∀ t ∈ w.threadsOf s, ∀ a ∈ w.requestsOf t,
      a % 32 + w.data_size_coales ≤ 32 := fun s hs t ht a ha =>
    (hkept t (Nat.lt_of_lt_of_le (lt_of_mem_threadsOf hs ht) subwarps_fit)
      (mem_threadsOf.mp ht).2 a ha).2.1
  -- a byte that an access holds lies in the access's block with the whole of its request
  have hblock : ∀ s < w.m_config.mem_warp_parts, ∀ B info acc, Grown w s B info acc →
      ∀ t ∈ w.threadsOf s, ∀ b, acc.Holds b → ∀ a ∈ w.requestsOf t, a ≤ b →
        b < a + w.data_size_coales → w.block_address a = B := by
    intro s hs B info acc hacc t ht b hb a ha hlo hhi
    have hchunk := hin s hs t ht a ha
    have hwithin := hacc.reduced.within
    refine block_of_within hn (mem_requestsOf_lt ha) hacc.dvd ?_
    obtain ⟨m, hm⟩ := hacc.dvd
    unfold MemAccessT.Holds at hb
    rcases hn with hn | hn | hn <;> rw [hn] at hm hwithin ⊢ <;> omega
  have hactive : ∀ s < w.m_config.mem_warp_parts, ∀ B info acc, Grown w s B info acc →
      ∀ t, acc.m_warp_mask.getLsbD t = true ↔
        ∃ a ∈ w.requestsOf t, t ∈ w.threadsOf s ∧ w.block_address a = B := by
    intro s hs B info acc hacc t
    rw [hacc.active, hacc.gathered.active]
    constructor
    · rintro ⟨e, he, heB, rfl, -⟩
      obtain ⟨ht, ha⟩ := request_of_touch hn hpos (hin s hs) he
      exact ⟨e.2, ha, ht, heB⟩
    · rintro ⟨a, ha, ht, haB⟩
      exact ⟨(t, a), touch_of_request ht ha, haB, rfl, lt_32_of_mem_threadsOf hs ht⟩
  refine ⟨fun s hs acc hacc => ?_, fun t ht hact b hb => ?_, fun s hs acc hacc k => ?_,
    fun s hs acc hacc t => ?_, fun s _ => subwarpAccesses_apart hn⟩
  · obtain ⟨B, info, hgrown⟩ := exists_grown hn hacc
    exact hgrown.reduced.aligned
  · obtain ⟨a, ha, hlo, hhi⟩ := hb
    obtain ⟨-, hchunk, hlt⟩ := hkept t ht hact a ha
    obtain ⟨hs, hmem⟩ := exists_subwarp hlt hact
    obtain ⟨acc, hacc, info, hgrown⟩ := exists_access hn (touch_of_request hmem ha)
    exact ⟨_, hs, acc, hacc, hgrown.keeps hn (touch_of_request hmem ha) rfl
      (show b / 32 = a / 32 by omega)⟩
  · obtain ⟨B, info, hgrown⟩ := exists_grown hn hacc
    rw [hgrown.bytes, hgrown.gathered.bytes]
    constructor
    · rintro ⟨e, he, heB, hk, hk128⟩
      obtain ⟨ht, ha⟩ := request_of_touch hn hpos (hin s hs) he
      have hchunk := hin s hs e.1 ht e.2 ha
      refine ⟨e.2 + (k - e.2 % 128), hgrown.keeps hn he heB (by omega), by omega, e.1, ?_, e.2, ha,
        by omega, by omega⟩
      exact (hactive s hs B info acc hgrown e.1).mpr ⟨e.2, ha, ht, heB⟩
    · rintro ⟨b, hb, rfl, t, hmask, a, ha, hlo, hhi⟩
      obtain ⟨-, -, ht, -⟩ := (hactive s hs B info acc hgrown t).mp hmask
      have haB := hblock s hs B info acc hgrown t ht b hb a ha hlo hhi
      have hchunk := hin s hs t ht a ha
      exact ⟨(t, a), touch_of_request ht ha, haB, show a % 128 ≤ b % 128 ∧ _ by omega, by omega⟩
  · obtain ⟨B, info, hgrown⟩ := exists_grown hn hacc
    rw [hactive s hs B info acc hgrown]
    constructor
    · rintro ⟨a, ha, ht, haB⟩
      exact ⟨ht, a, hgrown.keeps hn (touch_of_request ht ha) haB rfl, a, ha, Nat.le_refl _,
        by omega⟩
    · rintro ⟨ht, b, hb, a, ha, hlo, hhi⟩
      exact ⟨a, ha, ht, hblock s hs B info acc hgrown t ht b hb a ha hlo hhi⟩

/-! ## One request -/

/-- Without segments the accesses hold nothing. -/
theorem holds_of_no_segment (hn : w.segment_size = 0) {sub : List MemAccessT}
    (hsub : w.coalesceSubwarp s = some sub) {a : MemAccessT} (ha : a ∈ sub) (b : Nat) :
    ¬a.Holds b := by
  unfold MemInst.coalesceSubwarp at hsub
  split at hsub
  · cases hsub
  · obtain ⟨e, -, he⟩ := mem_of_mapM hsub ha
    unfold MemInst.memory_coalescing_arch_reduce_and_send at he
    split at he
    · cases he
      simp [MemAccessT.Holds, MemInst.reducedAccess, reduceSegment, hn]
    · cases he

/-- The only thread of a warp makes one request. -/
structure Single (w : MemInst) (t a : Nat) : Prop where
  active : ∀ u, w.active u = true ↔ u = t
  lt : t < w.m_config.warp_size
  requests : w.requestsOf t = [a]

variable {t a : Nat} {sub : Nat → List MemAccessT}

theorem Single.addresses (h : Single w t a) {b : Nat} :
    w.Addresses t b ↔ a ≤ b ∧ b < a + w.data_size_coales := by
  unfold MemInst.Addresses
  simp [h.requests]

theorem Single.thread (h : Single w t a) {u : Nat} (hu : u ∈ w.threadsOf s) : u = t :=
  (h.active u).mp (mem_threadsOf.mp hu).2

theorem Single.touch (h : Single w t a) {e : Nat × Nat} (he : e ∈ w.touchesOf s) :
    e.1 = t ∧ (e.2 = a ∨ w.block_address a ≠ w.block_address (w.lastByte a) ∧
      e.2 = w.lastByte a) := by
  obtain ⟨ht, a', ha', heq⟩ := mem_touchesOf.mp he
  rw [h.thread ht, h.requests, List.mem_singleton] at ha'
  exact ⟨h.thread ht, ha' ▸ heq⟩

/-- The access of a block in which one address is touched is its chunk. -/
theorem Grown.single (hn : SegmentSize w.segment_size) {B x : Nat} {info : TransactionInfo}
    {acc : MemAccessT} (h : Grown w s B info acc)
    (hx : ∀ e ∈ w.touchesOf s, w.block_address e.2 = B → e.2 = x) :
    acc.m_addr = x / 32 * 32 ∧ acc.m_req_size = 32 := by
  obtain ⟨e, he, heB⟩ := h.used
  have hsize : acc.m_req_size = 32 := by
    refine h.reduced.single (x % 128 / 32) fun d hd => ?_
    obtain ⟨e', he', heB', rfl⟩ := (h.gathered.chunks d).mp hd
    rw [hx e' he' heB']
  have hkeeps := h.reduced.keeps _ ((h.gathered.chunks _).mpr ⟨e, he, heB, rfl⟩)
  obtain ⟨-, hchunk, -, -⟩ := chunk_of_block hn (touch_lt he)
  rw [heB] at hchunk
  rw [hchunk, hx e he heB, hsize] at hkeeps
  exact ⟨by omega, hsize⟩

theorem kept_of_single (hsize : 0 < w.data_size) (h : Single w t a) (hsends : Sends w sub)
    (hco : Coalesced w sub) : w.data_size ∈ [1, 2, 4, 8, 16] ∧ a % 32 + w.data_size_coales ≤ 32 ∧
      t < w.m_config.mem_warp_parts * w.subwarp_size := by
  have hpos := data_size_coales_pos hsize
  have hmem : a ∈ w.requestsOf t := by
    rw [h.requests]
    exact List.mem_singleton_self a
  obtain ⟨s, hs, acc, hacc, hholds⟩ :=
    hco.holds t h.lt ((h.active t).mpr rfl) (a + w.data_size_coales - 1)
      (h.addresses.mpr (by omega))
  have hn : SegmentSize w.segment_size := by
    refine w.segment_size_eq.resolve_right fun hn => ?_
    exact holds_of_no_segment hn (hsends.subwarp s hs) hacc _ hholds
  have hsub : sub s = w.subwarpAccesses s := by
    have := (sends_accesses hn).subwarp s hs
    rw [hsends.subwarp s hs] at this
    exact Option.some.inj this
  obtain ⟨B, info, hgrown⟩ := exists_grown hn (hsub ▸ hacc)
  have hlt : t < w.m_config.mem_warp_parts * w.subwarp_size := by
    obtain ⟨e, he, -⟩ := hgrown.used
    obtain ⟨ht, -⟩ := mem_touchesOf.mp he
    exact h.thread ht ▸ lt_of_mem_threadsOf hs ht
  refine ⟨data_size_of_segments hn, ?_, hlt⟩
  have hbound : a + w.data_size_coales ≤ 2 ^ 64 := by
    obtain ⟨e, he, heB⟩ := hgrown.used
    obtain ⟨hdvd, -, hlo, -⟩ := chunk_of_block hn (touch_lt he)
    have helt := touch_lt he
    rw [heB] at hdvd hlo
    obtain ⟨m, hm⟩ := hdvd
    have hwithin := hgrown.reduced.within
    unfold MemAccessT.Holds at hholds
    rcases hn with hn | hn | hn <;> rw [hn] at hm hwithin <;> omega
  have hlast := lastByte_eq hpos hbound
  by_cases hone : w.block_address a = w.block_address (w.lastByte a)
  · -- the access is the chunk of the address
    have hsingle := hgrown.single hn fun e he _ => (h.touch he).2.resolve_right fun h => h.1 hone
    unfold MemAccessT.Holds at hholds
    omega
  · -- the access is the chunk of the last byte, and its mask names a byte behind that
    exfalso
    have hBlast : w.block_address (a + w.data_size_coales - 1) = B := by
      refine block_of_within hn (by omega) hgrown.dvd ?_
      have hwithin := hgrown.reduced.within
      unfold MemAccessT.Holds at hholds
      omega
    have hlasts : ∀ e ∈ w.touchesOf s, w.block_address e.2 = B →
        e.2 = a + w.data_size_coales - 1 := by
      intro e he heB
      rcases (h.touch he).2 with heq | ⟨-, heq⟩
      · exact absurd (by rw [hlast, hBlast, ← heB, heq]) hone
      · rw [heq, hlast]
    obtain ⟨haddr, hsize32⟩ := hgrown.single hn hlasts
    have hmany : 2 ≤ w.data_size_coales ∧ w.data_size_coales ≤ 16 := by
      have hsizes := data_size_of_segments hn
      have hle : w.data_size_coales ≤ w.data_size := by
        unfold MemInst.data_size_coales
        split <;> omega
      simp only [List.mem_cons, List.not_mem_nil, or_false] at hsizes
      refine ⟨?_, by omega⟩
      by_contra hfew
      exact hone (by rw [hlast, show a + w.data_size_coales - 1 = a by omega])
    have hbefore : (a + w.data_size_coales - 1) % 128 < 127 := by
      by_contra hcon
      refine hone ?_
      rw [hlast, hBlast]
      refine block_of_within hn (mem_requestsOf_lt hmem) hgrown.dvd ?_
      have hwithin := hgrown.reduced.within
      dsimp only at hwithin
      omega
    obtain ⟨e, he, heB⟩ := hgrown.used
    have hbit : acc.m_byte_mask.getLsbD ((a + w.data_size_coales - 1) % 128 + 1) = true := by
      rw [hgrown.bytes, hgrown.gathered.bytes]
      exact ⟨e, he, heB, by rw [hlasts e he heB]; omega, by omega⟩
    obtain ⟨b, hb, hbk, u, hu, haddresses⟩ := (hco.bytes s hs acc hacc _).mp hbit
    obtain rfl : u = t := h.thread ((hco.threads s hs acc hacc u).mp hu).1
    have hrange := h.addresses.mp haddresses
    unfold MemAccessT.Holds at hb
    omega

/-! ## The warp -/

/-- The warp with other threads and other addresses. -/
def MemInst.withRequests (w : MemInst) (mask : BitVec 32) (memreqaddr : Nat → Nat → Nat)
    (addr_lt : ∀ thread access, memreqaddr thread access < 2 ^ 64) : MemInst :=
  { w with m_warp_active_mask := mask, memreqaddr := memreqaddr, addr_lt := addr_lt }

/-- The warp `w'` makes requests of `w` only, and each of its threads makes one. -/
structure MemInst.Makes (w w' : MemInst) : Prop where
  active : ∀ t, w'.active t = true → w.active t = true
  requests : ∀ t, w'.active t = true → ∀ a ∈ w'.requestsOf t, a ∈ w.requestsOf t
  some : ∀ t, w'.active t = true → w'.requestsOf t ≠ []

theorem requestsOf_single (addr : Nat → Nat) {t : Nat}
    (h : ∀ i, w.memreqaddr t i = if i = 0 then addr t else 0) (ha : addr t ≠ 0) :
    w.requestsOf t = [addr t] := by
  unfold MemInst.requestsOf MAX_ACCESSES_PER_INSN_PER_THREAD
  rw [show w.memreqaddr t = fun i => if i = 0 then addr t else 0 from funext h]
  simp [List.range_succ_eq_map, ha]

theorem ne_zero_of_request {t a : Nat} (h : a ∈ w.requestsOf t) : a ≠ 0 := by
  unfold MemInst.requestsOf at h
  simpa using List.mem_takeWhile_imp h

theorem segment_size_ne_zero (h : w.data_size ∈ [1, 2, 4, 8, 16]) : w.segment_size ≠ 0 := by
  simp only [List.mem_cons, List.not_mem_nil, or_false] at h
  unfold MemInst.segment_size
  rcases h with h | h | h | h | h <;> rw [h]
  · simp
  all_goals
    simp only
    split_ifs <;> simp

/-- A warp without active threads sends nothing. -/
theorem sends_nothing (h : ∀ t < w.m_config.warp_size, w.active t = false) :
    Sends w (fun _ => []) ∧ Coalesced w fun _ => [] := by
  refine ⟨sends_of_subwarps fun s hs => ?_, ?_⟩
  · have hnil : w.threadsOf s = [] := by
      refine List.eq_nil_iff_forall_not_mem.mpr fun t ht => ?_
      have hidle := h t (Nat.lt_of_lt_of_le (lt_of_mem_threadsOf hs ht) subwarps_fit)
      rw [(mem_threadsOf.mp ht).2] at hidle
      cases hidle
    unfold MemInst.coalesceSubwarp MemInst.subwarp_transactions
    simp [hnil, StdMap.empty]
  · refine ⟨by simp, fun t ht hact => ?_, by simp, by simp, by simp⟩
    rw [h t ht] at hact
    cases hact

/-- The warp with one of its requests. -/
theorem single_of_request {t a : Nat} (ht : t < w.m_config.warp_size) (ha : a ∈ w.requestsOf t) :
    ∃ haddr, Single (w.withRequests (set 0 t) (fun _ access => if access = 0 then a else 0) haddr)
      t a := by
  have hlt := mem_requestsOf_lt ha
  have haddr : ∀ _ access : Nat, (if access = 0 then a else 0) < 2 ^ 64 := by
    intro _ access
    split <;> omega
  refine ⟨haddr, fun u => ?_, ht, ?_⟩
  · have ht32 := Nat.lt_of_lt_of_le ht w.m_config.warp_size_le
    unfold MemInst.active MemInst.withRequests
    dsimp only
    rw [getLsbD_set, show (0 : BitVec 32).getLsbD u = false from BitVec.getLsbD_zero,
      Bool.false_or, decide_eq_true_eq]
    omega
  · exact requestsOf_single (fun _ => a) (fun _ => rfl) (ne_zero_of_request ha)

/-- The accesses of every warp that makes requests of `w` hold all bytes, name them
exactly and do not overlap, if and only if each request of `w` stays in its chunk, has a
size with segments and is of a thread in a subwarp. -/
theorem coalescing_covers_iff (w : MemInst) (hsize : 0 < w.data_size) :
    (∀ mask memreqaddr addr_lt, w.Makes (w.withRequests mask memreqaddr addr_lt) →
      ∃ sub, Sends (w.withRequests mask memreqaddr addr_lt) sub ∧
        Coalesced (w.withRequests mask memreqaddr addr_lt) sub) ↔ w.Kept := by
  constructor
  · intro hall t ht hact a ha
    obtain ⟨haddr, hsingle⟩ := single_of_request ht ha
    have hmakes : w.Makes
        (w.withRequests (set 0 t) (fun _ access => if access = 0 then a else 0) haddr) := by
      refine ⟨fun u hu => (hsingle.active u).mp hu ▸ hact, fun u hu b hb => ?_, fun u hu => ?_⟩
      · rw [(hsingle.active u).mp hu, hsingle.requests, List.mem_singleton] at hb
        rw [(hsingle.active u).mp hu, hb]
        exact ha
      · rw [(hsingle.active u).mp hu, hsingle.requests]
        simp
    obtain ⟨sub, hsends, hco⟩ := hall _ _ haddr hmakes
    exact kept_of_single (w := w.withRequests _ _ haddr) hsize hsingle hsends hco
  · intro hkept mask memreqaddr addr_lt hmakes
    have hkept' : (w.withRequests mask memreqaddr addr_lt).Kept := fun t ht hact a ha =>
      hkept t ht (hmakes.active t hact) a (hmakes.requests t hact a ha)
    rcases (w.withRequests mask memreqaddr addr_lt).segment_size_eq with hn | hn
    · exact ⟨_, sends_accesses hn, Sends.coalesced hn hkept'⟩
    · refine ⟨_, sends_nothing fun t ht => ?_⟩
      rw [← Bool.not_eq_true]
      intro hact
      obtain ⟨a, rest, hrequests⟩ := List.exists_cons_of_ne_nil (hmakes.some t hact)
      exact segment_size_ne_zero (hkept' t ht hact a (by simp [hrequests])).1 hn

end

/-- A warp whose threads below `threads` read four bytes each. -/
def readsAt (threads : Nat) (addr : Nat → Nat) (haddr : ∀ t, addr t < 2 ^ 64) : MemInst where
  m_config := ⟨32, 1, 13, false, by omega, by omega⟩
  m_warp_active_mask := BitVec.ofNat 32 (2 ^ threads - 1)
  data_size := 4
  cache_global := false
  space := .global_space
  is_write := false
  access_type := .GLOBAL_ACC_R
  memreqaddr thread access := if access = 0 then addr thread else 0
  addr_lt thread access := by
    split
    · exact haddr thread
    · omega

theorem readsAt_requests {threads t : Nat} {addr : Nat → Nat} (haddr : ∀ t, addr t < 2 ^ 64)
    (hne : addr t ≠ 0) : (readsAt threads addr haddr).requestsOf t = [addr t] :=
  requestsOf_single addr (fun _ => rfl) hne

/-- Two threads at one word. -/
theorem reads_of_a_word_are_covered : 0 < (readsAt 2 (fun _ => 4096) (by omega)).data_size ∧
    ∀ mask memreqaddr addr_lt,
      (readsAt 2 (fun _ => 4096) (by omega)).Makes
        ((readsAt 2 (fun _ => 4096) (by omega)).withRequests mask memreqaddr addr_lt) →
      ∃ sub, Sends ((readsAt 2 (fun _ => 4096) (by omega)).withRequests mask memreqaddr addr_lt)
          sub ∧
        Coalesced ((readsAt 2 (fun _ => 4096) (by omega)).withRequests mask memreqaddr addr_lt)
          sub := by
  have hsize : 0 < (readsAt 2 (fun _ => 4096) (by omega)).data_size := by simp [readsAt]
  refine ⟨hsize, (coalescing_covers_iff (readsAt 2 (fun _ => 4096) (by omega)) hsize).mpr ?_⟩
  intro t ht _ a ha
  rw [readsAt_requests _ (by simp), List.mem_singleton] at ha
  subst ha
  exact ⟨by simp [readsAt], show 4096 % 32 + 4 ≤ 32 by omega, show t < 1 * (32 / 1) from ht⟩

/-- One thread whose word runs from byte 30 to 33 of its segment: the access ends at
byte 31. -/
theorem read_over_a_chunk_is_cut : (readsAt 1 (fun _ => 4126) (by omega)).requestsOf 0 = [4126] ∧
    ¬∃ sub, Sends (readsAt 1 (fun _ => 4126) (by omega)) sub ∧
      Coalesced (readsAt 1 (fun _ => 4126) (by omega)) sub := by
  have hrequests : (readsAt 1 (fun _ => 4126) (by omega)).requestsOf 0 = [4126] :=
    readsAt_requests _ (by simp)
  refine ⟨hrequests, ?_⟩
  rintro ⟨sub, hsends, hco⟩
  have hactive : ∀ u, (readsAt 1 (fun _ => 4126) (by omega)).active u = true ↔ u = 0 := by
    intro u
    change (1#32).getLsbD u = true ↔ u = 0
    rw [BitVec.getLsbD_one]
    simp
  have hcut := (kept_of_single (show 0 < 4 by omega) ⟨hactive, show 0 < 32 by omega, hrequests⟩
    hsends hco).2.1
  change 4126 % 32 + 4 ≤ 32 at hcut
  omega

end warp_inst_t

end gpgpu_sim_uvm
