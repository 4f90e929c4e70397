-- Atomics of a warp: two threads that touch a common byte go into different
-- transactions, each thread into the first that is free for it.
import GpgpuSimUvm.CoalescingLaws

namespace gpgpu_sim_uvm

namespace warp_inst_t

open bitset

/-! ## The atomics -/

section

variable (w : MemInst)

/-- The place of a thread's atomic in its 128 bytes. -/
def MemInst.idx (t : Nat) : Nat := w.memreqaddr t 0 % 128

/-- Byte `k` of the 128 bytes is the thread's. -/
def MemInst.Covers (t k : Nat) : Prop := w.idx t ≤ k ∧ k < w.idx t + w.data_size

/-- Each active thread's atomic lies in one segment of the global memory. -/
structure MemInst.Contained : Prop where
  space : w.space = .global_space
  sized : SegmentSize w.segment_size
  within : ∀ t < w.m_config.warp_size, w.active t = true →
    w.memreqaddr t 0 / w.segment_size = (w.memreqaddr t 0 + w.data_size - 1) / w.segment_size

/-- How the threads `us` of one segment are spread over its transactions. -/
structure Rounds (us : List Nat) (L : List TransactionInfo) (round : Nat → Nat) : Prop where
  lt : ∀ t ∈ us, round t < L.length
  active : ∀ r t, (L.getD r {}).active.getLsbD t = true ↔ t ∈ us ∧ round t = r
  bytes : ∀ r k, (L.getD r {}).bytes.getLsbD k = true ↔ ∃ t ∈ us, round t = r ∧ w.Covers t k
  chunks : ∀ r c, (L.getD r {}).chunks.getLsbD c = true ↔ ∃ t ∈ us, round t = r ∧ c = w.idx t / 32
  apart : ∀ t ∈ us, ∀ u ∈ us, t ≠ u → round t = round u → ∀ k, w.Covers t k → ¬ w.Covers u k
  used : ∀ r < L.length, ∃ t ∈ us, round t = r
  fit : ∀ t ∈ us, ∀ r < round t, ∃ u ∈ us, round u = r ∧ ∃ k, w.Covers t k ∧ w.Covers u k

end

/-! ## One thread -/

theorem test_bytes_iff {info : TransactionInfo} {start n : Nat} :
    info.test_bytes start n = true ↔
      ∃ k, (start ≤ k ∧ k < start + n) ∧ info.bytes.getLsbD k = true := by
  unfold TransactionInfo.test_bytes
  rw [List.any_eq_true]
  exact exists_congr fun k => by rw [List.mem_range'_1]

/-- The thread goes into transaction `r`, which may be a new one. -/
theorem placeAtomic_spec (thread addr n : Nat) (L : List TransactionInfo) :
    ∃ r ≤ L.length, (∀ i < r, (L.getD i {}).test_bytes (addr % 128) n = true) ∧
      (L.getD r {}).test_bytes (addr % 128) n = false ∧
      (placeAtomic thread addr n L).length = max L.length (r + 1) ∧
      ∀ i, (placeAtomic thread addr n L).getD i {} =
        if i = r then (L.getD r {}).record thread addr n else L.getD i {} := by
  induction L with
  | nil =>
    refine ⟨0, Nat.le_refl _, by simp, ?_, rfl, fun i => ?_⟩
    · rw [Bool.eq_false_iff, ne_eq, test_bytes_iff]
      simp
    · cases i <;> simp [placeAtomic]
  | cons info rest ih =>
    unfold placeAtomic
    by_cases hmeet : info.test_bytes (addr % 128) n = true
    · rw [if_pos hmeet]
      obtain ⟨r, hr, hpassed, hfree, hlen, hget⟩ := ih
      refine ⟨r + 1, by simpa using hr, fun i hi => ?_, by simpa using hfree, ?_, fun i => ?_⟩
      · cases i with
        | zero => simpa using hmeet
        | succ i => simpa using hpassed i (by omega)
      · simp only [List.length_cons, hlen]
        omega
      · cases i with
        | zero => simp
        | succ i => simpa using hget i
    · rw [if_neg hmeet]
      refine ⟨0, Nat.zero_le _, by simp, by simpa using hmeet, by simp, fun i => ?_⟩
      cases i <;> simp

section

variable {w : MemInst} {us : List Nat} {L : List TransactionInfo} {round : Nat → Nat}

theorem rounds_nil : Rounds w [] [] round := by
  constructor <;> simp

/-- The step of the invariant. -/
theorem Rounds.place (h : Rounds w us L round) {t : Nat} (ht : t ∉ us) (ht32 : t < 32)
    (hfit : w.idx t + w.data_size ≤ 128) :
    ∃ r, Rounds w (us ++ [t]) (placeAtomic t (w.memreqaddr t 0) w.data_size L)
      (Function.update round t r) := by
  obtain ⟨r, hr, hpassed, hfree, hlen, hget⟩ :=
    placeAtomic_spec t (w.memreqaddr t 0) w.data_size L
  have hfree : ∀ k, w.Covers t k → (L.getD r {}).bytes.getLsbD k = false := by
    intro k hk
    rw [Bool.eq_false_iff]
    intro hbyte
    exact Bool.eq_false_iff.mp hfree (test_bytes_iff.mpr ⟨k, hk, hbyte⟩)
  have hold : ∀ u ∈ us, Function.update round t r u = round u := by
    intro u hu
    refine Function.update_of_ne ?_ _ _
    rintro rfl
    exact ht hu
  have hnew : Function.update round t r t = r := Function.update_self _ _ _
  -- who is in round `i`, by the rounds before
  have hin : ∀ (P : Nat → Prop) (i : Nat),
      (∃ u ∈ us ++ [t], Function.update round t r u = i ∧ P u) ↔
        (∃ u ∈ us, round u = i ∧ P u) ∨ i = r ∧ P t := by
    intro P i
    constructor
    · rintro ⟨u, hu, hui, hP⟩
      rcases List.mem_append.mp hu with hu | hu
      · exact .inl ⟨u, hu, by rw [← hold u hu, hui], hP⟩
      · obtain rfl : u = t := by simpa using hu
        exact .inr ⟨by rw [← hui, hnew], hP⟩
    · rintro (⟨u, hu, hui, hP⟩ | ⟨rfl, hP⟩)
      · exact ⟨u, by simp [hu], by rw [hold u hu, hui], hP⟩
      · exact ⟨t, by simp, hnew, hP⟩
  refine ⟨r, ?_⟩
  constructor
  · intro u hu
    rw [hlen]
    rcases List.mem_append.mp hu with hu | hu
    · have := h.lt u hu
      rw [hold u hu]
      omega
    · obtain rfl : u = t := by simpa using hu
      rw [hnew]
      omega
  · intro i u
    have hmem : u ∈ us ++ [t] ∧ Function.update round t r u = i ↔
        (∃ v ∈ us, round v = i ∧ v = u) ∨ i = r ∧ t = u := by
      rw [← hin (· = u)]
      constructor
      · rintro ⟨hu, hui⟩
        exact ⟨u, hu, hui, rfl⟩
      · rintro ⟨v, hv, hvi, rfl⟩
        exact ⟨hv, hvi⟩
    rw [hmem, hget]
    by_cases hi : i = r
    · subst hi
      rw [if_pos rfl, TransactionInfo.record, getLsbD_set, Bool.or_eq_true, h.active]
      simp only [decide_eq_true_eq, true_and]
      constructor
      · rintro (⟨hu, hui⟩ | ⟨rfl, -⟩)
        · exact .inl ⟨u, hu, hui, rfl⟩
        · exact .inr rfl
      · rintro (⟨v, hv, hvi, rfl⟩ | rfl)
        · exact .inl ⟨hv, hvi⟩
        · exact .inr ⟨rfl, ht32⟩
    · rw [if_neg hi, h.active]
      constructor
      · rintro ⟨hu, hui⟩
        exact .inl ⟨u, hu, hui, rfl⟩
      · rintro (⟨v, hv, hvi, rfl⟩ | ⟨hcon, -⟩)
        · exact ⟨hv, hvi⟩
        · exact absurd hcon hi
  · intro i k
    rw [hin fun u => w.Covers u k, hget]
    by_cases hi : i = r
    · subst hi
      rw [if_pos rfl, TransactionInfo.record, getLsbD_setRange, Bool.or_eq_true, h.bytes,
        decide_eq_true_eq]
      refine or_congr_right ⟨fun ⟨hlo, hhi, _⟩ => ⟨rfl, hlo, hhi⟩, fun ⟨_, hlo, hhi⟩ => ?_⟩
      have hhi' : k < w.idx t + w.data_size := hhi
      exact ⟨hlo, hhi, by omega⟩
    · rw [if_neg hi, h.bytes]
      simp [hi]
  · intro i c
    rw [hin fun u => c = w.idx u / 32, hget]
    by_cases hi : i = r
    · subst hi
      rw [if_pos rfl, TransactionInfo.record, getLsbD_set, Bool.or_eq_true, h.chunks,
        decide_eq_true_eq]
      refine or_congr_right ⟨fun ⟨hc, _⟩ => ⟨rfl, hc⟩, fun ⟨_, hc⟩ => ⟨hc, ?_⟩⟩
      have : w.idx t < 128 := Nat.mod_lt _ (by omega)
      omega
    · rw [if_neg hi, h.chunks]
      simp [hi]
  · intro u hu v hv huv hround k hku hkv
    rcases List.mem_append.mp hu with hu' | hu' <;> rcases List.mem_append.mp hv with hv' | hv'
    · rw [hold u hu', hold v hv'] at hround
      exact h.apart u hu' v hv' huv hround k hku hkv
    · rw [List.mem_singleton.mp hv'] at hround hkv
      rw [hold u hu', hnew] at hround
      exact Bool.eq_false_iff.mp (hfree k hkv) ((h.bytes r k).mpr ⟨u, hu', hround, hku⟩)
    · rw [List.mem_singleton.mp hu'] at hround hku
      rw [hold v hv', hnew] at hround
      exact Bool.eq_false_iff.mp (hfree k hku) ((h.bytes r k).mpr ⟨v, hv', hround.symm, hkv⟩)
    · exact huv ((List.mem_singleton.mp hu').trans (List.mem_singleton.mp hv').symm)
  · intro i hi
    rw [hlen] at hi
    by_cases hir : i = r
    · exact ⟨t, by simp, by rw [hnew, hir]⟩
    · obtain ⟨u, hu, hui⟩ := h.used i (by omega)
      exact ⟨u, by simp [hu], by rw [hold u hu, hui]⟩
  · intro u hu i hi
    rcases List.mem_append.mp hu with hu | hu
    · rw [hold u hu] at hi
      obtain ⟨v, hv, hvi, hk⟩ := h.fit u hu i hi
      exact ⟨v, by simp [hv], by rw [hold v hv, hvi], hk⟩
    · obtain rfl : u = t := by simpa using hu
      rw [hnew] at hi
      obtain ⟨k, hk, hbyte⟩ := test_bytes_iff.mp (hpassed i hi)
      obtain ⟨v, hv, hvi, hkv⟩ := (h.bytes i k).mp hbyte
      exact ⟨v, by simp [hv], by rw [hold v hv, hvi], k, hk, hkv⟩

/-- All threads of a segment, one after the other. -/
theorem rounds_foldl (hnd : us.Nodup) (h32 : ∀ t ∈ us, t < 32)
    (hfit : ∀ t ∈ us, w.idx t + w.data_size ≤ 128) :
    ∃ round, Rounds w us
      (us.foldl (fun L t => placeAtomic t (w.memreqaddr t 0) w.data_size L) []) round := by
  induction us using List.reverseRecOn with
  | nil => exact ⟨fun _ => 0, rounds_nil⟩
  | append_singleton us t ih =>
    have hparts := List.nodup_append.mp hnd
    obtain ⟨round, h⟩ := ih hparts.1 (fun u hu => h32 u (by simp [hu]))
      (fun u hu => hfit u (by simp [hu]))
    have ht : t ∉ us := fun hmem => hparts.2.2 t hmem t (by simp) rfl
    obtain ⟨r, hr⟩ := h.place ht (h32 t (by simp)) (hfit t (by simp))
    rw [List.foldl_append]
    exact ⟨_, hr⟩

end

/-! ## A segment -/

section

variable {w : MemInst}

theorem MemInst.data_size_of_segment (hn : SegmentSize w.segment_size) :
    w.data_size = 1 ∨ w.data_size = 2 ∨ w.data_size = 4 ∨ w.data_size = 8 ∨ w.data_size = 16 := by
  unfold MemInst.segment_size SegmentSize at hn
  split at hn
  · simp [*]
  · simp [*]
  · simp [*]
  · simp [*]
  · simp [*]
  · simp at hn

/-- Byte `b` of the memory is the thread's. -/
def MemInst.Touches (w : MemInst) (t b : Nat) : Prop :=
  w.memreqaddr t 0 ≤ b ∧ b < w.memreqaddr t 0 + w.data_size

/-- The segment of a thread's atomic. -/
def MemInst.segmentOf (w : MemInst) (t : Nat) : Nat :=
  w.memreqaddr t 0 / w.segment_size * w.segment_size

theorem MemInst.block_eq (hn : SegmentSize w.segment_size) (t : Nat) :
    w.block_address (w.memreqaddr t 0) = w.segmentOf t := tag_eq hn (w.addr_lt t 0)

/-- Where an atomic lies in its segment. -/
structure MemInst.Located (w : MemInst) (t : Nat) : Prop where
  sized : SegmentSize w.segment_size
  start : w.segmentOf t ≤ w.memreqaddr t 0
  ends : w.memreqaddr t 0 + w.data_size ≤ w.segmentOf t + w.segment_size
  bound : w.segmentOf t + w.segment_size ≤ 2 ^ 64
  pos : 0 < w.data_size

theorem MemInst.Contained.located (h : w.Contained) {t : Nat} (ht : t < w.m_config.warp_size)
    (hact : w.active t = true) : w.Located t := by
  have hin := h.within t ht hact
  have hlt := w.addr_lt t 0
  have hsize : 0 < w.data_size := by
    rcases MemInst.data_size_of_segment h.sized with h | h | h | h | h <;> omega
  refine ⟨h.sized, Nat.div_mul_le_self _ _, ?_, ?_, hsize⟩ <;> unfold MemInst.segmentOf <;>
    rcases h.sized with hn | hn | hn <;> rw [hn] at hin ⊢ <;> omega

theorem MemInst.Located.idx_fits {t : Nat} (h : w.Located t) : w.idx t + w.data_size ≤ 128 := by
  obtain ⟨hn, hstart, hends, -, -⟩ := h
  unfold MemInst.idx
  unfold MemInst.segmentOf at hstart hends
  rcases hn with hn | hn | hn <;> rw [hn] at hstart hends <;> omega

/-- In one segment the bytes of the 128 tell the bytes of the memory. -/
theorem touches_iff {t b : Nat} :
    w.Touches t b ↔ w.memreqaddr t 0 / 128 * 128 ≤ b ∧
      w.Covers t (b - w.memreqaddr t 0 / 128 * 128) := by
  unfold MemInst.Touches MemInst.Covers MemInst.idx
  omega

theorem base_of_segment (hn : SegmentSize w.segment_size) (t : Nat) :
    w.segmentOf t / 128 * 128 = w.memreqaddr t 0 / 128 * 128 := by
  unfold MemInst.segmentOf
  rcases hn with hn | hn | hn <;> rw [hn] <;> omega

/-- The chunk of an atomic lies in its segment. -/
theorem MemInst.chunk_within (hn : SegmentSize w.segment_size) (t : Nat) :
    w.segmentOf t ≤ w.segmentOf t / 128 * 128 + 32 * (w.idx t / 32) ∧
      w.segmentOf t / 128 * 128 + 32 * (w.idx t / 32) + 32 ≤ w.segmentOf t + w.segment_size := by
  unfold MemInst.segmentOf MemInst.idx
  rcases hn with hn | hn | hn <;> rw [hn] <;> omega

theorem atomicThread_eq {t : Nat} (h : w.Located t)
    (m : StdMap Nat (List TransactionInfo)) :
    w.atomicThread m t =
      some (m.alter (w.segmentOf t) [] (placeAtomic t (w.memreqaddr t 0) w.data_size)) := by
  have hlast : sub_size_t (w.memreqaddr t 0 + w.data_size) 1 =
      w.memreqaddr t 0 + w.data_size - 1 := by
    have := h.ends
    have := h.bound
    have := h.pos
    unfold sub_size_t SIZE_T
    omega
  have hsame : w.block_address (w.memreqaddr t 0 + w.data_size - 1) = w.segmentOf t := by
    have hstart := h.start
    have hends := h.ends
    have hbound := h.bound
    have hpos := h.pos
    unfold MemInst.block_address
    rw [tag_eq h.sized (by omega)]
    unfold MemInst.segmentOf at hstart hends ⊢
    rcases h.sized with hn | hn | hn <;> rw [hn] at hstart hends ⊢ <;> omega
  unfold MemInst.atomicThread
  dsimp only
  rw [hlast, hsame, MemInst.block_eq h.sized, if_neg (by simp)]

end

/-! ## A subwarp -/

section

variable {w : MemInst} {ts : List Nat}

/-- The transactions of a subwarp, by their segments. -/
def MemInst.atomicTransactions (w : MemInst) (ts : List Nat) : StdMap Nat (List TransactionInfo) :=
  ts.foldl (fun m t => m.alter (w.segmentOf t) [] (placeAtomic t (w.memreqaddr t 0) w.data_size))
    .empty

/-- The accesses of a subwarp, where no assertion fails. -/
def MemInst.atomicAccesses (w : MemInst) (ts : List Nat) : List MemAccessT :=
  (w.atomicTransactions ts).entries.flatMap fun e => e.2.map fun info => w.reducedAccess info e.1

theorem foldlM_atomicThread (h : ∀ t ∈ ts, w.Located t) (m : StdMap Nat (List TransactionInfo)) :
    ts.foldlM w.atomicThread m = some (ts.foldl (fun m t =>
      m.alter (w.segmentOf t) [] (placeAtomic t (w.memreqaddr t 0) w.data_size)) m) := by
  induction ts generalizing m with
  | nil => rfl
  | cons t ts ih =>
    rw [List.foldlM_cons, atomicThread_eq (h t (by simp))]
    exact ih (fun u hu => h u (List.mem_cons_of_mem _ hu)) _

/-- The threads of one segment. -/
def MemInst.inSegment (w : MemInst) (ts : List Nat) (B : Nat) : List Nat :=
  ts.filter fun t => decide (w.segmentOf t = B)

theorem mem_inSegment {B t : Nat} : t ∈ w.inSegment ts B ↔ t ∈ ts ∧ w.segmentOf t = B := by
  simp [MemInst.inSegment]

/-- What a subwarp asks for. -/
structure MemInst.Subwarp (w : MemInst) (ts : List Nat) : Prop where
  sized : SegmentSize w.segment_size
  nodup : ts.Nodup
  lt : ∀ t ∈ ts, t < 32
  located : ∀ t ∈ ts, w.Located t

/-- The transactions of a segment come from its threads. -/
theorem MemInst.Subwarp.rounds (h : w.Subwarp ts) (B : Nat) :
    ∃ round, Rounds w (w.inSegment ts B) ((w.atomicTransactions ts).findD B []) round := by
  have hfold : (w.atomicTransactions ts).findD B [] =
      (w.inSegment ts B).foldl
        (fun L t => placeAtomic t (w.memreqaddr t 0) w.data_size L) [] := by
    unfold MemInst.atomicTransactions
    rw [StdMap.findD_foldl_alter]
    rfl
  rw [hfold]
  refine rounds_foldl (h.nodup.filter _) (fun t ht => ?_) (fun t ht => ?_)
  · exact h.lt t (mem_inSegment.mp ht).1
  · exact (h.located t (mem_inSegment.mp ht).1).idx_fits

/-- An entry of the map is the list of its segment, which has a thread. -/
theorem atomicTransactions_entry {e : Nat × List TransactionInfo}
    (he : e ∈ (w.atomicTransactions ts).entries) :
    e.2 = (w.atomicTransactions ts).findD e.1 [] ∧ ∃ t ∈ ts, w.segmentOf t = e.1 := by
  refine ⟨(StdMap.findD_of_mem _ [] he).symm, ?_⟩
  have hkey : e.1 ∈ (w.atomicTransactions ts).keys := List.mem_map_of_mem he
  rw [StdMap.mem_keys] at hkey
  unfold MemInst.atomicTransactions at hkey
  rw [StdMap.contains_foldl_alter] at hkey
  refine hkey.resolve_left fun hcon => ?_
  simp [StdMap.contains] at hcon

/-- What is left of a transaction of a segment. -/
theorem MemInst.Subwarp.reduced (h : w.Subwarp ts) {B t₀ : Nat} (ht₀ : w.segmentOf t₀ = B)
    {round : Nat → Nat} {L : List TransactionInfo}
    (hL : Rounds w (w.inSegment ts B) L round) {r : Nat} (hr : r < L.length) :
    w.memory_coalescing_arch_reduce_and_send (L.getD r {}) B =
        some (w.reducedAccess (L.getD r {}) B) ∧
      Reduced (L.getD r {}).chunks B w.segment_size
        (reduceSegment (L.getD r {}).chunks B w.segment_size) := by
  have hdvd : w.segment_size ∣ B := by
    rw [← ht₀]
    exact Dvd.intro_left _ rfl
  have hone : ∃ c, (L.getD r {}).chunks.getLsbD c = true := by
    obtain ⟨t, ht, htr⟩ := hL.used r hr
    exact ⟨w.idx t / 32, (hL.chunks r _).mpr ⟨t, ht, htr, rfl⟩⟩
  have hwithin : ChunksWithin (L.getD r {}).chunks B w.segment_size := by
    intro c hc
    obtain ⟨t, ht, -, rfl⟩ := (hL.chunks r c).mp hc
    rw [← (mem_inSegment.mp ht).2]
    exact MemInst.chunk_within h.sized t
  exact ⟨MemInst.send_ok h.sized hdvd hwithin hone,
    reduceSegment_reduced h.sized hdvd hwithin hone⟩

theorem MemInst.Subwarp.sends (h : w.Subwarp ts) :
    (ts.foldlM w.atomicThread .empty).bind (fun m =>
      (m.entries.flatMap fun t_list => t_list.2.map fun info => (info, t_list.1)).mapM fun t =>
        w.memory_coalescing_arch_reduce_and_send t.1 t.2) = some (w.atomicAccesses ts) := by
  rw [foldlM_atomicThread h.located, Option.bind_some]
  have hsend : ∀ x ∈ (w.atomicTransactions ts).entries.flatMap
      (fun t_list => t_list.2.map fun info => (info, t_list.1)),
      w.memory_coalescing_arch_reduce_and_send x.1 x.2 = some (w.reducedAccess x.1 x.2) := by
    intro x hx
    obtain ⟨e, he, hx⟩ := List.mem_flatMap.mp hx
    obtain ⟨info, hinfo, rfl⟩ := List.mem_map.mp hx
    obtain ⟨hlist, t₀, -, ht₀⟩ := atomicTransactions_entry he
    obtain ⟨round, hL⟩ := h.rounds e.1
    rw [hlist] at hinfo
    obtain ⟨r, hr, rfl⟩ := List.mem_iff_getElem.mp hinfo
    have := (h.reduced ht₀ hL hr).1
    simpa [hr] using this
  have hrun := mapM_eq_map hsend
  unfold MemInst.atomicTransactions at hrun
  rw [hrun]
  unfold MemInst.atomicAccesses MemInst.atomicTransactions
  rw [List.map_flatMap]
  simp [Function.comp_def]

end

end warp_inst_t

end gpgpu_sim_uvm
