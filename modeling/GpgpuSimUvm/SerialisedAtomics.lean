-- The accesses of the atomics of a warp: each thread is in one of them, no two
-- threads of one meet, and a segment gets as many as threads touch one location.
-- An access keeps the bytes of an atomic that stays in its chunk of 32 bytes.
import GpgpuSimUvm.AtomicCoalescing
import Mathlib.Order.Bounds.Basic

namespace gpgpu_sim_uvm

namespace warp_inst_t

open bitset

/-! ## The accesses of a subwarp -/

section

variable {w : MemInst} {ts : List Nat}

/-- Where an access comes from: round `r` of the segment `B`. -/
structure AccessOf (w : MemInst) (ts : List Nat) (B : Nat) (round : Nat → Nat) (r : Nat)
    (a : MemAccessT) : Prop where
  rounds : Rounds w (w.inSegment ts B) ((w.atomicTransactions ts).findD B []) round
  lt : r < ((w.atomicTransactions ts).findD B []).length
  eq : a = w.reducedAccess (((w.atomicTransactions ts).findD B []).getD r {}) B
  used : ∃ t ∈ ts, w.segmentOf t = B

theorem MemInst.Subwarp.accessOf (h : w.Subwarp ts) {a : MemAccessT}
    (ha : a ∈ w.atomicAccesses ts) : ∃ B round r, AccessOf w ts B round r a := by
  unfold MemInst.atomicAccesses at ha
  obtain ⟨e, he, ha⟩ := List.mem_flatMap.mp ha
  obtain ⟨info, hinfo, rfl⟩ := List.mem_map.mp ha
  obtain ⟨hlist, hused⟩ := atomicTransactions_entry he
  obtain ⟨round, hL⟩ := h.rounds e.1
  rw [hlist] at hinfo
  obtain ⟨r, hr, rfl⟩ := List.mem_iff_getElem.mp hinfo
  exact ⟨e.1, round, r, hL, hr, by simp [hr], hused⟩

/-- The threads of an access. -/
theorem AccessOf.thread {B r : Nat} {round : Nat → Nat} {a : MemAccessT}
    (h : AccessOf w ts B round r a) {t : Nat} :
    a.m_warp_mask.getLsbD t = true ↔ (t ∈ ts ∧ w.segmentOf t = B) ∧ round t = r := by
  rw [h.eq, ← mem_inSegment]
  exact h.rounds.active r t

/-- An access stays in its segment. -/
theorem AccessOf.segment (h : w.Subwarp ts) {B r : Nat} {round : Nat → Nat} {a : MemAccessT}
    (ha : AccessOf w ts B round r a) : a.m_addr / w.segment_size * w.segment_size = B := by
  obtain ⟨t, -, htB⟩ := ha.used
  have hred := (h.reduced htB ha.rounds ha.lt).2
  have haddr : a.m_addr = (reduceSegment (((w.atomicTransactions ts).findD B []).getD r {}).chunks
      B w.segment_size).1 := by
    rw [ha.eq]
    rfl
  have hwithin := hred.within
  have hsize := hred.size
  rw [← haddr] at hwithin
  have hdvd : B = B / w.segment_size * w.segment_size := by
    rw [← htB]
    unfold MemInst.segmentOf
    rcases h.sized with hn | hn | hn <;> rw [hn] <;> omega
  unfold SegmentSize at hsize
  rcases h.sized with hn | hn | hn <;> rw [hn] at hdvd hwithin hsize ⊢ <;> omega

/-- The accesses of one segment. -/
theorem MemInst.Subwarp.filter_segment (h : w.Subwarp ts) (B : Nat) :
    ((w.atomicAccesses ts).filter fun a =>
        decide (a.m_addr / w.segment_size * w.segment_size = B)) =
      ((w.atomicTransactions ts).findD B []).map fun info => w.reducedAccess info B := by
  have hall : ∀ e ∈ (w.atomicTransactions ts).entries, ∀ info ∈ e.2,
      (w.reducedAccess info e.1).m_addr / w.segment_size * w.segment_size = e.1 := by
    intro e he info hinfo
    obtain ⟨hlist, hused⟩ := atomicTransactions_entry he
    obtain ⟨round, hL⟩ := h.rounds e.1
    rw [hlist] at hinfo
    obtain ⟨r, hr, rfl⟩ := List.mem_iff_getElem.mp hinfo
    exact AccessOf.segment h ⟨hL, hr, by simp [hr], hused⟩
  have hnone : ∀ e ∈ (w.atomicTransactions ts).entries, e.1 ≠ B →
      ((e.2.map fun info => w.reducedAccess info e.1).filter fun a =>
        decide (a.m_addr / w.segment_size * w.segment_size = B)) = [] := by
    intro e he hne
    rw [List.filter_eq_nil_iff]
    rintro a ha
    obtain ⟨info, hinfo, rfl⟩ := List.mem_map.mp ha
    rw [hall e he info hinfo]
    simpa using hne
  unfold MemInst.atomicAccesses
  rcases hfind : (w.atomicTransactions ts).find B with _ | L
  · rw [show (w.atomicTransactions ts).findD B [] = [] by simp [StdMap.findD, hfind],
      List.map_nil, List.filter_flatMap, List.flatMap_eq_nil_iff]
    intro e he
    refine hnone e he fun heq => ?_
    have hmem := (StdMap.find_eq_none_iff _ _).mp hfind
    exact hmem (heq ▸ List.mem_map_of_mem he)
  · have he := StdMap.mem_entries_of_find _ hfind
    have hL : (w.atomicTransactions ts).findD B [] = L := by simp [StdMap.findD, hfind]
    have hnd : (w.atomicTransactions ts).entries.Nodup :=
      List.Nodup.of_map _ (StdMap.keys_nodup _)
    rw [hL]
    refine filter_flatMap_single hnd he ?_ fun e' he' hne => hnone e' he' fun heq => hne ?_
    · rw [List.filter_eq_self]
      intro a ha
      obtain ⟨info, hinfo, rfl⟩ := List.mem_map.mp ha
      simpa using hall _ he info hinfo
    · have hval := StdMap.findD_of_mem _ [] he'
      rw [heq, hL] at hval
      exact Prod.ext heq hval.symm

/-- A thread is in the access of its round and in no other. -/
theorem MemInst.Subwarp.filter_thread (h : w.Subwarp ts) {t : Nat} (ht : t ∈ ts) :
    ∃ a, ((w.atomicAccesses ts).filter fun a => a.m_warp_mask.getLsbD t) = [a] := by
  obtain ⟨round, hL⟩ := h.rounds (w.segmentOf t)
  have hin : t ∈ w.inSegment ts (w.segmentOf t) := mem_inSegment.mpr ⟨ht, rfl⟩
  have hlt := hL.lt t hin
  -- the accesses of the thread are all of its segment
  have hsplit : ((w.atomicAccesses ts).filter fun a => a.m_warp_mask.getLsbD t) =
      ((w.atomicAccesses ts).filter fun a => decide (a.m_addr / w.segment_size * w.segment_size =
        w.segmentOf t)).filter fun a => a.m_warp_mask.getLsbD t := by
    rw [List.filter_filter]
    refine List.filter_congr fun a ha => ?_
    obtain ⟨B, round', r, hof⟩ := h.accessOf ha
    by_cases hmask : a.m_warp_mask.getLsbD t = true
    · have hB := (hof.thread.mp hmask).1.2
      simp [hmask, AccessOf.segment h hof, hB]
    · simp [hmask]
  refine ⟨w.reducedAccess (((w.atomicTransactions ts).findD (w.segmentOf t) []).getD (round t) {})
    (w.segmentOf t), ?_⟩
  rw [hsplit, h.filter_segment, List.filter_map]
  have hone := filter_getD_single
    (p := fun info => (w.reducedAccess info (w.segmentOf t)).m_warp_mask.getLsbD t)
    (d := ({} : TransactionInfo)) hlt ((hL.active (round t) t).mpr ⟨hin, rfl⟩) fun i hi hne => by
      rw [Bool.eq_false_iff]
      intro hcon
      exact hne ((hL.active i t).mp hcon).2.symm
  simp only [Function.comp_def]
  rw [hone]
  rfl

/-- Two threads of an access do not meet. -/
theorem AccessOf.apart (h : w.Subwarp ts) {B r : Nat} {round : Nat → Nat} {a : MemAccessT}
    (ha : AccessOf w ts B round r a) {t u : Nat} (ht : a.m_warp_mask.getLsbD t = true)
    (hu : a.m_warp_mask.getLsbD u = true) (hne : t ≠ u) {b : Nat} (hb : w.Touches t b) :
    ¬ w.Touches u b := by
  obtain ⟨⟨htt, htB⟩, htr⟩ := ha.thread.mp ht
  obtain ⟨⟨huu, huB⟩, hur⟩ := ha.thread.mp hu
  intro hb'
  have hbase : w.memreqaddr t 0 / 128 * 128 = w.memreqaddr u 0 / 128 * 128 := by
    rw [← base_of_segment h.sized t, ← base_of_segment h.sized u, htB, huB]
  obtain ⟨-, hk⟩ := touches_iff.mp hb
  obtain ⟨-, hk'⟩ := touches_iff.mp hb'
  rw [← hbase] at hk'
  exact ha.rounds.apart t (mem_inSegment.mpr ⟨htt, htB⟩) u (mem_inSegment.mpr ⟨huu, huB⟩) hne
    (htr.trans hur.symm) _ hk hk'

/-- The access keeps the chunk of each of its threads. -/
theorem AccessOf.keeps (h : w.Subwarp ts) {B r : Nat} {round : Nat → Nat} {a : MemAccessT}
    (ha : AccessOf w ts B round r a) {t : Nat} (ht : a.m_warp_mask.getLsbD t = true) :
    a.m_addr ≤ w.memreqaddr t 0 / 32 * 32 ∧
      w.memreqaddr t 0 / 32 * 32 + 32 ≤ a.m_addr + a.m_req_size := by
  obtain ⟨⟨htt, htB⟩, htr⟩ := ha.thread.mp ht
  have hred := (h.reduced htB ha.rounds ha.lt).2
  have hin := mem_inSegment.mpr ⟨htt, htB⟩
  have hkeep := hred.keeps (w.idx t / 32) ((ha.rounds.chunks r _).mpr ⟨t, hin, htr, rfl⟩)
  have hchunk : B / 128 * 128 + 32 * (w.idx t / 32) = w.memreqaddr t 0 / 32 * 32 := by
    rw [← htB, base_of_segment h.sized]
    unfold MemInst.idx
    omega
  rw [hchunk] at hkeep
  rw [ha.eq]
  exact hkeep

/-- An access of one thread is a chunk. -/
theorem AccessOf.alone (h : w.Subwarp ts) {B r : Nat} {round : Nat → Nat} {a : MemAccessT}
    (ha : AccessOf w ts B round r a) {t : Nat}
    (hall : ∀ u, a.m_warp_mask.getLsbD u = true → u = t) : a.m_req_size = 32 := by
  obtain ⟨t₀, -, ht₀⟩ := ha.used
  have hred := (h.reduced ht₀ ha.rounds ha.lt).2
  have hsize := hred.single (w.idx t / 32) fun d hd => by
    obtain ⟨u, hu, hur, rfl⟩ := (ha.rounds.chunks r d).mp hd
    rw [hall u (ha.thread.mpr ⟨mem_inSegment.mp hu, hur⟩)]
  rw [ha.eq]
  exact hsize

end

/-! ## How many accesses a segment gets -/

section

variable {w : MemInst} {ts : List Nat}

instance (w : MemInst) (t b : Nat) : Decidable (w.Touches t b) :=
  inferInstanceAs (Decidable (_ ∧ _))

/-- The threads that touch byte `b`. -/
def MemInst.touching (w : MemInst) (ts : List Nat) (b : Nat) : List Nat :=
  ts.filter fun t => decide (w.Touches t b)

theorem mem_touching {b t : Nat} : t ∈ w.touching ts b ↔ t ∈ ts ∧ w.Touches t b := by
  simp [MemInst.touching]

/-- All active threads of the warp have naturally aligned addresses. -/
def MemInst.Aligned (w : MemInst) : Prop :=
  ∀ t < w.m_config.warp_size, w.active t = true → w.data_size ∣ w.memreqaddr t 0

/-- A byte of a segment is touched by threads of the segment. -/
theorem segmentOf_touching (h : w.Subwarp ts) {B b t : Nat} (hB : w.segment_size ∣ B)
    (hb : B ≤ b ∧ b < B + w.segment_size) (ht : t ∈ ts) (htb : w.Touches t b) :
    w.segmentOf t = B := by
  obtain ⟨hn, hstart, hends, -, -⟩ := h.located t ht
  obtain ⟨hlo, hhi⟩ := htb
  obtain ⟨m, rfl⟩ := hB
  unfold MemInst.segmentOf at hstart hends ⊢
  rcases hn with hn | hn | hn <;> rw [hn] at hstart hends hb ⊢ <;> omega

/-- The threads at one byte are in different rounds. -/
theorem touching_le (h : w.Subwarp ts) {B b : Nat} {L : List TransactionInfo} {round : Nat → Nat}
    (hL : Rounds w (w.inSegment ts B) L round) (hB : w.segment_size ∣ B)
    (hb : B ≤ b ∧ b < B + w.segment_size) : (w.touching ts b).length ≤ L.length := by
  have hin : ∀ t ∈ w.touching ts b, t ∈ w.inSegment ts B ∧ w.Touches t b := by
    intro t ht
    obtain ⟨ht, htb⟩ := mem_touching.mp ht
    exact ⟨mem_inSegment.mpr ⟨ht, segmentOf_touching h hB hb ht htb⟩, htb⟩
  have hnd : ((w.touching ts b).map round).Nodup := by
    refine List.Nodup.map_on (fun t ht u hu hround => ?_) (h.nodup.filter _)
    by_contra hne
    obtain ⟨htin, htb⟩ := hin t ht
    obtain ⟨huin, hub⟩ := hin u hu
    have hbase : w.memreqaddr t 0 / 128 * 128 = w.memreqaddr u 0 / 128 * 128 := by
      rw [← base_of_segment h.sized t, ← base_of_segment h.sized u, (mem_inSegment.mp htin).2,
        (mem_inSegment.mp huin).2]
    obtain ⟨-, hk⟩ := touches_iff.mp htb
    obtain ⟨-, hk'⟩ := touches_iff.mp hub
    rw [← hbase] at hk'
    exact hL.apart t htin u huin hne hround _ hk hk'
  have hsub : (w.touching ts b).map round ⊆ List.range L.length := by
    intro r hr
    obtain ⟨t, ht, rfl⟩ := List.mem_map.mp hr
    exact List.mem_range.mpr (hL.lt t (hin t ht).1)
  simpa using (List.subperm_of_subset hnd hsub).length_le

/-- Where the addresses are aligned, the last round meets all before it at one
address. -/
theorem exists_touching (h : w.Subwarp ts) {B : Nat} {L : List TransactionInfo}
    {round : Nat → Nat} (hL : Rounds w (w.inSegment ts B) L round) (hpos : 0 < L.length)
    (haligned : ∀ t ∈ ts, w.data_size ∣ w.memreqaddr t 0) :
    ∃ b, (B ≤ b ∧ b < B + w.segment_size) ∧ L.length ≤ (w.touching ts b).length := by
  obtain ⟨t, ht, htr⟩ := hL.used (L.length - 1) (by omega)
  obtain ⟨htt, htB⟩ := mem_inSegment.mp ht
  obtain ⟨hn, hstart, hends, hbound, hsize⟩ := h.located t htt
  rw [htB] at hstart hends
  refine ⟨w.memreqaddr t 0, ⟨hstart, by omega⟩, ?_⟩
  have hall : ∀ r < L.length, ∃ u ∈ w.touching ts (w.memreqaddr t 0), round u = r := by
    intro r hr
    by_cases hlast : r = L.length - 1
    · exact ⟨t, mem_touching.mpr ⟨htt, Nat.le_refl _, by omega⟩, by rw [htr, hlast]⟩
    · obtain ⟨u, hu, hur, k, hkt, hku⟩ := hL.fit t ht r (by omega)
      obtain ⟨huu, huB⟩ := mem_inSegment.mp hu
      refine ⟨u, mem_touching.mpr ⟨huu, ?_⟩, hur⟩
      have hbase : w.memreqaddr t 0 / 128 * 128 = w.memreqaddr u 0 / 128 * 128 := by
        rw [← base_of_segment h.sized t, ← base_of_segment h.sized u, htB, huB]
      obtain ⟨m, hm⟩ := haligned t htt
      obtain ⟨l, hl⟩ := haligned u huu
      unfold MemInst.Covers MemInst.idx at hkt hku
      have hsame : m = l := by
        rcases MemInst.data_size_of_segment h.sized with hd | hd | hd | hd | hd <;>
          rw [hd] at hm hl hkt hku <;> omega
      unfold MemInst.Touches
      rw [hm, hl, hsame]
      omega
  have hsub : List.range L.length ⊆ (w.touching ts (w.memreqaddr t 0)).map round := by
    intro r hr
    obtain ⟨u, hu, hur⟩ := hall r (List.mem_range.mp hr)
    exact List.mem_map.mpr ⟨u, hu, hur⟩
  simpa using (List.subperm_of_subset List.nodup_range hsub).length_le

/-- The number of accesses of a segment. -/
theorem MemInst.Subwarp.greatest (h : w.Subwarp ts)
    (haligned : ∀ t ∈ ts, w.data_size ∣ w.memreqaddr t 0) {B : Nat} (hB : w.segment_size ∣ B) :
    IsGreatest {n | ∃ b, (B ≤ b ∧ b < B + w.segment_size) ∧ n = (w.touching ts b).length}
      ((w.atomicAccesses ts).filter fun a =>
        decide (a.m_addr / w.segment_size * w.segment_size = B)).length := by
  obtain ⟨round, hL⟩ := h.rounds B
  rw [h.filter_segment, List.length_map]
  constructor
  · rcases Nat.eq_zero_or_pos ((w.atomicTransactions ts).findD B []).length with hzero | hpos
    · have hin : B ≤ B ∧ B < B + w.segment_size := by
        rcases h.sized with hn | hn | hn <;> omega
      exact ⟨B, hin, by have := touching_le h hL hB hin; omega⟩
    · obtain ⟨b, hb, hle⟩ := exists_touching h hL hpos haligned
      exact ⟨b, hb, Nat.le_antisymm hle (touching_le h hL hB hb)⟩
  · rintro n ⟨b, hb, rfl⟩
    exact touching_le h hL hB hb

end

/-! ## The warp -/

section

variable {w : MemInst}

theorem MemInst.Contained.subwarp (h : w.Contained) {s : Nat}
    (hs : s < w.m_config.mem_warp_parts) : w.Subwarp (w.threadsOf s) where
  sized := h.sized
  nodup := threadsOf_nodup
  lt _ ht := lt_32_of_mem_threadsOf hs ht
  located _ ht := h.located (Nat.lt_of_lt_of_le (lt_of_mem_threadsOf hs ht) subwarps_fit)
    (mem_threadsOf.mp ht).2

/-- The accesses of the warp, where no assertion fails. -/
def MemInst.warpAccesses (w : MemInst) : List MemAccessT :=
  (List.range w.m_config.mem_warp_parts).flatMap fun s => w.atomicAccesses (w.threadsOf s)

theorem MemInst.Contained.sends (h : w.Contained) :
    w.memory_coalescing_arch_atomic = some w.warpAccesses := by
  have hsub : ∀ s ∈ List.range w.m_config.mem_warp_parts,
      w.atomicSubwarp s = some (w.atomicAccesses (w.threadsOf s)) := fun s hs =>
    (h.subwarp (List.mem_range.mp hs)).sends
  unfold MemInst.memory_coalescing_arch_atomic MemInst.warpAccesses
  rw [if_neg (by simp [h.space]), mapM_eq_map hsub]
  rfl

/-- An access of the warp belongs to a subwarp. -/
theorem MemInst.Contained.accessOf (h : w.Contained) {a : MemAccessT} (ha : a ∈ w.warpAccesses) :
    ∃ s, ∃ _ : w.Subwarp (w.threadsOf s), s < w.m_config.mem_warp_parts ∧
      ∃ B round r, AccessOf w (w.threadsOf s) B round r a := by
  unfold MemInst.warpAccesses at ha
  obtain ⟨s, hs, ha⟩ := List.mem_flatMap.mp ha
  have hs := List.mem_range.mp hs
  exact ⟨s, h.subwarp hs, hs, (h.subwarp hs).accessOf ha⟩

/-- The accesses serialise the atomics of the warp and lose none. -/
structure Serialised (w : MemInst) (accesses : List MemAccessT) : Prop where
  once : ∀ t < w.m_config.warp_size, w.active t = true →
    ∃ a, (accesses.filter fun a => a.m_warp_mask.getLsbD t) = [a]
  only : ∀ a ∈ accesses, ∀ t, a.m_warp_mask.getLsbD t = true →
    t < w.m_config.warp_size ∧ w.active t = true
  apart : ∀ a ∈ accesses, ∀ t u, a.m_warp_mask.getLsbD t = true →
    a.m_warp_mask.getLsbD u = true → t ≠ u → ∀ b, w.Touches t b → ¬ w.Touches u b
  contains : ∀ a ∈ accesses, ∀ t, a.m_warp_mask.getLsbD t = true →
    ∀ b, w.Touches t b → a.m_addr ≤ b ∧ b < a.m_addr + a.m_req_size
  number : w.Aligned → ∀ s < w.m_config.mem_warp_parts, ∀ B, w.segment_size ∣ B →
    IsGreatest
      {n | ∃ b, (B ≤ b ∧ b < B + w.segment_size) ∧ n = (w.touching (w.threadsOf s) b).length}
      (accesses.filter fun a =>
        decide (a.m_addr / w.segment_size * w.segment_size = B) &&
          decide (∃ t ∈ w.threadsOf s, a.m_warp_mask.getLsbD t = true)).length

/-- An active thread's atomic stays in its chunk, and its thread is in a subwarp. -/
def MemInst.Served (w : MemInst) : Prop :=
  ∀ t < w.m_config.warp_size, w.active t = true →
    w.memreqaddr t 0 % 32 + w.data_size ≤ 32 ∧ t < w.m_config.mem_warp_parts * w.subwarp_size

theorem MemInst.Contained.filter_thread (h : w.Contained) {t : Nat} (hact : w.active t = true)
    (ht : t < w.m_config.mem_warp_parts * w.subwarp_size) :
    ∃ a, (w.warpAccesses.filter fun a => a.m_warp_mask.getLsbD t) = [a] := by
  obtain ⟨hs, hmem⟩ := exists_subwarp ht hact
  obtain ⟨a, ha⟩ := (h.subwarp hs).filter_thread hmem
  refine ⟨a, filter_flatMap_single List.nodup_range (List.mem_range.mpr hs) ha fun s hs' hne => ?_⟩
  rw [List.filter_eq_nil_iff]
  intro b hb hmask
  obtain ⟨B, round, r, hof⟩ := (h.subwarp (List.mem_range.mp hs')).accessOf hb
  exact hne (subwarp_of_mem (hof.thread.mp hmask).1.1).symm

/-- The accesses of a segment that name threads of the subwarp are those that it
sent. -/
theorem MemInst.Contained.filter_subwarp (h : w.Contained) {s : Nat}
    (hs : s < w.m_config.mem_warp_parts) (B : Nat) :
    (w.warpAccesses.filter fun a =>
        decide (a.m_addr / w.segment_size * w.segment_size = B) &&
          decide (∃ t ∈ w.threadsOf s, a.m_warp_mask.getLsbD t = true)) =
      (w.atomicAccesses (w.threadsOf s)).filter fun a =>
        decide (a.m_addr / w.segment_size * w.segment_size = B) := by
  refine filter_flatMap_single List.nodup_range (List.mem_range.mpr hs) ?_ fun s' hs' hne => ?_
  · refine List.filter_congr fun a ha => ?_
    obtain ⟨C, round, r, hof⟩ := (h.subwarp hs).accessOf ha
    obtain ⟨t, ht, htr⟩ := hof.rounds.used r hof.lt
    have hnamed : ∃ t ∈ w.threadsOf s, a.m_warp_mask.getLsbD t = true :=
      ⟨t, (mem_inSegment.mp ht).1, hof.thread.mpr ⟨mem_inSegment.mp ht, htr⟩⟩
    simp [hnamed]
  · rw [List.filter_eq_nil_iff]
    intro a ha hcon
    obtain ⟨C, round, r, hof⟩ := (h.subwarp (List.mem_range.mp hs')).accessOf ha
    simp only [Bool.and_eq_true, decide_eq_true_eq] at hcon
    obtain ⟨-, t, ht, hmask⟩ := hcon
    exact hne ((subwarp_of_mem (hof.thread.mp hmask).1.1).symm.trans (subwarp_of_mem ht))

theorem MemInst.Contained.serialised (h : w.Contained) (hserved : w.Served) :
    Serialised w w.warpAccesses where
  once t ht hact := h.filter_thread hact (hserved t ht hact).2
  only a ha t hmask := by
    obtain ⟨s, -, hs, B, round, r, hof⟩ := h.accessOf ha
    have hmem := (hof.thread.mp hmask).1.1
    exact ⟨Nat.lt_of_lt_of_le (lt_of_mem_threadsOf hs hmem) subwarps_fit,
      (mem_threadsOf.mp hmem).2⟩
  apart a ha _ _ ht hu hne _ hb := by
    obtain ⟨s, hsub, -, B, round, r, hof⟩ := h.accessOf ha
    exact hof.apart hsub ht hu hne hb
  contains a ha t hmask _ hb := by
    obtain ⟨s, hsub, hs, B, round, r, hof⟩ := h.accessOf ha
    have hmem := (hof.thread.mp hmask).1.1
    have hchunk := (hserved t (Nat.lt_of_lt_of_le (lt_of_mem_threadsOf hs hmem) subwarps_fit)
      (mem_threadsOf.mp hmem).2).1
    have hkeeps := hof.keeps hsub hmask
    obtain ⟨hlo, hhi⟩ := hb
    omega
  number haligned s hs B hB := by
    rw [h.filter_subwarp hs]
    refine (h.subwarp hs).greatest (fun t ht => ?_) hB
    exact haligned t (Nat.lt_of_lt_of_le (lt_of_mem_threadsOf hs ht) subwarps_fit)
      (mem_threadsOf.mp ht).2

/-! ## The threads that are lost -/

/-- The warp with fewer active threads. -/
def MemInst.withMask (w : MemInst) (mask : BitVec 32) : MemInst :=
  { w with m_warp_active_mask := mask }

/-- The mask names active threads only. -/
def MemInst.Among (w : MemInst) (mask : BitVec 32) : Prop :=
  ∀ t, mask.getLsbD t = true → w.active t = true

theorem MemInst.Contained.withMask (h : w.Contained) {mask : BitVec 32} (hmask : w.Among mask) :
    (w.withMask mask).Contained where
  space := h.space
  sized := h.sized
  within t ht hact := h.within t ht (hmask t hact)

/-- A warp of one thread is served only where the thread is. -/
theorem served_of_alone (h : w.Contained) {t : Nat} (hact : ∀ u, w.active u = true ↔ u = t)
    (ht : t < w.m_config.warp_size) (hser : Serialised w w.warpAccesses) :
    w.memreqaddr t 0 % 32 + w.data_size ≤ 32 ∧
      t < w.m_config.mem_warp_parts * w.subwarp_size := by
  obtain ⟨a, ha⟩ := hser.once t ht ((hact t).mpr rfl)
  have hmem : a ∈ w.warpAccesses ∧ a.m_warp_mask.getLsbD t = true := by
    have := List.mem_singleton_self a
    rw [← ha, List.mem_filter] at this
    exact this
  obtain ⟨s, hsub, hs, B, round, r, hof⟩ := h.accessOf hmem.1
  refine ⟨?_, lt_of_mem_threadsOf hs (hof.thread.mp hmem.2).1.1⟩
  have hsize := hof.alone hsub fun u hu => (hact u).mp (mem_threadsOf.mp (hof.thread.mp hu).1.1).2
  have hkeeps := hof.keeps hsub hmem.2
  have hpos := (h.located ht ((hact t).mpr rfl)).pos
  have hlast := hser.contains a hmem.1 t hmem.2 (w.memreqaddr t 0 + w.data_size - 1)
    ⟨by omega, by omega⟩
  omega

/-- The atomics of a warp and of every part of it are serialised with none lost,
exactly where each stays in its chunk and each thread belongs to a subwarp. -/
theorem atomics_serialise_iff (h : w.Contained) :
    (∀ mask, w.Among mask → ∃ accesses,
        (w.withMask mask).memory_coalescing_arch_atomic = some accesses ∧
          Serialised (w.withMask mask) accesses) ↔ w.Served := by
  constructor
  · intro hall t ht hact
    have hactive : ∀ u, (w.withMask (set 0 t)).active u = true ↔ u = t := by
      intro u
      have ht32 := Nat.lt_of_lt_of_le ht w.m_config.warp_size_le
      unfold MemInst.active MemInst.withMask
      dsimp only
      rw [getLsbD_set]
      rw [show (0 : BitVec 32).getLsbD u = false from BitVec.getLsbD_zero, Bool.false_or,
        decide_eq_true_eq]
      omega
    have hamong : w.Among (set 0 t) := fun u hu => (hactive u).mp hu ▸ hact
    obtain ⟨accesses, hsend, hser⟩ := hall _ hamong
    rw [(h.withMask hamong).sends] at hsend
    cases hsend
    exact served_of_alone (h.withMask hamong) hactive ht hser
  · intro hserved mask hmask
    exact ⟨_, (h.withMask hmask).sends,
      (h.withMask hmask).serialised fun t ht hact => hserved t ht (hmask t hact)⟩

end

/-- A warp in which `threads` many threads do an atomic of four bytes at `addr`. -/
def atomicsAt (threads addr : Nat) (haddr : addr < 2 ^ 64) : MemInst where
  m_config := ⟨32, 1, 13, false, by omega, by omega⟩
  m_warp_active_mask := BitVec.ofNat 32 (2 ^ threads - 1)
  data_size := 4
  cache_global := false
  space := .global_space
  is_write := true
  access_type := .GLOBAL_ACC_W
  memreqaddr _ _ := addr
  addr_lt _ _ := haddr

theorem atomicsAt_contained {threads addr : Nat} (haddr : addr < 2 ^ 64)
    (hin : addr % 128 + 4 ≤ 128) : (atomicsAt threads addr haddr).Contained where
  space := rfl
  sized := .inr (.inr rfl)
  within t _ _ := by
    change addr / 128 = (addr + 4 - 1) / 128
    omega

theorem counter_lt : 4096 < 2 ^ 64 := by omega

/-- Three threads at one word. -/
def atomicsOfACounter : MemInst := atomicsAt 3 4096 counter_lt

theorem chunk_end_lt : 30 < 2 ^ 64 := by omega

/-- One thread whose word runs from byte 30 to 33 of its segment. -/
def atomicOverAChunk : MemInst := atomicsAt 1 30 chunk_end_lt

theorem atomics_of_a_counter_serialise : atomicsOfACounter.Contained ∧
    ∀ mask, atomicsOfACounter.Among mask → ∃ accesses,
      (atomicsOfACounter.withMask mask).memory_coalescing_arch_atomic = some accesses ∧
        Serialised (atomicsOfACounter.withMask mask) accesses := by
  have hin : atomicsOfACounter.Contained := atomicsAt_contained counter_lt (by omega)
  refine ⟨hin, (atomics_serialise_iff hin).mpr fun t ht _ => ?_⟩
  exact ⟨show 4096 % 32 + 4 ≤ 32 by omega, show t < 1 * (32 / 1) from ht⟩

/-- The access ends at byte 31. -/
theorem atomic_over_a_chunk_is_cut : atomicOverAChunk.Contained ∧
    ¬ ∃ accesses, atomicOverAChunk.memory_coalescing_arch_atomic = some accesses ∧
      Serialised atomicOverAChunk accesses := by
  have hin : atomicOverAChunk.Contained := atomicsAt_contained chunk_end_lt (by omega)
  refine ⟨hin, ?_⟩
  rintro ⟨accesses, hsend, hser⟩
  rw [hin.sends] at hsend
  cases hsend
  have hone : ∀ u, atomicOverAChunk.active u = true ↔ u = 0 := by
    intro u
    change (1#32).getLsbD u = true ↔ u = 0
    rw [BitVec.getLsbD_one]
    simp
  have hcut := (served_of_alone hin hone (show 0 < 32 by omega) hser).1
  change 30 % 32 + 4 ≤ 32 at hcut
  omega

end warp_inst_t

end gpgpu_sim_uvm
