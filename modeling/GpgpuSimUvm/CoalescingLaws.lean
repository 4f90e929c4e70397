-- The laws that both coalescing functions rest on: a segment is the aligned range
-- around an address, and a reduction keeps every chunk that the transaction names.
import GpgpuSimUvm.Coalescing

namespace gpgpu_sim_uvm

namespace warp_inst_t

open bitset

/-! ## Segments -/

/-- The sizes that a segment has. -/
def SegmentSize (n : Nat) : Prop := n = 32 ∨ n = 64 ∨ n = 128

theorem MemInst.segment_size_eq (w : MemInst) :
    SegmentSize w.segment_size ∨ w.segment_size = 0 := by
  unfold MemInst.segment_size SegmentSize
  split
  · simp
  all_goals
    first
    | simp; done
    | split <;> simp

/-- The mask of a power of two takes the remainder off. -/
theorem and_mask {x k : Nat} (hk : k ≤ 64) (hx : x < 2 ^ 64) :
    x &&& (2 ^ 64 - 2 ^ k) = x / 2 ^ k * 2 ^ k := by
  have hmask : 2 ^ 64 - 2 ^ k = 2 ^ k * (2 ^ (64 - k) - 1) := by
    rw [Nat.mul_sub, ← Nat.pow_add, Nat.add_sub_cancel' hk, Nat.mul_one]
  refine Nat.eq_of_testBit_eq fun i => ?_
  rw [Nat.testBit_and, hmask, Nat.testBit_two_pow_mul, Nat.testBit_two_pow_sub_one, Nat.mul_comm,
    Nat.testBit_two_pow_mul, Nat.testBit_div_two_pow]
  by_cases hi : k ≤ i
  · rw [Nat.sub_add_cancel hi]
    by_cases hlt : i < 64
    · simp [hi, show i - k < 64 - k by omega]
    · have hhigh : x.testBit i = false :=
        Nat.testBit_lt_two_pow (Nat.lt_of_lt_of_le hx (Nat.pow_le_pow_right (by omega) (by omega)))
      simp [hhigh]
  · simp [hi]

theorem tag_eq {n x : Nat} (hn : SegmentSize n) (hx : x < 2 ^ 64) :
    line_size_based_tag_func x n = x / n * n := by
  unfold line_size_based_tag_func
  rcases hn with rfl | rfl | rfl
  · exact and_mask (show 5 ≤ 64 by omega) hx
  · exact and_mask (show 6 ≤ 64 by omega) hx
  · exact and_mask (show 7 ≤ 64 by omega) hx

/-! ## The reduction -/

/-- What the reduction of a transaction at `addr` leaves. -/
structure Reduced (q : BitVec 4) (addr segment_size : Nat) (r : Nat × Nat) : Prop where
  size : SegmentSize r.2
  aligned : r.2 ∣ r.1
  within : addr ≤ r.1 ∧ r.1 + r.2 ≤ addr + segment_size
  keeps : ∀ c, q.getLsbD c = true →
    r.1 ≤ addr / 128 * 128 + 32 * c ∧ addr / 128 * 128 + 32 * c + 32 ≤ r.1 + r.2
  single : ∀ c, (∀ d, q.getLsbD d = true → d = c) → r.2 = 32

/-- The chunks of a transaction lie in its segment. -/
def ChunksWithin (q : BitVec 4) (addr segment_size : Nat) : Prop :=
  ∀ c, q.getLsbD c = true →
    addr ≤ addr / 128 * 128 + 32 * c ∧ addr / 128 * 128 + 32 * c + 32 ≤ addr + segment_size

/-- The four chunks by name. -/
theorem chunk_cases {q : BitVec 4} {c : Nat} (h : q.getLsbD c = true) :
    c = 0 ∧ q.getLsbD 0 = true ∨ c = 1 ∧ q.getLsbD 1 = true ∨ c = 2 ∧ q.getLsbD 2 = true ∨
      c = 3 ∧ q.getLsbD 3 = true := by
  have hlt := BitVec.lt_of_getLsbD h
  have hcases : c = 0 ∨ c = 1 ∨ c = 2 ∨ c = 3 := by omega
  rcases hcases with rfl | rfl | rfl | rfl <;> simp [h]

/-- The halves of 64 bytes at `addr` are the chunks `c` and `c + 1`. -/
theorem reduceHalves_reduced {q : BitVec 4} {addr c : Nat} (haddr : 64 ∣ addr)
    (hbase : addr = addr / 128 * 128 + 32 * c) (hone : ∃ d, q.getLsbD d = true)
    (hq : ∀ d, q.getLsbD d = true → d = c ∨ d = c + 1) :
    Reduced q addr 64 (reduceHalves (q.getLsbD c) (q.getLsbD (c + 1)) addr) := by
  obtain ⟨m, hm⟩ := haddr
  have hsome : q.getLsbD c = true ∨ q.getLsbD (c + 1) = true := by
    obtain ⟨d, hd⟩ := hone
    rcases hq d hd with rfl | rfl
    · exact .inl hd
    · exact .inr hd
  unfold reduceHalves
  by_cases hl : q.getLsbD c = true <;> by_cases hu : q.getLsbD (c + 1) = true
  · simp only [hl, hu, Bool.not_true, Bool.and_false, Bool.false_and, Bool.false_eq_true, if_false]
    refine ⟨.inr (.inl rfl), ⟨m, hm⟩, by simp, fun d hd => ?_, fun d hd => ?_⟩
    · rcases hq d hd with rfl | rfl <;> constructor <;> simp only <;> omega
    · have := hd c hl
      have := hd (c + 1) hu
      omega
  · simp only [hl, hu, Bool.not_false, Bool.and_true, if_true]
    refine ⟨.inl rfl, ⟨2 * m, by simp only; omega⟩, by simp, fun d hd => ?_, fun _ _ => rfl⟩
    rcases hq d hd with rfl | rfl
    · constructor <;> simp only <;> omega
    · exact absurd hd hu
  · simp only [hl, hu, Bool.not_true, Bool.not_false, Bool.false_and, Bool.and_true,
      Bool.false_eq_true, if_false, if_true]
    refine ⟨.inl rfl, ⟨2 * m + 1, by simp only; omega⟩, by simp, fun d hd => ?_, fun _ _ => rfl⟩
    rcases hq d hd with rfl | rfl
    · exact absurd hd hl
    · constructor <;> simp only <;> omega
  · exact absurd hsome (by simp [hl, hu])

/-- A smaller part of a segment, reduced further. -/
theorem Reduced.widen {q : BitVec 4} {addr addr' n n' : Nat} {r : Nat × Nat}
    (h : Reduced q addr n r) (hbase : addr / 128 * 128 = addr' / 128 * 128) (hle : addr' ≤ addr)
    (hsize : addr + n ≤ addr' + n') : Reduced q addr' n' r where
  size := h.size
  aligned := h.aligned
  within := ⟨hle.trans h.within.1, h.within.2.trans hsize⟩
  keeps c hc := hbase ▸ h.keeps c hc
  single := h.single

theorem reduceSegment_reduced {q : BitVec 4} {addr n : Nat} (hn : SegmentSize n) (haddr : n ∣ addr)
    (hq : ChunksWithin q addr n) (hone : ∃ c, q.getLsbD c = true) :
    Reduced q addr n (reduceSegment q addr n) := by
  obtain ⟨m, hm⟩ := haddr
  unfold reduceSegment
  rcases hn with rfl | rfl | rfl
  · simp only [show (32 : Nat) ≠ 128 by omega, show (32 : Nat) ≠ 64 by omega, if_false]
    exact ⟨.inl rfl, ⟨m, hm⟩, by simp, hq, fun _ _ => rfl⟩
  · simp only [show (64 : Nat) ≠ 128 by omega, if_false, if_true]
    split
    · refine reduceHalves_reduced ⟨m, hm⟩ (by omega) hone fun d hd => ?_
      have := hq d hd
      omega
    · refine reduceHalves_reduced ⟨m, hm⟩ (by omega) hone fun d hd => ?_
      have := hq d hd
      omega
  · simp only [if_true]
    by_cases hl : (q.getLsbD 0 || q.getLsbD 1) = true <;>
      by_cases hu : (q.getLsbD 2 || q.getLsbD 3) = true
    · simp only [hl, hu, Bool.not_true, Bool.and_false, Bool.false_and, Bool.false_eq_true,
        if_false]
      refine ⟨.inr (.inr rfl), ⟨m, hm⟩, by simp, hq, fun c hc => ?_⟩
      have hlow : ∃ d < 2, q.getLsbD d = true := by
        rcases Bool.or_eq_true _ _ ▸ hl with h | h
        · exact ⟨0, by omega, h⟩
        · exact ⟨1, by omega, h⟩
      have hhigh : ∃ d, 2 ≤ d ∧ q.getLsbD d = true := by
        rcases Bool.or_eq_true _ _ ▸ hu with h | h
        · exact ⟨2, by omega, h⟩
        · exact ⟨3, by omega, h⟩
      obtain ⟨d, hd, hd'⟩ := hlow
      obtain ⟨e, he, he'⟩ := hhigh
      have := hc d hd'
      have := hc e he'
      omega
    · simp only [hl, hu, Bool.not_false, Bool.and_true, if_true]
      have hh : Reduced q addr 64 (reduceHalves (q.getLsbD 0) (q.getLsbD 1) addr) := by
        refine reduceHalves_reduced ⟨2 * m, by omega⟩ (by omega) hone fun d hd => ?_
        rcases chunk_cases hd with ⟨rfl, -⟩ | ⟨rfl, -⟩ | ⟨rfl, h⟩ | ⟨rfl, h⟩
        · exact .inl rfl
        · exact .inr rfl
        · simp [h] at hu
        · simp [h] at hu
      exact hh.widen rfl (Nat.le_refl _) (by omega)
    · simp only [hl, hu, Bool.not_true, Bool.not_false, Bool.false_and, Bool.and_true,
        Bool.false_eq_true, if_false, if_true]
      have hh : Reduced q (addr + 64) 64
          (reduceHalves (q.getLsbD 2) (q.getLsbD 3) (addr + 64)) := by
        refine reduceHalves_reduced ⟨2 * m + 1, by omega⟩ (by omega) hone fun d hd => ?_
        rcases chunk_cases hd with ⟨rfl, h⟩ | ⟨rfl, h⟩ | ⟨rfl, -⟩ | ⟨rfl, -⟩
        · simp [h] at hl
        · simp [h] at hl
        · exact .inl rfl
        · exact .inr rfl
      exact hh.widen (by omega) (by omega) (by omega)
    · obtain ⟨c, hc⟩ := hone
      rcases chunk_cases hc with ⟨-, h⟩ | ⟨-, h⟩ | ⟨-, h⟩ | ⟨-, h⟩ <;> simp [h] at hl hu

/-- The assertions hold where the chunks lie in the segment. -/
theorem reduceAsserts_ok {q : BitVec 4} {addr n : Nat} (hn : SegmentSize n) (haddr : n ∣ addr)
    (hq : ChunksWithin q addr n) (hone : ∃ c, q.getLsbD c = true) :
    reduceAsserts q addr n = true := by
  have hcount : 1 ≤ count q := (count_pos_iff q).mpr hone
  obtain ⟨m, hm⟩ := haddr
  obtain ⟨c, hc⟩ := hone
  have hin := hq c hc
  have hmask : addr &&& (n - 1) = 0 := by
    rcases hn with rfl | rfl | rfl
    · rw [show (32 : Nat) - 1 = 2 ^ 5 - 1 by rfl, Nat.and_two_pow_sub_one_eq_mod]
      omega
    · rw [show (64 : Nat) - 1 = 2 ^ 6 - 1 by rfl, Nat.and_two_pow_sub_one_eq_mod]
      omega
    · rw [show (128 : Nat) - 1 = 2 ^ 7 - 1 by rfl, Nat.and_two_pow_sub_one_eq_mod]
      omega
  have hwrap : (n + 2 ^ 32 - 1) % 2 ^ 32 = n - 1 := by
    rcases hn with rfl | rfl | rfl <;> rfl
  unfold reduceAsserts
  rw [hwrap, hmask]
  simp only [decide_true, Bool.true_and, hcount]
  split
  · rename_i h64
    subst h64
    split
    · rename_i hlow
      rcases chunk_cases hc with ⟨rfl, h⟩ | ⟨rfl, h⟩ | ⟨rfl, h⟩ | ⟨rfl, h⟩
      · simp [h]
      · simp [h]
      · omega
      · omega
    · rename_i hhigh
      have heq : addr % 128 = 64 := by omega
      rcases chunk_cases hc with ⟨rfl, h⟩ | ⟨rfl, h⟩ | ⟨rfl, h⟩ | ⟨rfl, h⟩
      · omega
      · omega
      · simp [h, heq]
      · simp [h, heq]
  · rfl

theorem MemInst.send_ok {w : MemInst} {info : TransactionInfo} {addr : Nat}
    (hn : SegmentSize w.segment_size) (haddr : w.segment_size ∣ addr)
    (hq : ChunksWithin info.chunks addr w.segment_size)
    (hone : ∃ c, info.chunks.getLsbD c = true) :
    w.memory_coalescing_arch_reduce_and_send info addr = some (w.reducedAccess info addr) := by
  unfold MemInst.memory_coalescing_arch_reduce_and_send
  rw [if_pos (reduceAsserts_ok hn haddr hq hone)]

/-! ## One among many -/

section

variable {α β : Type} {p : β → Bool}

theorem mapM_eq_map {f : α → Option β} {g : α → β} {l : List α} (h : ∀ x ∈ l, f x = some (g x)) :
    l.mapM f = some (l.map g) := by
  induction l with
  | nil => rfl
  | cons x l ih =>
    rw [List.mapM_cons, h x (by simp), ih fun y hy => h y (List.mem_cons_of_mem _ hy)]
    rfl

/-- The only list with an element that has the property. -/
theorem filter_flatMap_single {l : List α} (hnd : l.Nodup) {f : α → List β} {x : α} (hx : x ∈ l)
    {ys : List β} (hys : (f x).filter p = ys) (hother : ∀ y ∈ l, y ≠ x → (f y).filter p = []) :
    (l.flatMap f).filter p = ys := by
  induction l with
  | nil => simp at hx
  | cons y l ih =>
    obtain ⟨hy, hnd⟩ := List.nodup_cons.mp hnd
    rw [List.flatMap_cons, List.filter_append]
    rcases List.mem_cons.mp hx with rfl | hx
    · have hrest : (l.flatMap f).filter p = [] := by
        rw [List.filter_flatMap, List.flatMap_eq_nil_iff]
        intro z hz
        exact hother z (List.mem_cons_of_mem _ hz) (fun h => hy (h ▸ hz))
      rw [hys, hrest, List.append_nil]
    · have hne : y ≠ x := fun h => hy (h ▸ hx)
      rw [hother y (by simp) hne, List.nil_append]
      exact ih hnd hx fun z hz => hother z (List.mem_cons_of_mem _ hz)

/-- The only place of a list whose element has the property. -/
theorem filter_getD_single {L : List β} {d : β} {r : Nat} (hr : r < L.length)
    (hp : p (L.getD r d) = true) (hother : ∀ i < L.length, i ≠ r → p (L.getD i d) = false) :
    L.filter p = [L.getD r d] := by
  induction L generalizing r with
  | nil => simp at hr
  | cons b L ih =>
    cases r with
    | zero =>
      have hrest : L.filter p = [] := by
        rw [List.filter_eq_nil_iff]
        intro x hx
        obtain ⟨i, hi, rfl⟩ := List.mem_iff_getElem.mp hx
        have := hother (i + 1) (by simpa using hi) (by omega)
        simpa [hi] using this
      rw [List.filter_cons_of_pos (by simpa using hp), hrest]
      rfl
    | succ r =>
      have hb := hother 0 (by simp) (by omega)
      rw [List.filter_cons_of_neg (by simpa using hb)]
      refine ih (by simpa using hr) (by simpa using hp) fun i hi hir => ?_
      simpa using hother (i + 1) (by simpa using hi) (by omega)

end

/-! ## The threads of a subwarp -/

section

variable {w : MemInst} {s t : Nat}

theorem mem_threadsOf : t ∈ w.threadsOf s ↔
    (s * w.subwarp_size ≤ t ∧ t < s * w.subwarp_size + w.subwarp_size) ∧ w.active t = true := by
  unfold MemInst.threadsOf
  rw [List.mem_filter, List.mem_range'_1]

theorem threadsOf_nodup : (w.threadsOf s).Nodup := List.Nodup.filter _ List.nodup_range'

/-- A thread belongs to the subwarp of its number. -/
theorem subwarp_of_mem (ht : t ∈ w.threadsOf s) : t / w.subwarp_size = s := by
  obtain ⟨⟨hlo, hhi⟩, -⟩ := mem_threadsOf.mp ht
  refine Nat.div_eq_of_lt_le (by omega) ?_
  rw [Nat.add_mul]
  omega

theorem subwarps_fit : w.m_config.mem_warp_parts * w.subwarp_size ≤ w.m_config.warp_size :=
  Nat.mul_div_le _ _

theorem lt_of_mem_threadsOf (hs : s < w.m_config.mem_warp_parts) (ht : t ∈ w.threadsOf s) :
    t < w.m_config.mem_warp_parts * w.subwarp_size := by
  obtain ⟨⟨-, hhi⟩, -⟩ := mem_threadsOf.mp ht
  have hle : (s + 1) * w.subwarp_size ≤ w.m_config.mem_warp_parts * w.subwarp_size :=
    Nat.mul_le_mul_right _ hs
  rw [Nat.add_mul] at hle
  omega

theorem lt_32_of_mem_threadsOf (hs : s < w.m_config.mem_warp_parts) (ht : t ∈ w.threadsOf s) :
    t < 32 := by
  have := lt_of_mem_threadsOf hs ht
  have := subwarps_fit (w := w)
  have := w.m_config.warp_size_le
  omega

/-- The subwarps hold all active threads but those that are left over. -/
theorem exists_subwarp (ht : t < w.m_config.mem_warp_parts * w.subwarp_size)
    (hact : w.active t = true) :
    t / w.subwarp_size < w.m_config.mem_warp_parts ∧ t ∈ w.threadsOf (t / w.subwarp_size) := by
  have hpos : 0 < w.subwarp_size := by
    refine Nat.pos_of_ne_zero fun h0 => ?_
    simp [h0] at ht
  refine ⟨(Nat.div_lt_iff_lt_mul hpos).mpr ht, mem_threadsOf.mpr ⟨⟨Nat.div_mul_le_self _ _, ?_⟩,
    hact⟩⟩
  have := Nat.div_add_mod' t w.subwarp_size
  have := Nat.mod_lt t hpos
  omega

end

end warp_inst_t

end gpgpu_sim_uvm
