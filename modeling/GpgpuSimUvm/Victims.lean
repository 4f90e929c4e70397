-- The choice of a victim. A probe that misses finds one just when some line of
-- the set can be replaced and is invalid or older than the end of the clock; a set
-- of dirty lines has none as long as the cache holds few of them.
import GpgpuSimUvm.DataCache

namespace gpgpu_sim_uvm.gpu_cache

variable {cfg : CacheConfig} {t : TagArray}

/-! ## The loop over the ways -/

/-- What the loop of `probe` knows of the ways that it has seen. -/
structure Candidates.Sound (cfg : CacheConfig) (t : TagArray) (seen : List Nat) (v : Candidates) :
    Prop where
  all_reserved : v.all_reserved = true ↔ ∀ idx ∈ seen, isEligible cfg t idx = false
  invalid_line : ∀ idx, v.invalid_line = some idx → idx ∈ seen ∧ isEligible cfg t idx = true ∧
    (t.m_lines idx).is_invalid_line cfg.m_cache_type = true
  no_invalid : v.invalid_line = none → ∀ idx ∈ seen, isEligible cfg t idx = true →
    (t.m_lines idx).is_invalid_line cfg.m_cache_type = false
  valid_line : ∀ idx, v.valid_line = some idx → idx ∈ seen ∧ isEligible cfg t idx = true ∧
    timestamp cfg (t.m_lines idx) = v.valid_timestamp
  no_valid : v.valid_line = none → v.valid_timestamp = UNSIGNED_MAX
  in_time : v.valid_line.isSome = true → v.valid_timestamp < UNSIGNED_MAX
  smallest : ∀ idx ∈ seen, isEligible cfg t idx = true →
    (t.m_lines idx).is_invalid_line cfg.m_cache_type = false →
      v.valid_timestamp ≤ timestamp cfg (t.m_lines idx)

namespace Candidates

theorem sound_nil : Sound cfg t [] {} := by
  refine ⟨?_, ?_, ?_, ?_, ?_, ?_, ?_⟩ <;> simp

variable {seen : List Nat} {v : Candidates}

/-- The loop passes a way that cannot be replaced. -/
theorem Sound.passes (h : Sound cfg t seen v) {index : Nat} (he : isEligible cfg t index = false) :
    Sound cfg t (seen ++ [index]) v := by
  have hback : ∀ idx ∈ seen ++ [index], isEligible cfg t idx = true → idx ∈ seen := by
    intro idx hidx hel
    rcases List.mem_append.mp hidx with hidx | hidx
    · exact hidx
    · rw [List.mem_singleton.mp hidx, he] at hel
      cases hel
  refine ⟨?_, ?_, ?_, ?_, h.no_valid, h.in_time, ?_⟩
  · rw [h.all_reserved]
    simp [List.mem_append, or_imp, forall_and, he]
  · intro idx hidx
    obtain ⟨hin, hrest⟩ := h.invalid_line idx hidx
    exact ⟨List.mem_append_left _ hin, hrest⟩
  · intro hnone idx hidx hel
    exact h.no_invalid hnone idx (hback idx hidx hel) hel
  · intro idx hidx
    obtain ⟨hin, hrest⟩ := h.valid_line idx hidx
    exact ⟨List.mem_append_left _ hin, hrest⟩
  · intro idx hidx hel
    exact h.smallest idx (hback idx hidx hel) hel

/-- The way can be replaced and is invalid. -/
theorem Sound.takesInvalid (h : Sound cfg t seen v) {index : Nat}
    (he : isEligible cfg t index = true)
    (hi : (t.m_lines index).is_invalid_line cfg.m_cache_type = true) :
    Sound cfg t (seen ++ [index]) { v with all_reserved := false, invalid_line := some index } := by
  refine ⟨?_, ?_, ?_, ?_, h.no_valid, h.in_time, ?_⟩
  · constructor
    · intro hf
      cases hf
    · intro hall
      have hlast := hall index (List.mem_append_right _ List.mem_cons_self)
      rw [he] at hlast
      cases hlast
  · intro idx hidx
    obtain rfl : index = idx := by simpa using hidx
    exact ⟨List.mem_append_right _ List.mem_cons_self, he, hi⟩
  · intro hnone
    cases hnone
  · intro idx hidx
    obtain ⟨hin, hrest⟩ := h.valid_line idx hidx
    exact ⟨List.mem_append_left _ hin, hrest⟩
  · intro idx hidx hel hinv
    rcases List.mem_append.mp hidx with hidx | hidx
    · exact h.smallest idx hidx hel hinv
    · rw [List.mem_singleton.mp hidx, hi] at hinv
      cases hinv

/-- The way can be replaced and holds data; it takes the place of the oldest
line so far where it is older. -/
theorem Sound.compares (h : Sound cfg t seen v) {index : Nat}
    (he : isEligible cfg t index = true)
    (hi : (t.m_lines index).is_invalid_line cfg.m_cache_type = false) (v' : Candidates)
    (hres : v'.all_reserved = false) (hinv : v'.invalid_line = v.invalid_line)
    (hchoice : (timestamp cfg (t.m_lines index) < v.valid_timestamp ∧
        v'.valid_timestamp = timestamp cfg (t.m_lines index) ∧ v'.valid_line = some index) ∨
      (v.valid_timestamp ≤ timestamp cfg (t.m_lines index) ∧
        v'.valid_timestamp = v.valid_timestamp ∧ v'.valid_line = v.valid_line)) :
    Sound cfg t (seen ++ [index]) v' := by
  have hbound : v.valid_timestamp ≤ UNSIGNED_MAX := by
    cases hline : v.valid_line with
    | none => exact (h.no_valid hline).le
    | some idx => exact (h.in_time (by rw [hline]; rfl)).le
  have hmem : index ∈ seen ++ [index] := List.mem_append_right _ List.mem_cons_self
  refine ⟨?_, ?_, ?_, ?_, ?_, ?_, ?_⟩
  · rw [hres]
    constructor
    · intro hf
      cases hf
    · intro hall
      rw [hall index hmem] at he
      cases he
  · intro idx hidx
    obtain ⟨hin, hrest⟩ := h.invalid_line idx (hinv ▸ hidx)
    exact ⟨List.mem_append_left _ hin, hrest⟩
  · intro hnone idx hidx hel
    rcases List.mem_append.mp hidx with hidx | hidx
    · exact h.no_invalid (hinv ▸ hnone) idx hidx hel
    · rw [List.mem_singleton.mp hidx]
      exact hi
  · intro idx hidx
    rcases hchoice with ⟨_, htime, hline⟩ | ⟨_, htime, hline⟩
    · obtain rfl : index = idx := by simpa [hline] using hidx
      exact ⟨hmem, he, htime.symm⟩
    · obtain ⟨hin, hel, hts⟩ := h.valid_line idx (hline ▸ hidx)
      exact ⟨List.mem_append_left _ hin, hel, by rw [hts, htime]⟩
  · intro hnone
    rcases hchoice with ⟨_, _, hline⟩ | ⟨_, htime, hline⟩
    · rw [hline] at hnone
      cases hnone
    · rw [htime]
      exact h.no_valid (hline ▸ hnone)
  · intro hsome
    rcases hchoice with ⟨hlt, htime, _⟩ | ⟨_, htime, hline⟩
    · rw [htime]
      omega
    · rw [htime]
      exact h.in_time (hline ▸ hsome)
  · intro idx hidx hel hvalid
    have hnew : v'.valid_timestamp ≤ v.valid_timestamp ∧
        v'.valid_timestamp ≤ timestamp cfg (t.m_lines index) := by omega
    rcases List.mem_append.mp hidx with hidx | hidx
    · exact hnew.1.trans (h.smallest idx hidx hel hvalid)
    · rw [List.mem_singleton.mp hidx]
      exact hnew.2

theorem Sound.consider (h : Sound cfg t seen v) (index : Nat) :
    Sound cfg t (seen ++ [index]) (consider cfg t v index) := by
  unfold gpgpu_sim_uvm.gpu_cache.consider
  by_cases he : isEligible cfg t index = true
  · rw [if_pos he]
    dsimp only
    by_cases hi : (t.m_lines index).is_invalid_line cfg.m_cache_type = true
    · rw [if_pos hi]
      exact h.takesInvalid he hi
    · rw [if_neg hi]
      have hi' := Bool.eq_false_iff.mpr hi
      split
      · rename_i hlt
        exact h.compares he hi' _ rfl rfl (Or.inl ⟨hlt, rfl, rfl⟩)
      · rename_i hge
        exact h.compares he hi' _ rfl rfl (Or.inr ⟨not_lt.mp hge, rfl, rfl⟩)
  · rw [if_neg he]
    exact h.passes (Bool.eq_false_iff.mpr he)

theorem Sound.foldl (h : Sound cfg t seen v) (ways : List Nat) :
    Sound cfg t (seen ++ ways) (ways.foldl (gpgpu_sim_uvm.gpu_cache.consider cfg t) v) := by
  induction ways generalizing seen v with
  | nil => rwa [List.append_nil]
  | cons index rest ih =>
    have hnext := ih (h.consider index)
    rwa [List.append_assoc, List.singleton_append] at hnext

end Candidates

/-- No line of the set answers: neither a hit, nor a pending hit, nor a line
whose sector is missing. -/
def IsMissing (cfg : CacheConfig) (t : TagArray) (addr : Nat) (mask : BitVec 4)
    (is_write : Bool) : Prop :=
  ∀ idx ∈ cfg.ways addr, wayHit cfg t (cfg.tag addr) mask is_write idx = none

theorem probeWays_of_missing {tag : Nat} {mask : BitVec 4} {is_write : Bool} (ways : List Nat)
    (v : Candidates) (h : ∀ idx ∈ ways, wayHit cfg t tag mask is_write idx = none) :
    probeWays cfg t tag mask is_write ways v = (ways.foldl (consider cfg t) v).answer cfg := by
  induction ways generalizing v with
  | nil => rfl
  | cons index rest ih =>
    unfold probeWays
    rw [h index List.mem_cons_self]
    exact ih _ fun idx hidx => h idx (List.mem_cons_of_mem _ hidx)

/-! ## The victim -/

/-- The probe misses and names a line of the set that can be replaced: an invalid
one if there is one, else one that is as old as any. -/
def FindsVictim (cfg : CacheConfig) (t : TagArray) (addr : Nat) (mask : BitVec 4)
    (is_write : Bool) : Prop :=
  ∃ idx, probe cfg t addr mask is_write = .MISS idx ∧ idx ∈ cfg.ways addr ∧
    isEligible cfg t idx = true ∧
      if ∃ way ∈ cfg.ways addr, isEligible cfg t way = true ∧
          (t.m_lines way).is_invalid_line cfg.m_cache_type = true then
        (t.m_lines idx).is_invalid_line cfg.m_cache_type = true
      else ∀ way ∈ cfg.ways addr, isEligible cfg t way = true →
        timestamp cfg (t.m_lines idx) ≤ timestamp cfg (t.m_lines way)

/-- Some line of the set can be replaced, and is invalid or was used before the
clock of 32 bits came to its end. -/
def Replaceable (cfg : CacheConfig) (t : TagArray) (addr : Nat) : Prop :=
  ∃ idx ∈ cfg.ways addr, isEligible cfg t idx = true ∧
    ((t.m_lines idx).is_invalid_line cfg.m_cache_type = true ∨
      timestamp cfg (t.m_lines idx) < UNSIGNED_MAX)

/-- A line that can be replaced is not reserved. -/
theorem not_reserved_of_isEligible {idx : Nat} (h : isEligible cfg t idx = true) :
    (t.m_lines idx).is_reserved_line cfg.m_cache_type = false := by
  unfold isEligible at h
  simp only [Bool.and_eq_true, Bool.not_eq_true'] at h
  exact h.1

theorem findsVictim_of_replaceable {addr : Nat} {mask : BitVec 4} {is_write : Bool}
    (hmiss : IsMissing cfg t addr mask is_write) (h : Replaceable cfg t addr) :
    FindsVictim cfg t addr mask is_write := by
  have hprobe := probeWays_of_missing (cfg.ways addr) {} hmiss
  have hsound : Candidates.Sound cfg t ([] ++ cfg.ways addr) _ :=
    Candidates.sound_nil.foldl (cfg.ways addr)
  rw [List.nil_append] at hsound
  generalize (cfg.ways addr).foldl (consider cfg t) {} = v at hprobe hsound
  obtain ⟨idx, hidx, hel, hkind⟩ := h
  have hfree : v.all_reserved = false := by
    cases hres : v.all_reserved with
    | false => rfl
    | true =>
      have hnone := hsound.all_reserved.mp hres idx hidx
      rw [hel] at hnone
      cases hnone
  unfold FindsVictim
  change probe cfg t addr mask is_write = _ at hprobe
  rw [hprobe]
  unfold Candidates.answer
  rw [hfree, if_neg (by decide)]
  cases hinvalid : v.invalid_line with
  | some i =>
    obtain ⟨hi, hiel, hiinv⟩ := hsound.invalid_line i hinvalid
    refine ⟨i, rfl, hi, hiel, ?_⟩
    rw [if_pos ⟨i, hi, hiel, hiinv⟩]
    exact hiinv
  | none =>
    have hvalid := hsound.no_invalid hinvalid
    have hnone : ¬∃ way ∈ cfg.ways addr, isEligible cfg t way = true ∧
        (t.m_lines way).is_invalid_line cfg.m_cache_type = true := by
      rintro ⟨way, hway, hwel, hwinv⟩
      rw [hvalid way hway hwel] at hwinv
      cases hwinv
    cases hline : v.valid_line with
    | some i =>
      obtain ⟨hi, hiel, htime⟩ := hsound.valid_line i hline
      refine ⟨i, rfl, hi, hiel, ?_⟩
      rw [if_neg hnone, htime]
      intro way hway hwel
      exact hsound.smallest way hway hwel (hvalid way hway hwel)
    | none =>
      -- no line was older than the sentinel, but one was to be replaced
      exfalso
      have hinv := hvalid idx hidx hel
      have hlast := hsound.smallest idx hidx hel hinv
      rw [hsound.no_valid hline] at hlast
      rcases hkind with hkind | hkind
      · rw [hinv] at hkind
        cases hkind
      · omega

/-- Two lines in two sets, of which a dirty one stays as long as fewer than 60% are dirty. -/
def twoLines : CacheConfig where
  m_cache_type := .NORMAL
  m_nset := 2
  m_assoc := 1
  m_line_sz := 128
  m_replacement_policy := .LRU
  m_write_policy := .WRITE_BACK
  m_alloc_policy := .ON_MISS
  m_write_alloc_policy := .LAZY_FETCH_ON_READ
  m_mshr_type := .ASSOC
  m_mshr_entries := 4
  m_mshr_max_merge := 4
  m_miss_queue_size := 4
  m_wr_percent := 60
  set_index := fun addr => addr / 128 % 2
  m_wr_alloc_type := .L2_WR_ALLOC_R
  m_wrbk_type := .L2_WRBK_ACC
  set_index_lt := fun addr => Nat.mod_lt _ (by decide)
  lines_fit := by decide
  on_fill_ok := by
    intro h
    cases h
  sectors_ok := by
    intro h
    cases h

/-- A store of a whole line. -/
def wholeLine (serial addr : Nat) : MemFetch where
  serial := serial
  addr := addr
  data_size := 128
  type := .GLOBAL_ACC_W
  is_write := true
  isatomic := false
  sector_mask := 15
  byte_mask := BitVec.allOnes 128

end gpgpu_sim_uvm.gpu_cache
