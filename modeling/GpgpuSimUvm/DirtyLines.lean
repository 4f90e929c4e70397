-- The counter of the dirty lines. It is right as long as no write that evicts, and
-- no fill, takes the last dirty sector of a line, and no line with several valid
-- sectors is invalidated by its address.
import GpgpuSimUvm.Mshrs

namespace gpgpu_sim_uvm.gpu_cache

variable {cfg : CacheConfig}

/-! ## Counting lines -/

/-- The number of lines for which `is_modified_line` holds. -/
def modifiedLines (cfg : CacheConfig) (t : TagArray) : Nat :=
  (List.range cfg.get_num_lines).countP fun i => (t.m_lines i).is_modified_line cfg.m_cache_type

/-- The counter is right. -/
def DirtyCounted (cfg : CacheConfig) (t : TagArray) : Prop := t.m_dirty = modifiedLines cfg t

theorem countP_range_congr {p q : Nat → Bool} {n : Nat} (h : ∀ j < n, q j = p j) :
    (List.range n).countP q = (List.range n).countP p := by
  apply List.countP_congr
  intro j hj
  rw [h j (List.mem_range.mp hj)]

/-- A count that changes at one place. -/
theorem countP_range_change {p q : Nat → Bool} {i n : Nat} (hi : i < n)
    (h : ∀ j, j ≠ i → q j = p j) :
    (List.range n).countP q + (p i).toNat = (List.range n).countP p + (q i).toNat := by
  induction n with
  | zero => omega
  | succ n ih =>
    rw [List.range_succ, List.countP_append, List.countP_append, List.countP_singleton,
      List.countP_singleton]
    by_cases hin : i = n
    · subst hin
      rw [countP_range_congr fun j hj => h j (by omega)]
      cases p i <;> cases q i <;> simp
    · have hrest := ih (by omega)
      rw [h n (by omega)]
      omega

/-- What a change of one line does to the count. -/
theorem modifiedLines_change {t t' : TagArray} {idx : Nat} (hidx : idx < cfg.get_num_lines)
    (h : ∀ j, j ≠ idx → t'.m_lines j = t.m_lines j) :
    modifiedLines cfg t' + ((t.m_lines idx).is_modified_line cfg.m_cache_type).toNat =
      modifiedLines cfg t + ((t'.m_lines idx).is_modified_line cfg.m_cache_type).toNat :=
  countP_range_change (p := fun i => (t.m_lines i).is_modified_line cfg.m_cache_type)
    (q := fun i => (t'.m_lines i).is_modified_line cfg.m_cache_type) hidx
    fun j hj => by simp only [h j hj]

theorem modifiedLines_updateLine (t : TagArray) {idx : Nat} (hidx : idx < cfg.get_num_lines)
    (f : CacheBlock → CacheBlock) :
    modifiedLines cfg (t.updateLine idx f) +
        ((t.m_lines idx).is_modified_line cfg.m_cache_type).toNat =
      modifiedLines cfg t + ((f (t.m_lines idx)).is_modified_line cfg.m_cache_type).toNat := by
  have hline : (t.updateLine idx f).m_lines idx = f (t.m_lines idx) := by
    simp [TagArray.updateLine]
  have hothers : ∀ j, j ≠ idx → (t.updateLine idx f).m_lines j = t.m_lines j :=
    fun j hj => by simp [TagArray.updateLine, hj]
  have hcount := modifiedLines_change hidx hothers
  rw [hline] at hcount
  exact hcount

theorem modifiedLines_le (t : TagArray) : modifiedLines cfg t ≤ cfg.get_num_lines := by
  unfold modifiedLines
  calc _ ≤ (List.range cfg.get_num_lines).length := List.countP_le_length
    _ = cfg.get_num_lines := List.length_range

namespace DirtyCounted

variable {t : TagArray} {idx : Nat}

theorem congr (h : DirtyCounted cfg t) {t' : TagArray} (hl : t'.m_lines = t.m_lines)
    (hd : t'.m_dirty = t.m_dirty) : DirtyCounted cfg t' := by
  unfold DirtyCounted modifiedLines at *
  rw [hl, hd]
  exact h

/-- The line is as dirty as before. -/
theorem same (h : DirtyCounted cfg t) (hidx : idx < cfg.get_num_lines)
    {f : CacheBlock → CacheBlock}
    (hf : (f (t.m_lines idx)).is_modified_line cfg.m_cache_type =
      (t.m_lines idx).is_modified_line cfg.m_cache_type) :
    DirtyCounted cfg (t.updateLine idx f) := by
  have hcount := modifiedLines_updateLine t hidx f
  rw [hf] at hcount
  unfold DirtyCounted at *
  change t.m_dirty = _
  omega

/-- The line is no longer dirty. -/
theorem lost (h : DirtyCounted cfg t) (hidx : idx < cfg.get_num_lines)
    {f : CacheBlock → CacheBlock}
    (hb : (t.m_lines idx).is_modified_line cfg.m_cache_type = true)
    (hf : (f (t.m_lines idx)).is_modified_line cfg.m_cache_type = false) :
    DirtyCounted cfg (t.dec_dirty.updateLine idx f) := by
  have hcount := modifiedLines_updateLine t hidx f
  rw [hb, hf, Bool.toNat_true, Bool.toNat_false] at hcount
  unfold DirtyCounted at *
  change (if t.m_dirty = 0 then UNSIGNED_MAX else t.m_dirty - 1) =
    modifiedLines cfg (t.updateLine idx f)
  rw [if_neg (by omega)]
  omega

/-- The line is dirty now. -/
theorem gained (h : DirtyCounted cfg t) (hidx : idx < cfg.get_num_lines)
    {f : CacheBlock → CacheBlock}
    (hb : (t.m_lines idx).is_modified_line cfg.m_cache_type = false)
    (hf : (f (t.m_lines idx)).is_modified_line cfg.m_cache_type = true) :
    DirtyCounted cfg (t.inc_dirty.updateLine idx f) := by
  have hcount := modifiedLines_updateLine t hidx f
  have hle : modifiedLines cfg (t.updateLine idx f) ≤ cfg.get_num_lines := modifiedLines_le _
  have hfit := cfg.lines_fit
  rw [hb, hf, Bool.toNat_true, Bool.toNat_false] at hcount
  unfold DirtyCounted at *
  change (if t.m_dirty = UNSIGNED_MAX then 0 else t.m_dirty + 1) =
    modifiedLines cfg (t.updateLine idx f)
  unfold CacheConfig.get_num_lines at hle
  rw [if_neg (by omega)]
  omega

end DirtyCounted

/-! ## Dirty sectors of a line -/

namespace CacheBlock

variable {ct : CacheType} {b b' : CacheBlock}

theorem is_modified_line_iff :
    b.is_modified_line ct = true ↔ ∃ i < numSectors ct, b.get_status i = .MODIFIED := by
  simp [is_modified_line, hasStatus, List.any_eq_true]

theorem is_modified_line_congr (h : ∀ i, b'.get_status i = b.get_status i) :
    b'.is_modified_line ct = b.is_modified_line ct := by
  unfold is_modified_line hasStatus
  simp only [h]

theorem get_status_updateSector (b : CacheBlock) (i j : Nat) (f : Sector → Sector) :
    (b.updateSector i f).get_status j =
      if j = i then (f (b.sectors i)).m_status else b.get_status j := by
  unfold updateSector get_status
  dsimp only
  split <;> rfl

theorem get_status_set_status (b : CacheBlock) (s : CacheBlockState) (i j : Nat) :
    (b.set_status s i).get_status j = if j = i then s else b.get_status j :=
  b.get_status_updateSector i j _

theorem set_status_modified {i : Nat} (hi : i < numSectors ct) :
    (b.set_status .MODIFIED i).is_modified_line ct = true := by
  apply is_modified_line_iff.mpr
  exact ⟨i, hi, by rw [get_status_set_status, if_pos rfl]⟩

/-- A line that was just allocated is not dirty. -/
theorem allocate_not_modified (tag addr time : Nat) {i : Nat} (hi : i < numSectors ct) :
    (b.allocate ct tag addr time i).is_modified_line ct = false := by
  apply Bool.eq_false_iff.mpr
  intro h
  obtain ⟨j, hj, hstatus⟩ := is_modified_line_iff.mp h
  unfold allocate get_status updateSector at hstatus
  dsimp only at hstatus
  by_cases hji : j = i
  · rw [if_pos hji] at hstatus
    cases hstatus
  · cases ct with
    | NORMAL =>
      change i < 1 at hi
      change j < 1 at hj
      omega
    | SECTOR =>
      rw [if_neg hji] at hstatus
      cases hstatus

/-- To allocate a sector makes no line dirty. -/
theorem allocate_sector_modified (time i : Nat)
    (h : (b.allocate_sector time i).is_modified_line ct = true) : b.is_modified_line ct = true := by
  obtain ⟨j, hj, hstatus⟩ := is_modified_line_iff.mp h
  apply is_modified_line_iff.mpr
  refine ⟨j, hj, ?_⟩
  unfold allocate_sector get_status updateSector at hstatus
  dsimp only at hstatus
  split at hstatus
  · cases hstatus
  · exact hstatus

theorem get_status_fill (b : CacheBlock) (ct : CacheType) (i j : Nat) (byte_mask : BitVec 128) :
    (b.fill ct i byte_mask).get_status j =
      if j = i then if (b.sectors i).m_set_modified_on_fill then .MODIFIED else .VALID
      else b.get_status j := by
  have hstatus := b.get_status_updateSector i j fun x => { x with
    m_status := if x.m_set_modified_on_fill then .MODIFIED else .VALID
    m_readable := x.m_readable || x.m_set_readable_on_fill
    m_set_readable_on_fill := x.m_set_readable_on_fill && decide (ct = .NORMAL) }
  unfold fill
  dsimp only
  split
  · exact hstatus
  · exact hstatus

end CacheBlock

/-- The sector is the only dirty one of its line. -/
def onlyDirty (ct : CacheType) (b : CacheBlock) (i : Nat) : Bool :=
  decide (b.get_status i = .MODIFIED) &&
    (List.range (numSectors ct)).all fun j => decide (j = i ∨ b.get_status j ≠ .MODIFIED)

/-- Another status of a sector that is not the only dirty one leaves a dirty line dirty. -/
theorem modified_of_not_onlyDirty {ct : CacheType} {b b' : CacheBlock} {i : Nat}
    (hb : b.is_modified_line ct = true) (honly : onlyDirty ct b i = false)
    (hsame : ∀ j, j ≠ i → b'.get_status j = b.get_status j) : b'.is_modified_line ct = true := by
  obtain ⟨j, hj, hstatus⟩ := CacheBlock.is_modified_line_iff.mp hb
  apply CacheBlock.is_modified_line_iff.mpr
  by_cases hji : j = i
  · subst hji
    unfold onlyDirty at honly
    rw [decide_eq_true hstatus, Bool.true_and] at honly
    obtain ⟨k, hk, hother⟩ := List.all_eq_false.mp honly
    simp only [decide_eq_true_eq, not_or, not_not] at hother
    exact ⟨k, List.mem_range.mp hk, (hsame k hother.1).trans hother.2⟩
  · exact ⟨j, hj, (hsame j hji).trans hstatus⟩

theorem get_sector_index_lt (ct : CacheType) (mask : BitVec 4) :
    get_sector_index ct mask < numSectors ct := by
  cases ct with
  | NORMAL => exact Nat.zero_lt_one
  | SECTOR =>
    change ((List.range 4).find? fun i => mask.getLsbD i).getD 0 < 4
    cases hfound : (List.range 4).find? fun i => mask.getLsbD i with
    | none => decide
    | some i => exact List.mem_range.mp (List.mem_of_find?_eq_some hfound)

/-! ## The line of a probe -/

theorem mem_ways {addr idx : Nat} (h : idx ∈ cfg.ways addr) : idx < cfg.get_num_lines := by
  obtain ⟨way, hway, rfl⟩ := List.mem_map.mp h
  rw [List.mem_range] at hway
  have hset := cfg.set_index_lt addr
  unfold CacheConfig.get_num_lines
  calc cfg.set_index addr * cfg.m_assoc + way
      < cfg.set_index addr * cfg.m_assoc + cfg.m_assoc := by omega
    _ = (cfg.set_index addr + 1) * cfg.m_assoc := (Nat.succ_mul _ _).symm
    _ ≤ cfg.m_nset * cfg.m_assoc := Nat.mul_le_mul_right _ hset

/-- The line that an answer names. -/
def Probe.line : Probe → Option Nat
  | .HIT idx | .HIT_RESERVED idx | .MISS idx | .SECTOR_MISS idx => some idx
  | .RESERVATION_FAIL | .aborts => none

theorem lineHit_line {b : CacheBlock} {mask : BitVec 4} {w : Bool} {index : Nat} {p : Probe}
    (h : lineHit cfg b mask w index = some p) {idx : Nat} (hp : p.line = some idx) :
    idx = index := by
  unfold lineHit at h
  dsimp only at h
  split at h
  · split at h
    · cases h
      simpa [Probe.line] using hp.symm
    · cases h
      simpa [Probe.line] using hp.symm
    · split at h
      · cases h
        simpa [Probe.line] using hp.symm
      · cases h
        simpa [Probe.line] using hp.symm
    · split at h
      · cases h
        simpa [Probe.line] using hp.symm
      · cases h
  · cases h
    cases hp

theorem probeWays_line {t : TagArray} {tag : Nat} {mask : BitVec 4} {w : Bool} {addr : Nat}
    (ways seen : List Nat) {v : Candidates} (hsplit : seen ++ ways = cfg.ways addr)
    (hv : Candidates.Sound cfg t seen v) {idx : Nat}
    (h : (probeWays cfg t tag mask w ways v).line = some idx) : idx ∈ cfg.ways addr := by
  induction ways generalizing seen v with
  | nil =>
    rw [List.append_nil] at hsplit
    rw [← hsplit]
    unfold probeWays Candidates.answer at h
    split at h
    · split at h <;> cases h
    · split at h
      · rename_i _ i hinvalid
        obtain rfl : i = idx := by simpa [Probe.line] using h
        exact (hv.invalid_line i hinvalid).1
      · rename_i i _ hline
        obtain rfl : i = idx := by simpa [Probe.line] using h
        exact (hv.valid_line i hline).1
      · cases h
  | cons index rest ih =>
    unfold probeWays at h
    split at h
    · rename_i p hhit
      unfold wayHit at hhit
      split at hhit
      · rw [lineHit_line hhit h, ← hsplit]
        exact List.mem_append_right _ List.mem_cons_self
      · cases hhit
    · apply ih (seen ++ [index]) _ (hv.consider index) h
      rw [List.append_assoc, List.singleton_append]
      exact hsplit

/-- The line that `probe` names is a line of the cache. -/
theorem probe_line {t : TagArray} {addr : Nat} {mask : BitVec 4} {w : Bool} {idx : Nat}
    (h : (probe cfg t addr mask w).line = some idx) : idx < cfg.get_num_lines :=
  mem_ways (probeWays_line (cfg.ways addr) [] rfl Candidates.sound_nil h)

theorem Probe.index_lt {p : Probe} {n cache_index : Nat} (hidx : cache_index < n)
    (hp : ∀ idx, p.line = some idx → idx < n) : p.index cache_index < n := by
  cases p with
  | HIT idx => exact hp idx rfl
  | HIT_RESERVED idx => exact hp idx rfl
  | MISS idx => exact hp idx rfl
  | SECTOR_MISS idx => exact hp idx rfl
  | RESERVATION_FAIL => exact hidx
  | aborts => exact hidx

/-! ## The tag array -/

namespace DirtyCounted

variable {t : TagArray} {idx : Nat}

theorem allocateLine (h : DirtyCounted cfg t) (hidx : idx < cfg.get_num_lines)
    (addr time : Nat) (mask : BitVec 4) : DirtyCounted cfg (allocateLine cfg t addr time mask idx) := by
  have h' : DirtyCounted cfg (t.require (maskFits cfg.m_cache_type mask)) := h.congr rfl rfl
  have hafter := CacheBlock.allocate_not_modified (b := t.m_lines idx) (cfg.tag addr)
    (cfg.block_addr addr) time (get_sector_index_lt cfg.m_cache_type mask)
  unfold gpu_cache.allocateLine
  dsimp only
  split
  · rename_i hb
    exact h'.lost hidx hb hafter
  · rename_i hb
    exact h'.same hidx (hafter.trans (Bool.eq_false_iff.mpr hb).symm)

theorem allocateSector (h : DirtyCounted cfg t) (hidx : idx < cfg.get_num_lines) (time : Nat)
    (mask : BitVec 4) : DirtyCounted cfg (allocateSector cfg t time mask idx) := by
  have h' : DirtyCounted cfg (t.require (decide (cfg.m_cache_type = .SECTOR) &&
      (t.m_lines idx).is_valid_line cfg.m_cache_type)) := h.congr rfl rfl
  have hafter : ((t.m_lines idx).allocate_sector time
      (get_sector_index cfg.m_cache_type mask)).is_modified_line cfg.m_cache_type = true →
        (t.m_lines idx).is_modified_line cfg.m_cache_type = true :=
    CacheBlock.allocate_sector_modified time _
  unfold gpu_cache.allocateSector
  dsimp only
  split
  · rename_i hlost
    simp only [Bool.and_eq_true, Bool.not_eq_true'] at hlost
    exact h'.lost hidx hlost.1 hlost.2
  · rename_i hkept
    apply h'.same hidx
    change _ = (t.m_lines idx).is_modified_line cfg.m_cache_type
    cases hb : (t.m_lines idx).is_modified_line cfg.m_cache_type with
    | true => simpa [hb] using hkept
    | false =>
      apply Bool.eq_false_iff.mpr
      intro hmod
      rw [hafter hmod] at hb
      cases hb

theorem access (h : DirtyCounted cfg t) (addr time : Nat) (mf : MemFetch) :
    DirtyCounted cfg (access cfg t addr time mf).tags := by
  have h' : DirtyCounted cfg { t with is_used := true } := h.congr rfl rfl
  have hline : ∀ idx,
      (probe cfg { t with is_used := true } addr mf.sector_mask mf.is_write).line = some idx →
        idx < cfg.get_num_lines := fun idx => probe_line
  have htouch : ∀ idx, idx < cfg.get_num_lines →
      DirtyCounted cfg (({ t with is_used := true } : TagArray).updateLine idx fun b =>
        b.set_last_access_time time) :=
    fun idx hidx => h'.same hidx (CacheBlock.is_modified_line_congr fun _ => rfl)
  unfold gpu_cache.access
  dsimp only
  cases hp : probe cfg { t with is_used := true } addr mf.sector_mask mf.is_write with
  | HIT idx => exact htouch idx (hline idx (by rw [hp]; rfl))
  | HIT_RESERVED idx => exact htouch idx (hline idx (by rw [hp]; rfl))
  | MISS idx =>
    dsimp only
    split
    · exact h'.allocateLine (hline idx (by rw [hp]; rfl)) addr time mf.sector_mask
    · exact h'
  | SECTOR_MISS idx =>
    dsimp only
    split
    · exact h'.allocateSector (hline idx (by rw [hp]; rfl)) time mf.sector_mask
    · exact h'.congr rfl rfl
  | RESERVATION_FAIL => exact h'
  | aborts => exact h'.congr rfl rfl

theorem access_index {cache_index : Nat} (hidx : cache_index < cfg.get_num_lines)
    (addr time : Nat) (mf : MemFetch) :
    (gpu_cache.access cfg t addr time mf).status.index cache_index < cfg.get_num_lines := by
  have hstatus : (gpu_cache.access cfg t addr time mf).status =
      probe cfg { t with is_used := true } addr mf.sector_mask mf.is_write := by
    unfold gpu_cache.access
    dsimp only
    cases hp : probe cfg { t with is_used := true } addr mf.sector_mask mf.is_write with
    | MISS idx =>
      dsimp only
      split <;> rfl
    | SECTOR_MISS idx =>
      dsimp only
      split <;> rfl
    | _ => rfl
  rw [hstatus]
  exact Probe.index_lt hidx fun idx hline => probe_line hline

end DirtyCounted

/-- A fill takes the only dirty sector of a line back to VALID. -/
def cleansOnFill (cfg : CacheConfig) (b : CacheBlock) (mask : BitVec 4) : Bool :=
  onlyDirty cfg.m_cache_type b (get_sector_index cfg.m_cache_type mask) &&
    !(b.sectors (get_sector_index cfg.m_cache_type mask)).m_set_modified_on_fill

namespace DirtyCounted

variable {t : TagArray} {idx : Nat}

theorem fillLine (h : DirtyCounted cfg t) (hidx : idx < cfg.get_num_lines) {mask : BitVec 4}
    (hkeeps : cleansOnFill cfg (t.m_lines idx) mask = false) (byte_mask : BitVec 128) :
    DirtyCounted cfg (fillLine cfg t mask byte_mask idx) := by
  have h' : DirtyCounted cfg (t.require (maskFits cfg.m_cache_type mask)) := h.congr rfl rfl
  have hstatus := fun j => (t.m_lines idx).get_status_fill cfg.m_cache_type
    (get_sector_index cfg.m_cache_type mask) j byte_mask
  unfold gpu_cache.fillLine
  dsimp only
  split
  · rename_i hgained
    simp only [Bool.and_eq_true, Bool.not_eq_true'] at hgained
    exact h'.gained hidx hgained.2 hgained.1
  · rename_i hkept
    apply h'.same hidx
    change _ = (t.m_lines idx).is_modified_line cfg.m_cache_type
    cases hb : (t.m_lines idx).is_modified_line cfg.m_cache_type with
    | false => simpa [hb] using hkept
    | true =>
      unfold cleansOnFill at hkeeps
      rcases Bool.and_eq_false_iff.mp hkeeps with honly | hset
      · exact modified_of_not_onlyDirty hb honly fun j hj => by rw [hstatus, if_neg hj]
      · rw [Bool.not_eq_false'] at hset
        apply CacheBlock.is_modified_line_iff.mpr
        refine ⟨_, get_sector_index_lt cfg.m_cache_type mask, ?_⟩
        rw [hstatus, if_pos rfl, hset, if_pos rfl]

theorem markModified (h : DirtyCounted cfg t) (hidx : idx < cfg.get_num_lines) (mask : BitVec 4)
    (byte_mask : BitVec 128) :
    DirtyCounted cfg
      (markModified cfg t (get_sector_index cfg.m_cache_type mask) byte_mask idx) := by
  have hafter : (((t.m_lines idx).set_status .MODIFIED
      (get_sector_index cfg.m_cache_type mask)).set_byte_mask byte_mask).is_modified_line
        cfg.m_cache_type = true :=
    CacheBlock.set_status_modified (get_sector_index_lt cfg.m_cache_type mask)
  unfold gpu_cache.markModified
  split
  · rename_i hb
    rw [Bool.not_eq_true'] at hb
    exact h.gained hidx hb hafter
  · rename_i hb
    rw [Bool.not_eq_true, Bool.not_eq_false'] at hb
    exact h.same hidx (hafter.trans hb.symm)

theorem evictSector (h : DirtyCounted cfg t) (hidx : idx < cfg.get_num_lines) {i : Nat}
    (hkeeps : onlyDirty cfg.m_cache_type (t.m_lines idx) i = false) :
    DirtyCounted cfg (t.updateLine idx fun b => b.set_status .INVALID i) := by
  apply h.same hidx
  cases hb : (t.m_lines idx).is_modified_line cfg.m_cache_type with
  | true =>
    exact modified_of_not_onlyDirty hb hkeeps fun j hj => by
      rw [CacheBlock.get_status_set_status, if_neg hj]
  | false =>
    apply Bool.eq_false_iff.mpr
    intro hmod
    obtain ⟨j, hj, hstatus⟩ := CacheBlock.is_modified_line_iff.mp hmod
    rw [CacheBlock.get_status_set_status] at hstatus
    split at hstatus
    · cases hstatus
    · rw [CacheBlock.is_modified_line_iff.mpr ⟨j, hj, hstatus⟩] at hb
      cases hb

end DirtyCounted

/-! ## Flush and invalidation -/

theorem modifiedLines_eq_zero {t : TagArray}
    (h : ∀ i < cfg.get_num_lines, (t.m_lines i).is_modified_line cfg.m_cache_type = false) :
    modifiedLines cfg t = 0 := by
  apply List.countP_eq_zero.mpr
  intro i hi
  rw [h i (List.mem_range.mp hi)]
  decide

/-- Every sector has a bit of the mask. -/
theorem bit_of_sector {ct : CacheType} {i : Nat} (hi : i < numSectors ct) :
    ∃ j ∈ List.range SECTOR_CHUNCK_SIZE, i = sectorOfBit ct j := by
  cases ct with
  | NORMAL =>
    change i < 1 at hi
    exact ⟨0, by decide, by change i = 0; omega⟩
  | SECTOR => exact ⟨i, List.mem_range.mpr hi, rfl⟩

theorem get_status_clear (b : CacheBlock) (ct : CacheType) (l : List Nat) (i : Nat) :
    (l.foldl (fun b j => b.set_status .INVALID (sectorOfBit ct j)) b).get_status i =
      if ∃ j ∈ l, i = sectorOfBit ct j then .INVALID else b.get_status i := by
  induction l generalizing b with
  | nil => simp
  | cons j l ih =>
    rw [List.foldl_cons, ih, CacheBlock.get_status_set_status]
    by_cases hrest : ∃ k ∈ l, i = sectorOfBit ct k
    · obtain ⟨k, hk, hki⟩ := hrest
      rw [if_pos ⟨k, hk, hki⟩, if_pos ⟨k, List.mem_cons_of_mem _ hk, hki⟩]
    · rw [if_neg hrest]
      simp only [List.exists_mem_cons_iff, hrest, or_false]

theorem clearLine_not_modified (b : CacheBlock) :
    (clearLine cfg b).is_modified_line cfg.m_cache_type = false := by
  apply Bool.eq_false_iff.mpr
  intro h
  obtain ⟨i, hi, hstatus⟩ := CacheBlock.is_modified_line_iff.mp h
  unfold clearLine at hstatus
  rw [get_status_clear, if_pos (bit_of_sector hi)] at hstatus
  cases hstatus

namespace DirtyCounted

variable {t : TagArray}

theorem flush (h : DirtyCounted cfg t) : DirtyCounted cfg (flush cfg t) := by
  unfold gpu_cache.flush
  split
  · apply Eq.symm
    apply modifiedLines_eq_zero
    intro i hi
    dsimp only
    split
    · exact clearLine_not_modified _
    · rename_i hclean
      rw [not_and] at hclean
      exact Bool.eq_false_iff.mpr (hclean hi)
  · exact h

theorem invalidate (h : DirtyCounted cfg t) : DirtyCounted cfg (invalidate cfg t) := by
  unfold gpu_cache.invalidate
  split
  · apply Eq.symm
    apply modifiedLines_eq_zero
    intro i hi
    dsimp only
    rw [if_pos hi]
    exact clearLine_not_modified _
  · exact h

end DirtyCounted

/-! ## Invalidation by address -/

section Invalidation

variable {idx : Nat} (s : TagArray × Nat)

theorem invalidateSector_status (j i : Nat) :
    ((invalidateSector cfg idx s j).1.m_lines idx).get_status i =
      if i = sectorOfBit cfg.m_cache_type j then .INVALID
      else (s.1.m_lines idx).get_status i := by
  unfold invalidateSector
  dsimp only
  split
  · have hline : ∀ (t : TagArray) (f : CacheBlock → CacheBlock),
        (t.updateLine idx f).m_lines idx = f (t.m_lines idx) := by
      intro t f
      simp [TagArray.updateLine]
    rw [hline, CacheBlock.get_status_set_status]
    split
    · rfl
    · split <;> rfl
  · rename_i hinvalid
    rw [not_not] at hinvalid
    split
    · rename_i hi
      rw [hi]
      exact hinvalid
    · rfl

theorem invalidateSector_invalid {j : Nat}
    (h : (s.1.m_lines idx).get_status (sectorOfBit cfg.m_cache_type j) = .INVALID) :
    (invalidateSector cfg idx s j).1.m_lines = s.1.m_lines := by
  unfold invalidateSector
  dsimp only
  rw [if_neg (not_not.mpr h)]
  rfl

theorem invalidateSector_others (j : Nat) {k : Nat} (hk : k ≠ idx) :
    (invalidateSector cfg idx s j).1.m_lines k = s.1.m_lines k := by
  unfold invalidateSector
  dsimp only
  split
  · simp only [TagArray.updateLine, if_neg hk]
    split <;> rfl
  · rfl

/-- The counter falls once for each valid sector of a line that is still dirty. -/
theorem invalidateSector_m_dirty (j : Nat) :
    (invalidateSector cfg idx s j).1.m_dirty = s.1.m_dirty -
      (decide ((s.1.m_lines idx).get_status (sectorOfBit cfg.m_cache_type j) ≠ .INVALID) &&
        (s.1.m_lines idx).is_modified_line cfg.m_cache_type).toNat := by
  unfold invalidateSector
  dsimp only
  split
  · rename_i hvalid
    rw [decide_eq_true hvalid, Bool.true_and]
    cases hb : (s.1.m_lines idx).is_modified_line cfg.m_cache_type with
    | false => simp [TagArray.updateLine, TagArray.require]
    | true =>
      by_cases hd : 0 < s.1.m_dirty
      · have hd' : s.1.m_dirty ≠ 0 := by omega
        simp [TagArray.updateLine, TagArray.require, TagArray.dec_dirty, hd, hd']
      · simp [TagArray.updateLine, TagArray.require, hd]
        omega
  · rename_i hinvalid
    rw [decide_eq_false hinvalid, Bool.false_and]
    rfl

theorem invalidateSectors_status (l : List Nat) (i : Nat) :
    ((l.foldl (invalidateSector cfg idx) s).1.m_lines idx).get_status i =
      if ∃ j ∈ l, i = sectorOfBit cfg.m_cache_type j then .INVALID
      else (s.1.m_lines idx).get_status i := by
  induction l generalizing s with
  | nil => simp
  | cons j l ih =>
    rw [List.foldl_cons, ih, invalidateSector_status]
    by_cases hrest : ∃ k ∈ l, i = sectorOfBit cfg.m_cache_type k
    · obtain ⟨k, hk, hki⟩ := hrest
      rw [if_pos ⟨k, hk, hki⟩, if_pos ⟨k, List.mem_cons_of_mem _ hk, hki⟩]
    · rw [if_neg hrest]
      simp only [List.exists_mem_cons_iff, hrest, or_false]

theorem invalidateSectors_others (l : List Nat) {k : Nat} (hk : k ≠ idx) :
    (l.foldl (invalidateSector cfg idx) s).1.m_lines k = s.1.m_lines k := by
  induction l generalizing s with
  | nil => rfl
  | cons j l ih => rw [List.foldl_cons, ih, invalidateSector_others s j hk]

theorem invalidateSectors_le (l : List Nat) :
    (l.foldl (invalidateSector cfg idx) s).1.m_dirty ≤ s.1.m_dirty := by
  induction l generalizing s with
  | nil => exact le_rfl
  | cons j l ih =>
    have hrest := ih (invalidateSector cfg idx s j)
    rw [invalidateSector_m_dirty] at hrest
    rw [List.foldl_cons]
    omega

/-- A sector that is no longer dirty makes no line dirty. -/
theorem invalidateSector_modified {j : Nat}
    (h : ((invalidateSector cfg idx s j).1.m_lines idx).is_modified_line cfg.m_cache_type = true) :
    (s.1.m_lines idx).is_modified_line cfg.m_cache_type = true := by
  obtain ⟨i, hi, hstatus⟩ := CacheBlock.is_modified_line_iff.mp h
  rw [invalidateSector_status] at hstatus
  split at hstatus
  · cases hstatus
  · exact CacheBlock.is_modified_line_iff.mpr ⟨i, hi, hstatus⟩

theorem invalidateSectors_clean (l : List Nat)
    (hb : (s.1.m_lines idx).is_modified_line cfg.m_cache_type = false) :
    (l.foldl (invalidateSector cfg idx) s).1.m_dirty = s.1.m_dirty := by
  induction l generalizing s with
  | nil => rfl
  | cons j l ih =>
    have hb' : ((invalidateSector cfg idx s j).1.m_lines idx).is_modified_line
        cfg.m_cache_type = false := by
      apply Bool.eq_false_iff.mpr
      intro hmod
      rw [invalidateSector_modified s hmod] at hb
      cases hb
    rw [List.foldl_cons, ih _ hb', invalidateSector_m_dirty, hb, Bool.and_false]
    rfl

/-- A dirty line takes the counter down at least once. -/
theorem invalidateSectors_dirty (l : List Nat)
    (hb : ∃ j ∈ l, (s.1.m_lines idx).get_status (sectorOfBit cfg.m_cache_type j) = .MODIFIED)
    (hl : ∀ j ∈ l, sectorOfBit cfg.m_cache_type j < numSectors cfg.m_cache_type) :
    (l.foldl (invalidateSector cfg idx) s).1.m_dirty ≤ s.1.m_dirty - 1 := by
  induction l generalizing s with
  | nil =>
    obtain ⟨j, hj, _⟩ := hb
    cases hj
  | cons j l ih =>
    obtain ⟨k, hk, hstatus⟩ := hb
    have hmod : (s.1.m_lines idx).is_modified_line cfg.m_cache_type = true :=
      CacheBlock.is_modified_line_iff.mpr ⟨_, hl k hk, hstatus⟩
    rw [List.foldl_cons]
    by_cases hvalid : (s.1.m_lines idx).get_status (sectorOfBit cfg.m_cache_type j) = .INVALID
    · have hnext := ih (invalidateSector cfg idx s j) ?_ fun i hi => hl i (List.mem_cons_of_mem _ hi)
      · rw [invalidateSector_m_dirty, decide_eq_false (not_not.mpr hvalid), Bool.false_and] at hnext
        exact hnext
      · rcases List.mem_cons.mp hk with rfl | hk
        · rw [hstatus] at hvalid
          cases hvalid
        · refine ⟨k, hk, ?_⟩
          rw [invalidateSector_status]
          split
          · rename_i hkj
            rw [hkj, hvalid] at hstatus
            cases hstatus
          · exact hstatus
    · have hrest : (l.foldl (invalidateSector cfg idx) (invalidateSector cfg idx s j)).1.m_dirty ≤ _ :=
        invalidateSectors_le _ l
      rw [invalidateSector_m_dirty, decide_eq_true hvalid, hmod] at hrest
      exact hrest

/-- It does so once if the first valid sector is the only dirty one. -/
theorem invalidateSectors_once (l : List Nat)
    (hb : (s.1.m_lines idx).is_modified_line cfg.m_cache_type = true)
    (hfirst : (l.find? fun j => decide ((s.1.m_lines idx).get_status
        (sectorOfBit cfg.m_cache_type j) ≠ .INVALID)).any (fun j =>
          onlyDirty cfg.m_cache_type (s.1.m_lines idx) (sectorOfBit cfg.m_cache_type j)) = true) :
    (l.foldl (invalidateSector cfg idx) s).1.m_dirty = s.1.m_dirty - 1 := by
  induction l generalizing s with
  | nil => cases hfirst
  | cons j l ih =>
    rw [List.foldl_cons]
    by_cases hvalid : (s.1.m_lines idx).get_status (sectorOfBit cfg.m_cache_type j) = .INVALID
    · rw [List.find?_cons_of_neg (by simpa using hvalid)] at hfirst
      have hline := invalidateSector_invalid s hvalid
      have hdirty : (invalidateSector cfg idx s j).1.m_dirty = _ := invalidateSector_m_dirty s j
      rw [decide_eq_false (not_not.mpr hvalid), Bool.false_and] at hdirty
      rw [ih _ (by rw [hline]; exact hb) (by rw [hline]; exact hfirst), hdirty]
      rfl
    · rw [List.find?_cons_of_pos (by simpa using hvalid), Option.any_some] at hfirst
      have hclean : ((invalidateSector cfg idx s j).1.m_lines idx).is_modified_line
          cfg.m_cache_type = false := by
        apply Bool.eq_false_iff.mpr
        intro hmod
        obtain ⟨i, hi, hstatus⟩ := CacheBlock.is_modified_line_iff.mp hmod
        rw [invalidateSector_status] at hstatus
        split at hstatus
        · cases hstatus
        · rename_i hij
          unfold onlyDirty at hfirst
          rw [Bool.and_eq_true, List.all_eq_true] at hfirst
          have hother := hfirst.2 i (List.mem_range.mpr hi)
          simp [hij, hstatus] at hother
      rw [invalidateSectors_clean _ l hclean, invalidateSector_m_dirty, decide_eq_true hvalid, hb]
      rfl

end Invalidation

/-- The first valid sector of a line is its only dirty one. -/
def cleansOnce (cfg : CacheConfig) (b : CacheBlock) : Bool :=
  ((List.range SECTOR_CHUNCK_SIZE).find? fun j =>
    decide (b.get_status (sectorOfBit cfg.m_cache_type j) ≠ .INVALID)).any fun j =>
      onlyDirty cfg.m_cache_type b (sectorOfBit cfg.m_cache_type j)

/-- A dirty line of the tag that is invalidated. -/
def dirtyWay (cfg : CacheConfig) (lineaddr : Nat) (t : TagArray) (idx : Nat) : Bool :=
  decide ((t.m_lines idx).m_tag = cfg.tag lineaddr) &&
    (t.m_lines idx).is_modified_line cfg.m_cache_type

/-- What the turn of the loop at a way does. -/
structure WayInvalidated (cfg : CacheConfig) (lineaddr idx : Nat) (t t' : TagArray) : Prop where
  others : ∀ j, j ≠ idx → t'.m_lines j = t.m_lines j
  line : (t'.m_lines idx).is_modified_line cfg.m_cache_type =
    ((t.m_lines idx).is_modified_line cfg.m_cache_type && !dirtyWay cfg lineaddr t idx)
  at_least : t'.m_dirty ≤ t.m_dirty - (dirtyWay cfg lineaddr t idx).toNat
  once : (dirtyWay cfg lineaddr t idx = true → cleansOnce cfg (t.m_lines idx) = true) →
    t'.m_dirty = t.m_dirty - (dirtyWay cfg lineaddr t idx).toNat

theorem invalidateWay_invalidated (lineaddr : Nat) (s : TagArray × Nat) (idx : Nat) :
    WayInvalidated cfg lineaddr idx s.1 (invalidateWay cfg lineaddr s idx).1 := by
  unfold invalidateWay
  by_cases htag : (s.1.m_lines idx).m_tag = cfg.tag lineaddr
  · rw [if_pos htag]
    have hway : dirtyWay cfg lineaddr s.1 idx =
        (s.1.m_lines idx).is_modified_line cfg.m_cache_type := by
      unfold dirtyWay
      rw [decide_eq_true htag, Bool.true_and]
    have hclean : (((List.range SECTOR_CHUNCK_SIZE).foldl (invalidateSector cfg idx) s).1.m_lines
        idx).is_modified_line cfg.m_cache_type = false := by
      apply Bool.eq_false_iff.mpr
      intro h
      obtain ⟨i, hi, hstatus⟩ := CacheBlock.is_modified_line_iff.mp h
      rw [invalidateSectors_status, if_pos (bit_of_sector hi)] at hstatus
      cases hstatus
    refine ⟨fun j hj => invalidateSectors_others s _ hj, ?_, ?_, ?_⟩
    · rw [hclean, hway, Bool.and_not_self]
    · rw [hway]
      cases hb : (s.1.m_lines idx).is_modified_line cfg.m_cache_type with
      | false => exact invalidateSectors_le s _
      | true =>
        obtain ⟨i, hi, hstatus⟩ := CacheBlock.is_modified_line_iff.mp hb
        obtain ⟨j, hj, rfl⟩ := bit_of_sector hi
        apply invalidateSectors_dirty s _ ⟨j, hj, hstatus⟩
        intro k hk
        rw [List.mem_range] at hk
        cases cfg.m_cache_type with
        | NORMAL => exact Nat.zero_lt_one
        | SECTOR => exact hk
    · intro honce
      rw [hway] at honce ⊢
      cases hb : (s.1.m_lines idx).is_modified_line cfg.m_cache_type with
      | false => exact invalidateSectors_clean s _ hb
      | true => exact invalidateSectors_once s _ hb (honce hb)
  · rw [if_neg htag]
    have hway : dirtyWay cfg lineaddr s.1 idx = false := by
      unfold dirtyWay
      rw [decide_eq_false htag, Bool.false_and]
    rw [← Bool.not_eq_true] at hway
    refine ⟨fun _ _ => rfl, ?_, ?_, ?_⟩ <;> simp [hway]

theorem invalidateWays (lineaddr : Nat) (ways : List Nat) (hnodup : ways.Nodup)
    (hin : ∀ idx ∈ ways, idx < cfg.get_num_lines) (s : TagArray × Nat) :
    modifiedLines cfg (ways.foldl (invalidateWay cfg lineaddr) s).1 +
        ways.countP (dirtyWay cfg lineaddr s.1) = modifiedLines cfg s.1 ∧
      (ways.foldl (invalidateWay cfg lineaddr) s).1.m_dirty ≤
        s.1.m_dirty - ways.countP (dirtyWay cfg lineaddr s.1) ∧
      ((∀ idx ∈ ways, dirtyWay cfg lineaddr s.1 idx = true →
          cleansOnce cfg (s.1.m_lines idx) = true) →
        (ways.foldl (invalidateWay cfg lineaddr) s).1.m_dirty =
          s.1.m_dirty - ways.countP (dirtyWay cfg lineaddr s.1)) := by
  induction ways generalizing s with
  | nil => simp
  | cons idx ways ih =>
    obtain ⟨hidx, hnodup⟩ := List.nodup_cons.mp hnodup
    have hone : WayInvalidated cfg lineaddr idx s.1 _ := invalidateWay_invalidated lineaddr s idx
    obtain ⟨hcount, hle, heq⟩ := ih hnodup (fun i hi => hin i (List.mem_cons_of_mem _ hi))
      (invalidateWay cfg lineaddr s idx)
    have hline : ∀ i ∈ ways,
        (invalidateWay cfg lineaddr s idx).1.m_lines i = s.1.m_lines i := by
      intro i hi
      apply hone.others
      rintro rfl
      exact hidx hi
    have hrest : ways.countP (dirtyWay cfg lineaddr (invalidateWay cfg lineaddr s idx).1) =
        ways.countP (dirtyWay cfg lineaddr s.1) := by
      apply List.countP_congr
      intro i hi
      unfold dirtyWay
      rw [hline i hi]
    have hchange := modifiedLines_change (hin idx List.mem_cons_self) hone.others
    rw [hone.line] at hchange
    rw [hrest] at hcount hle heq
    have hat := hone.at_least
    have hcons : (idx :: ways).countP (dirtyWay cfg lineaddr s.1) =
        ways.countP (dirtyWay cfg lineaddr s.1) + (dirtyWay cfg lineaddr s.1 idx).toNat := by
      rw [List.countP_cons]
      cases dirtyWay cfg lineaddr s.1 idx <;> rfl
    have hdirty : dirtyWay cfg lineaddr s.1 idx = true →
        (s.1.m_lines idx).is_modified_line cfg.m_cache_type = true := by
      unfold dirtyWay
      rw [Bool.and_eq_true]
      exact And.right
    rw [List.foldl_cons, hcons]
    refine ⟨?_, ?_, ?_⟩
    · cases hway : dirtyWay cfg lineaddr s.1 idx with
      | false =>
        rw [hway, Bool.not_false, Bool.and_true] at hchange
        rw [Bool.toNat_false]
        omega
      | true =>
        rw [hway, hdirty hway] at hchange
        simp only [Bool.not_true, Bool.and_false, Bool.toNat_true, Bool.toNat_false] at hchange
        rw [Bool.toNat_true]
        omega
    · omega
    · intro honce
      rw [heq fun i hi hway => ?_, hone.once (honce idx List.mem_cons_self)]
      · omega
      · rw [hline i hi]
        apply honce i (List.mem_cons_of_mem _ hi)
        unfold dirtyWay at hway ⊢
        rw [hline i hi] at hway
        exact hway

theorem ways_nodup (addr : Nat) : (cfg.ways addr).Nodup := by
  apply List.Nodup.map _ List.nodup_range
  intro a b hab
  exact Nat.add_left_cancel hab

/-- The loops over the ways and sectors take the counter down by one for each dirty line,
or down to zero with the last of them. -/
def countsInvalidated (cfg : CacheConfig) (lineaddr : Nat) (t : TagArray) : Bool :=
  ((cfg.ways lineaddr).all fun idx =>
      !dirtyWay cfg lineaddr t idx || cleansOnce cfg (t.m_lines idx)) ||
    decide (t.m_dirty = (cfg.ways lineaddr).countP (dirtyWay cfg lineaddr t))

theorem DirtyCounted.invalidateAddr {t : TagArray} (h : DirtyCounted cfg t) {lineaddr : Nat}
    (hkeeps : countsInvalidated cfg lineaddr t = true) :
    DirtyCounted cfg (invalidateAddr cfg t lineaddr).1 := by
  obtain ⟨hcount, hle, heq⟩ := invalidateWays lineaddr (cfg.ways lineaddr) (ways_nodup lineaddr)
    (fun _ hidx => mem_ways hidx) (t, 0)
  unfold DirtyCounted gpu_cache.invalidateAddr at *
  unfold countsInvalidated at hkeeps
  rcases (Bool.or_eq_true _ _).mp hkeeps with hall | hlast
  · rw [heq ?_]
    · dsimp only at hcount ⊢
      omega
    · intro idx hidx hway
      have hidx' := List.all_eq_true.mp hall idx hidx
      rw [hway, Bool.not_true, Bool.false_or] at hidx'
      exact hidx'
  · have hlast' := of_decide_eq_true hlast
    dsimp only at hcount hle
    omega

/-! ## Fills of an address -/

/-- A fill that finds its line does not clean it. -/
def countsFilled (cfg : CacheConfig) (t : TagArray) (addr : Nat) (mask : BitVec 4)
    (is_write : Bool) : Bool :=
  match probe cfg t addr mask is_write with
  | .HIT idx | .HIT_RESERVED idx => !cleansOnFill cfg (t.m_lines idx) mask
  | _ => true

theorem DirtyCounted.fillAddr {t : TagArray} (h : DirtyCounted cfg t) {addr : Nat}
    {mask : BitVec 4} {is_write : Bool} (hkeeps : countsFilled cfg t addr mask is_write = true)
    (time : Nat) (byte_mask : BitVec 128) :
    DirtyCounted cfg (fillAddr cfg t addr time mask byte_mask is_write) := by
  have hline : ∀ idx, (probe cfg t addr mask is_write).line = some idx →
      idx < cfg.get_num_lines := fun idx => probe_line
  -- a sector that was just allocated is reserved
  have hreserved : ∀ b : CacheBlock,
      b.get_status (get_sector_index cfg.m_cache_type mask) = .RESERVED →
        cleansOnFill cfg b mask = false := by
    intro b hb
    simp [cleansOnFill, onlyDirty, hb]
  unfold countsFilled at hkeeps
  unfold gpu_cache.fillAddr
  cases hp : probe cfg t addr mask is_write with
  | HIT idx =>
    rw [hp] at hkeeps
    exact h.fillLine (hline idx (by rw [hp]; rfl)) (by simpa using hkeeps) byte_mask
  | HIT_RESERVED idx =>
    rw [hp] at hkeeps
    exact h.fillLine (hline idx (by rw [hp]; rfl)) (by simpa using hkeeps) byte_mask
  | MISS idx =>
    have hidx := hline idx (by rw [hp]; rfl)
    apply (h.allocateLine hidx addr time mask).fillLine hidx (hreserved _ ?_) byte_mask
    simp [gpu_cache.allocateLine, TagArray.updateLine, CacheBlock.allocate, CacheBlock.get_status,
      CacheBlock.updateSector]
  | SECTOR_MISS idx =>
    have hidx := hline idx (by rw [hp]; rfl)
    apply (h.allocateSector hidx time mask).fillLine hidx (hreserved _ ?_) byte_mask
    simp [gpu_cache.allocateSector, TagArray.updateLine, CacheBlock.allocate_sector,
      CacheBlock.get_status, CacheBlock.updateSector, TagArray.require]
  | RESERVATION_FAIL => exact h.congr rfl rfl
  | aborts => exact h.congr rfl rfl

/-! ## The cache -/

/-- The counter is right, and every fetch below knows a line of the cache. -/
structure DirtyKept (cfg : CacheConfig) (c : Cache) : Prop where
  counted : DirtyCounted cfg c.tags
  in_cache : ∀ e ∈ c.m_extra_mf_fields, e.m_cache_index < cfg.get_num_lines

namespace CacheBlock

variable {ct : CacheType} {b : CacheBlock}

/-- What a sector knows beside its status does not make it dirty. -/
theorem get_status_updateSector_of (i j : Nat) {f : Sector → Sector}
    (hf : ∀ x, (f x).m_status = x.m_status) : (b.updateSector i f).get_status j = b.get_status j := by
  rw [get_status_updateSector]
  split
  · rename_i hji
    rw [hji, hf]
    rfl
  · rfl

@[simp] theorem get_status_set_modified_on_fill (v : Bool) (i j : Nat) :
    (b.set_modified_on_fill v i).get_status j = b.get_status j :=
  get_status_updateSector_of i j fun _ => rfl

@[simp] theorem get_status_set_readable_on_fill (v : Bool) (i j : Nat) :
    (b.set_readable_on_fill v i).get_status j = b.get_status j :=
  get_status_updateSector_of i j fun _ => rfl

@[simp] theorem get_status_set_m_readable (v : Bool) (i j : Nat) :
    (b.set_m_readable v i).get_status j = b.get_status j :=
  get_status_updateSector_of i j fun _ => rfl

@[simp] theorem get_status_set_byte_mask_on_fill (v : Bool) (j : Nat) :
    (b.set_byte_mask_on_fill v).get_status j = b.get_status j := rfl

@[simp] theorem get_status_update_m_readable (mask : BitVec 4) (j : Nat) :
    (update_m_readable ct mask b).get_status j = b.get_status j := by
  unfold update_m_readable
  split
  · exact get_status_set_m_readable _ _ _
  · rfl

@[simp] theorem get_status_lazyBlock (mf : MemFetch) (reserved : Bool) (j : Nat) :
    (lazyBlock cfg mf reserved b).get_status j = b.get_status j := by
  unfold lazyBlock
  dsimp only
  rw [get_status_update_m_readable]
  split <;> split <;> simp

end CacheBlock

namespace DirtyKept

variable {c : Cache}

theorem congr (h : DirtyKept cfg c) {c' : Cache} (ht : c'.tags = c.tags)
    (he : c'.m_extra_mf_fields = c.m_extra_mf_fields) : DirtyKept cfg c' := by
  refine ⟨?_, ?_⟩
  · rw [ht]
    exact h.counted
  · rw [he]
    exact h.in_cache

theorem tags (h : DirtyKept cfg c) {t : TagArray} (ht : DirtyCounted cfg t) :
    DirtyKept cfg { c with tags := t } := ⟨ht, h.in_cache⟩

theorem updateLine (h : DirtyKept cfg c) {idx : Nat} (hidx : idx < cfg.get_num_lines)
    {f : CacheBlock → CacheBlock} (hf : ∀ b j, (f b).get_status j = b.get_status j) :
    DirtyKept cfg (updateLine c idx f) :=
  h.tags (h.counted.same hidx (CacheBlock.is_modified_line_congr (hf _)))

theorem writeSector (h : DirtyKept cfg c) {idx : Nat} (hidx : idx < cfg.get_num_lines)
    (mf : MemFetch) : DirtyKept cfg (writeSector cfg c mf idx) :=
  h.tags (h.counted.markModified hidx mf.sector_mask mf.byte_mask)

theorem accessClean (h : DirtyKept cfg c) (addr time : Nat) (mf : MemFetch) :
    DirtyKept cfg (accessClean cfg c addr time mf).1 :=
  h.tags ((h.counted.access (cfg.block_addr addr) time mf).congr rfl rfl)

theorem send_read_request (h : DirtyKept cfg c) (addr : Nat) {idx : Nat}
    (hidx : idx < cfg.get_num_lines) (mf : MemFetch) (time : Nat) (read_only wa : Bool) :
    DirtyKept cfg (send_read_request cfg c addr idx mf time read_only wa).cache := by
  have hline := DirtyCounted.access_index (t := c.tags) hidx (cfg.block_addr addr) time mf
  have htags : DirtyCounted cfg
      (if read_only then
          (access cfg c.tags (cfg.block_addr addr) time mf).tags.require
            (access cfg c.tags (cfg.block_addr addr) time mf).evicted.isNone
        else (access cfg c.tags (cfg.block_addr addr) time mf).tags) := by
    have haccess := h.counted.access (cfg.block_addr addr) time mf
    split
    · exact haccess.congr rfl rfl
    · exact haccess
  unfold gpu_cache.send_read_request
  dsimp only
  split
  · exact ⟨htags, h.in_cache⟩
  · split
    · refine ⟨htags, ?_⟩
      intro e he
      rcases List.mem_append.mp he with he | he
      · exact h.in_cache e he
      · rw [List.mem_singleton.mp he]
        exact hline
    · exact h.congr rfl rfl

theorem finishMiss (h : DirtyKept cfg c) (do_miss : Bool) (evicted : Option EvictedBlockInfo) :
    DirtyKept cfg (finishMiss cfg c do_miss evicted).1 := by
  unfold gpu_cache.finishMiss writeBack
  split
  · split
    · exact h
    · dsimp only
      split
      · exact h
      · exact h.congr rfl rfl
  · exact h

theorem wr_hit_wb (h : DirtyKept cfg c) (addr : Nat) (mf : MemFetch) (time : Nat) {idx : Nat}
    (hidx : idx < cfg.get_num_lines) : DirtyKept cfg (wr_hit_wb cfg c addr mf time idx).1 := by
  have hline := DirtyCounted.access_index (t := c.tags) hidx (cfg.block_addr addr) time mf
  exact ((h.accessClean addr time mf).writeSector hline mf).updateLine hline
    fun _ _ => CacheBlock.get_status_update_m_readable _ _

theorem wr_hit_we (h : DirtyKept cfg c) (mf : MemFetch) {idx : Nat}
    (hidx : idx < cfg.get_num_lines)
    (hkeeps : miss_queue_full cfg c 0 = true ∨ onlyDirty cfg.m_cache_type (c.tags.m_lines idx)
      (get_sector_index cfg.m_cache_type mf.sector_mask) = false) :
    DirtyKept cfg (wr_hit_we cfg c mf idx).1 := by
  unfold gpu_cache.wr_hit_we
  split
  · exact h
  · rename_i hroom
    have hother := hkeeps.resolve_left hroom
    exact ⟨h.counted.evictSector hidx hother, h.in_cache⟩

end DirtyKept

/-- A write hit throws its sector away. -/
def evictsOnHit (cfg : CacheConfig) (mf : MemFetch) : Bool :=
  match cfg.m_write_policy with
  | .WRITE_EVICT => true
  | .LOCAL_WB_GLOBAL_WT => decide (mf.type = .GLOBAL_ACC_W)
  | _ => false

/-- A write hit does not throw away the only dirty sector of its line. -/
def countsWritten (cfg : CacheConfig) (c : Cache) (mf : MemFetch) (idx : Nat) : Bool :=
  !evictsOnHit cfg mf || miss_queue_full cfg c 0 ||
    !onlyDirty cfg.m_cache_type (c.tags.m_lines idx)
      (get_sector_index cfg.m_cache_type mf.sector_mask)

namespace DirtyKept

variable {c : Cache}

theorem m_wr_hit (h : DirtyKept cfg c) (addr : Nat) (mf : MemFetch) (time : Nat) {idx : Nat}
    (hidx : idx < cfg.get_num_lines) (hkeeps : countsWritten cfg c mf idx = true) :
    DirtyKept cfg (m_wr_hit cfg c addr mf time idx).1 := by
  have hwe : evictsOnHit cfg mf = true → DirtyKept cfg (gpu_cache.wr_hit_we cfg c mf idx).1 := by
    intro hevicts
    apply h.wr_hit_we mf hidx
    unfold countsWritten at hkeeps
    simpa [hevicts] using hkeeps
  unfold gpu_cache.m_wr_hit
  split
  · exact h.congr rfl rfl
  · exact h.wr_hit_wb addr mf time hidx
  · unfold wr_hit_wt
    split
    · exact h
    · exact (h.wr_hit_wb addr mf time hidx).congr rfl rfl
  · rename_i hpolicy
    exact hwe (by simp [evictsOnHit, hpolicy])
  · rename_i hpolicy
    unfold wr_hit_global_we_local_wb
    split
    · rename_i hglobal
      exact hwe (by simp [evictsOnHit, hpolicy, hglobal])
    · exact h.wr_hit_wb addr mf time hidx

theorem wr_miss_no_wa (h : DirtyKept cfg c) (mf : MemFetch) :
    DirtyKept cfg (wr_miss_no_wa cfg c mf).1 := by
  unfold gpu_cache.wr_miss_no_wa
  split
  · exact h
  · exact h.congr rfl rfl

theorem allocateWritten (h : DirtyKept cfg c) (addr : Nat) (mf : MemFetch) (time : Nat) {idx : Nat}
    (hidx : idx < cfg.get_num_lines) : DirtyKept cfg (allocateWritten cfg c addr mf time idx).1 := by
  have hline := DirtyCounted.access_index (t := c.tags) hidx (cfg.block_addr addr) time mf
  refine DirtyKept.writeSector ?_ hline mf
  exact (h.tags (h.counted.access (cfg.block_addr addr) time mf)).congr rfl rfl

theorem m_wr_miss (h : DirtyKept cfg c) (addr : Nat) (mf : MemFetch) (time : Nat) {idx : Nat}
    (hidx : idx < cfg.get_num_lines) : DirtyKept cfg (m_wr_miss cfg c addr mf time idx).1 := by
  have hline := DirtyCounted.access_index (t := c.tags) hidx (cfg.block_addr addr) time mf
  unfold gpu_cache.m_wr_miss
  split
  · exact h.wr_miss_no_wa mf
  · unfold wr_miss_wa_naive
    split
    · exact h
    · lift_lets
      intro c1 r
      have hc1 : DirtyKept cfg { c1 with next_mf := c1.next_mf + 1 } := h.congr rfl rfl
      have hr : DirtyKept cfg r.cache := hc1.send_read_request addr hidx _ time false true
      apply DirtyKept.finishMiss
      exact hr.congr rfl rfl
  · unfold wr_miss_wa_fetch_on_write
    split
    · split
      · exact h
      · exact (h.allocateWritten addr mf time hidx).finishMiss _ _
    · split
      · exact h
      · split
        · exact h
        · lift_lets
          intro r c1
          have hc : DirtyKept cfg { c with next_mf := c.next_mf + 1 } := h.congr rfl rfl
          have hr : DirtyKept cfg r.cache := hc.send_read_request addr hidx _ time false true
          have hc1 : DirtyKept cfg c1 := hr.updateLine hidx fun b j => by simp
          apply DirtyKept.finishMiss
          exact hc1.congr rfl rfl
  · unfold wr_miss_wa_lazy_fetch_on_read
    split
    · exact h
    · lift_lets
      intro c1 w reserved
      have hc1 : DirtyKept cfg c1 ∧ c1.tags = c.tags := by
        unfold c1
        split
        · exact ⟨h.congr rfl rfl, rfl⟩
        · exact ⟨h, rfl⟩
      have hw : DirtyKept cfg w.1 := hc1.1.allocateWritten addr mf time hidx
      have hstatus : w.2.status.index idx < cfg.get_num_lines :=
        DirtyCounted.access_index (t := c1.tags) hidx (cfg.block_addr addr) time mf
      exact (hw.updateLine hstatus fun b j => by simp).finishMiss _ _

theorem rd_hit_base (h : DirtyKept cfg c) (addr : Nat) (mf : MemFetch) (time : Nat) {idx : Nat}
    (hidx : idx < cfg.get_num_lines) : DirtyKept cfg (rd_hit_base cfg c addr mf time idx).1 := by
  have hline := DirtyCounted.access_index (t := c.tags) hidx (cfg.block_addr addr) time mf
  have haccess := h.accessClean addr time mf
  unfold gpu_cache.rd_hit_base
  dsimp only
  split
  · refine DirtyKept.writeSector ?_ hline mf
    exact haccess.congr rfl rfl
  · exact haccess

theorem rd_miss_base (h : DirtyKept cfg c) (addr : Nat) (mf : MemFetch) (time : Nat) {idx : Nat}
    (hidx : idx < cfg.get_num_lines) : DirtyKept cfg (rd_miss_base cfg c addr mf time idx).1 := by
  unfold gpu_cache.rd_miss_base
  split
  · exact h
  · exact (h.send_read_request addr hidx mf time false false).finishMiss _ _

end DirtyKept

/-! ## Runs -/

/-- What came back is the last part of a fetch. -/
def lastPart (cfg : CacheConfig) (e : ExtraMfFields) : Bool :=
  match cfg.m_mshr_type with
  | .ASSOC => true
  | .SECTOR_ASSOC => decide (e.pending_read = 1)

/-- The fill of a fetch does not clean its line. -/
def countsReplied (cfg : CacheConfig) (c : Cache) (e : ExtraMfFields) : Bool :=
  !lastPart cfg e ||
    match cfg.m_alloc_policy with
    | .ON_MISS => !cleansOnFill cfg (c.tags.m_lines e.m_cache_index) e.mf.sector_mask
    | .ON_FILL => countsFilled cfg c.tags e.m_block_addr e.mf.sector_mask e.mf.is_write

/-- The steps that keep the counter of the dirty lines right. -/
def keepsDirty (cfg : CacheConfig) (c : Cache) : CacheAction → Bool
  | .access mf _ =>
    match probe cfg c.tags (cfg.block_addr mf.addr) mf.sector_mask mf.is_write with
    | .HIT idx => !mf.is_write || countsWritten cfg c mf idx
    | _ => true
  | .fill made_here serial _ =>
    ((waiting_for_fill c made_here serial).all fun e => countsReplied cfg c e)
  | .force_tag_access addr _ mask => countsFilled cfg c.tags addr mask true
  | .invalidate_line lineaddr => countsInvalidated cfg lineaddr c.tags
  | _ => true

namespace DirtyKept

variable {c : Cache}

theorem data_cache_access (h : DirtyKept cfg c) {mf : MemFetch} {time : Nat}
    (hkeeps : keepsDirty cfg c (.access mf time) = true) :
    DirtyKept cfg (data_cache_access cfg c mf.addr mf time).1 := by
  have hline : ∀ idx, (probe cfg c.tags (cfg.block_addr mf.addr) mf.sector_mask
      mf.is_write).line = some idx → idx < cfg.get_num_lines := fun idx => probe_line
  simp only [keepsDirty] at hkeeps
  unfold gpu_cache.data_cache_access
  generalize hc1 : Cache.require { c with events := [] }
    (decide (mf.data_size ≤ cfg.m_atom_sz)) = c1
  have h1 : DirtyKept cfg c1 := by
    rw [← hc1]
    exact h.congr rfl rfl
  have hmiss : ∀ idx, idx < cfg.get_num_lines → DirtyKept cfg
      (if mf.is_write then gpu_cache.m_wr_miss cfg c1 mf.addr mf time idx
        else gpu_cache.rd_miss_base cfg c1 mf.addr mf time idx).1 := by
    intro idx hidx
    split
    · exact h1.m_wr_miss mf.addr mf time hidx
    · exact h1.rd_miss_base mf.addr mf time hidx
  cases hp : probe cfg c.tags (cfg.block_addr mf.addr) mf.sector_mask mf.is_write with
  | HIT idx =>
    have hidx := hline idx (by rw [hp]; rfl)
    rw [hp] at hkeeps
    unfold process_tag_probe
    dsimp only at hkeeps ⊢
    split
    · rename_i hwrite
      rw [hwrite, Bool.not_true, Bool.false_or] at hkeeps
      apply h1.m_wr_hit mf.addr mf time hidx
      rw [← hc1]
      exact hkeeps
    · exact h1.rd_hit_base mf.addr mf time hidx
  | HIT_RESERVED idx => exact hmiss idx (hline idx (by rw [hp]; rfl))
  | MISS idx => exact hmiss idx (hline idx (by rw [hp]; rfl))
  | SECTOR_MISS idx => exact hmiss idx (hline idx (by rw [hp]; rfl))
  | RESERVATION_FAIL =>
    unfold process_tag_probe
    dsimp only
    split
    · exact h1.wr_miss_no_wa mf
    · exact h1
  | aborts => exact h1.congr rfl rfl

theorem read_only_cache_access (h : DirtyKept cfg c) (addr : Nat) (mf : MemFetch) (time : Nat) :
    DirtyKept cfg (read_only_cache_access cfg c addr mf time).1 := by
  have hline : ∀ idx, (probe cfg c.tags (cfg.block_addr addr) mf.sector_mask
      mf.is_write).line = some idx → idx < cfg.get_num_lines := fun idx => probe_line
  unfold gpu_cache.read_only_cache_access
  lift_lets
  intro p c1
  have h1 : DirtyKept cfg c1 := h.congr rfl rfl
  have hmiss : ∀ idx, idx < cfg.get_num_lines → DirtyKept cfg
      (if miss_queue_full cfg c1 0 then (c1, CacheRequestStatus.RESERVATION_FAIL)
        else
          let r := gpu_cache.send_read_request cfg c1 addr idx mf time true false
          (r.cache, if r.do_miss then .MISS else .RESERVATION_FAIL)).1 := by
    intro idx hidx
    split
    · exact h1
    · exact h1.send_read_request addr hidx mf time true false
  cases hp : p with
  | HIT idx => exact h1.accessClean addr time mf
  | HIT_RESERVED idx => exact hmiss idx (hline idx (by change p.line = _; rw [hp]; rfl))
  | MISS idx => exact hmiss idx (hline idx (by change p.line = _; rw [hp]; rfl))
  | SECTOR_MISS idx => exact hmiss idx (hline idx (by change p.line = _; rw [hp]; rfl))
  | RESERVATION_FAIL => exact h1
  | aborts => exact h1.congr rfl rfl

theorem fillDone (h : DirtyKept cfg c) {e : ExtraMfFields} (he : e ∈ c.m_extra_mf_fields)
    (hlast : lastPart cfg e = true) (hkeeps : countsReplied cfg c e = true) (time : Nat) :
    DirtyKept cfg (fillDone cfg c e time) := by
  have hidx := h.in_cache e he
  unfold countsReplied at hkeeps
  rw [hlast, Bool.not_true, Bool.false_or] at hkeeps
  unfold gpu_cache.fillDone
  lift_lets
  intro mf tags ready c1
  have htags : DirtyCounted cfg tags := by
    unfold tags
    split
    · rename_i hpolicy
      rw [hpolicy] at hkeeps
      have h1 : DirtyCounted cfg (c.tags.require (decide (cfg.m_alloc_policy = .ON_MISS))) :=
        h.counted.congr rfl rfl
      apply h1.fillLine hidx _ mf.byte_mask
      rw [Bool.not_eq_true'] at hkeeps
      exact hkeeps
    · rename_i hpolicy
      rw [hpolicy] at hkeeps
      exact h.counted.fillAddr hkeeps time mf.byte_mask
  have hc1 : DirtyKept cfg c1 :=
    ⟨htags, fun x hx => h.in_cache x (List.mem_of_mem_erase hx)⟩
  split
  · refine DirtyKept.writeSector ?_ hidx mf
    exact hc1.congr rfl rfl
  · exact hc1

theorem fill (h : DirtyKept cfg c) {made_here : Bool} {serial time : Nat}
    (hkeeps : keepsDirty cfg c (.fill made_here serial time) = true) :
    DirtyKept cfg (baseline_cache_fill cfg c made_here serial time) := by
  simp only [keepsDirty] at hkeeps
  unfold baseline_cache_fill
  split
  · exact h.congr rfl rfl
  · rename_i e hfound
    have he : e ∈ c.m_extra_mf_fields := List.mem_of_find?_eq_some hfound
    rw [hfound, Option.all_some] at hkeeps
    split
    · rename_i htype
      exact h.fillDone he (by simp [lastPart, htype]) hkeeps time
    · rename_i htype
      lift_lets
      intro left
      split
      · refine ⟨h.counted, ?_⟩
        intro x hx
        obtain ⟨y, hy, rfl⟩ := List.mem_map.mp hx
        split
        · exact h.in_cache e he
        · exact h.in_cache y hy
      · rename_i hleft
        have hone : e.pending_read = 1 := by
          by_cases hzero : e.pending_read = 0
          · exfalso
            apply hleft
            unfold left
            rw [if_pos hzero]
            decide
          · unfold left at hleft
            rw [if_neg hzero] at hleft
            omega
        exact h.fillDone he (by simp [lastPart, htype, hone]) hkeeps time

theorem step (h : DirtyKept cfg c) {a : CacheAction} (hkeeps : keepsDirty cfg c a = true) :
    DirtyKept cfg (happens cfg c a) := by
  cases a with
  | access mf time =>
    change DirtyKept cfg (cacheAccess cfg c mf.addr mf time).1
    unfold cacheAccess
    split
    · exact h.read_only_cache_access mf.addr mf time
    · exact h.data_cache_access hkeeps
  | fill made_here serial time => exact h.fill hkeeps
  | next_access => exact h.congr rfl rfl
  | cycle full =>
    unfold happens baseline_cache_cycle
    dsimp only
    split
    · exact h
    · exact h.congr rfl rfl
  | flush => exact h.tags h.counted.flush
  | invalidate => exact h.tags h.counted.invalidate
  | invalidate_line lineaddr => exact h.tags (h.counted.invalidateAddr hkeeps)
  | force_tag_access addr time mask => exact h.tags (h.counted.fillAddr hkeeps time 0)

end DirtyKept

theorem dirtyKept_empty : DirtyKept cfg {} := by
  refine ⟨?_, ?_⟩
  · apply Eq.symm
    apply modifiedLines_eq_zero
    intro i _
    apply Bool.eq_false_iff.mpr
    intro h
    obtain ⟨j, _, hstatus⟩ := CacheBlock.is_modified_line_iff.mp h
    cases hstatus
  · intro e he
    cases he

/-- In every run whose steps keep it right, `m_dirty` is the number of dirty lines. -/
theorem m_dirty_counts_the_dirty_lines {c : Cache} (hr : CacheReach cfg (keepsDirty cfg) c) :
    c.tags.m_dirty = modifiedLines cfg c.tags ∧ c.tags.m_dirty ≤ cfg.get_num_lines := by
  have hkept : DirtyKept cfg c := by
    induction hr with
    | start => exact dirtyKept_empty
    | step _ hn ih =>
      obtain ⟨a, hkeeps, ha⟩ := hn
      obtain ⟨_, rfl, _⟩ := cacheStep_eq_some cfg ha
      exact ih.step hkeeps
  have hcount : c.tags.m_dirty = modifiedLines cfg c.tags := hkept.counted
  refine ⟨hcount, ?_⟩
  rw [hcount]
  exact modifiedLines_le c.tags

/-- Two stores to the two lines, and a load of the first. -/
def storesAndLoad : List CacheAction :=
  [.access (wholeLine 0 0) 1, .access (wholeLine 1 128) 2, .access (loadLine 2 0) 3]

theorem m_dirty_counts_two_stores :
    modifiedLines twoLines (cacheAfter twoLines (keepsDirty twoLines) storesAndLoad).tags = 2 ∧
      ((cacheAfter twoLines (keepsDirty twoLines) storesAndLoad).tags.m_dirty =
          modifiedLines twoLines (cacheAfter twoLines (keepsDirty twoLines) storesAndLoad).tags ∧
        (cacheAfter twoLines (keepsDirty twoLines) storesAndLoad).tags.m_dirty ≤
          twoLines.get_num_lines) :=
  ⟨by decide +kernel, m_dirty_counts_the_dirty_lines (cacheReach_after twoLines _ storesAndLoad)⟩

/-- The lines fetch what a store does not write. -/
def twoFetchedLines : CacheConfig :=
  { twoLines with
    m_write_alloc_policy := .FETCH_ON_WRITE
    on_fill_ok := by
      intro h
      cases h }

/-- A load that misses, a store of the whole line while it is below, and its reply. -/
def storeBeforeReply : List CacheAction :=
  [.access (loadLine 0 0) 1, .access (wholeLine 1 0) 2, .fill false 0 3]

/-- The reply takes the stored line back to VALID, and the counter stays. -/
theorem m_dirty_counts_a_clean_line :
    ¬ ∀ (cfg : CacheConfig) (c : Cache), CacheReach cfg anyAction c →
      c.tags.m_dirty = modifiedLines cfg c.tags ∧ c.tags.m_dirty ≤ cfg.get_num_lines := by
  intro h
  have hrun := cacheReach_after twoFetchedLines anyAction storeBeforeReply
  have hcount := (h twoFetchedLines _ hrun).1
  have hdirty : (cacheAfter twoFetchedLines anyAction storeBeforeReply).tags.m_dirty = 1 := by
    decide +kernel
  have hlines : modifiedLines twoFetchedLines
      (cacheAfter twoFetchedLines anyAction storeBeforeReply).tags = 0 := by
    decide +kernel
  omega

end gpgpu_sim_uvm.gpu_cache
