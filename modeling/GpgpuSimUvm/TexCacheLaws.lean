-- What the parts of the texture cache keep: its queues are rings, its tags are never
-- reserved or dirty, and the lines catch up with the tags as the fragments leave.
import GpgpuSimUvm.DirtyLines
import GpgpuSimUvm.TexCache
import GpgpuSimUvm.Victims

namespace gpgpu_sim_uvm.gpu_cache

/-! ## The queues -/

namespace Fifo

variable {T : Type} {f : Fifo T} {l : List T} {e : T}

/-- The elements lie between the tail and the head. -/
structure Sound (f : Fifo T) : Prop where
  num : f.contents.length = f.m_num
  fits : f.m_num ≤ f.m_size
  head : f.m_head = (f.m_tail + f.m_num) % f.m_size
  tail : 0 < f.m_size → f.m_tail < f.m_size
  holds : rings.Holds f.m_data f.m_size f.m_tail f.contents

theorem contents_of_holds (hnum : l.length = f.m_num)
    (holds : rings.Holds f.m_data f.m_size f.m_tail l) : f.contents = l := by
  unfold contents
  rw [← hnum]
  exact rings.cells_of_holds holds

theorem sound_of_holds (hnum : l.length = f.m_num) (hfits : f.m_num ≤ f.m_size)
    (hhead : f.m_head = (f.m_tail + f.m_num) % f.m_size)
    (htail : 0 < f.m_size → f.m_tail < f.m_size)
    (holds : rings.Holds f.m_data f.m_size f.m_tail l) : f.Sound := by
  have hc := contents_of_holds hnum holds
  exact ⟨hc ▸ hnum, hfits, hhead, htail, hc ▸ holds⟩

theorem sound_new (n : Nat) : ({ m_size := n } : Fifo T).Sound :=
  sound_of_holds (l := []) rfl (Nat.zero_le n) (Nat.zero_mod n).symm id .nil

@[simp] theorem contents_new (n : Nat) : ({ m_size := n } : Fifo T).contents = [] := rfl

theorem Sound.empty_iff (h : f.Sound) : f.empty = true ↔ f.contents = [] := by
  unfold empty
  rw [decide_eq_true_iff, ← h.num, List.length_eq_zero_iff]

theorem Sound.room (h : f.Sound) (hroom : f.full = false) : f.contents.length < f.m_size := by
  have hne : f.m_num ≠ f.m_size := of_decide_eq_false hroom
  have := h.fits
  rw [h.num]
  omega

theorem Sound.push (h : f.Sound) (hroom : f.full = false) (e : T) :
    ∃ f', f.push e = some (f', (f.m_tail + f.contents.length) % f.m_size) ∧ f'.Sound ∧
      f'.contents = f.contents ++ [e] ∧ f'.m_tail = f.m_tail ∧ f'.m_size = f.m_size := by
  have hless := h.room hroom
  have hpush := h.holds.push (x := e) hless
  have hnum : (f.contents ++ [e]).length = f.m_num + 1 := by simp [h.num]
  have hcell : (f.m_tail + f.contents.length) % f.m_size = f.m_head := by rw [h.num, h.head]
  rw [hcell] at hpush ⊢
  refine ⟨_, if_neg (by simp [hroom]), sound_of_holds hnum ?_ ?_ h.tail hpush,
    contents_of_holds hnum hpush, rfl, rfl⟩
  · rw [h.num] at hless
    exact hless
  · change (f.m_head + 1) % f.m_size = (f.m_tail + (f.m_num + 1)) % f.m_size
    rw [h.head, Nat.mod_add_mod, Nat.add_assoc]

theorem Sound.tail_lt (h : f.Sound) (hc : f.contents = e :: l) : f.m_tail < f.m_size := by
  have hnum := h.num
  have hfits := h.fits
  rw [hc, List.length_cons] at hnum
  exact h.tail (by omega)

theorem Sound.peek (h : f.Sound) (hc : f.contents = e :: l) : f.peek = some e := by
  have hget := h.holds.get (i := 0) (by rw [hc]; rfl)
  rwa [Nat.add_zero, Nat.mod_eq_of_lt (h.tail_lt hc)] at hget

theorem Sound.pop (h : f.Sound) (hc : f.contents = e :: l) :
    ∃ f', f.pop = some (e, f') ∧ f'.Sound ∧ f'.contents = l ∧
      f'.m_tail = (f.m_tail + 1) % f.m_size ∧ f'.m_size = f.m_size := by
  have hpop : rings.Holds f.m_data f.m_size ((f.m_tail + 1) % f.m_size) l := by
    have hholds := h.holds
    rw [hc] at hholds
    exact hholds.pop
  have hnum : l.length = f.m_num - 1 := by
    rw [← h.num, hc]
    rfl
  have hone : f.m_num - 1 + 1 = f.m_num := by
    rw [← hnum, ← h.num, hc]
    rfl
  refine ⟨{ f with m_tail := (f.m_tail + 1) % f.m_size, m_num := f.m_num - 1 }, ?_,
    sound_of_holds hnum ?_ ?_ ?_ hpop, contents_of_holds hnum hpop, rfl, rfl⟩
  · unfold Fifo.pop
    rw [if_neg (by rw [h.empty_iff, hc]; simp), show f.m_data f.m_tail = some e from h.peek hc]
    rfl
  · exact (Nat.sub_le _ _).trans h.fits
  · change f.m_head = ((f.m_tail + 1) % f.m_size + (f.m_num - 1)) % f.m_size
    rw [rings.cell_succ, hone]
    exact h.head
  · exact fun hpos => Nat.mod_lt _ hpos

theorem Sound.peekAt (h : f.Sound) {k : Nat} (hk : f.contents[k]? = some e) :
    f.peekAt ((f.m_tail + k) % f.m_size) = some e := by
  have hlt : k < f.contents.length := (List.getElem?_eq_some_iff.mp hk).1
  have hpos : 0 < f.m_size := by
    have hfits := h.fits
    rw [← h.num] at hfits
    omega
  unfold Fifo.peekAt
  rw [if_pos (Nat.mod_lt _ hpos)]
  exact h.holds.get hk

theorem Sound.write (h : f.Sound) {k : Nat} (hk : k < f.contents.length) (e : T) :
    (f.write ((f.m_tail + k) % f.m_size) e).Sound ∧
      (f.write ((f.m_tail + k) % f.m_size) e).contents = f.contents.set k e := by
  have hset := h.holds.set (y := e) (h.num ▸ h.fits) hk
  have hnum : (f.contents.set k e).length = f.m_num := by rw [List.length_set, h.num]
  exact ⟨sound_of_holds hnum h.fits h.head h.tail hset, contents_of_holds hnum hset⟩

end Fifo

/-! ## The tags -/

section

variable {cfg : CacheConfig} {t : TagArray}

/-- The line has the block. -/
def TagArray.Keeps (t : TagArray) (idx b : Nat) : Prop :=
  (t.m_lines idx).get_status 0 = .VALID ∧ (t.m_lines idx).m_tag = b

/-- No line is reserved or dirty, and all were used before the end of the clock. -/
structure TagArray.Quiet (t : TagArray) : Prop where
  going : t.aborted = false
  status : ∀ idx, (t.m_lines idx).get_status 0 = .INVALID ∨ (t.m_lines idx).get_status 0 = .VALID
  used : ∀ idx, (t.m_lines idx).m_last_access_time < UNSIGNED_MAX
  allocated : ∀ idx, (t.m_lines idx).m_alloc_time < UNSIGNED_MAX

theorem TagArray.quiet_new : ({} : TagArray).Quiet :=
  ⟨rfl, fun _ => .inl rfl, fun _ => Nat.zero_lt_succ _, fun _ => Nat.zero_lt_succ _⟩

@[simp] theorem TagArray.require_true (t : TagArray) : t.require true = t := by
  simp [TagArray.require]

/-- What a mask takes off a number has no bit of the mask. -/
theorem sub_and_and (a m : Nat) : (a - (a &&& m)) &&& m = 0 := by
  induction a using Nat.strongRecOn generalizing m with
  | ind a ih =>
    rcases Nat.eq_zero_or_pos a with rfl | hpos
    · simp
    · have hrest := ih (a / 2) (by omega) (m / 2)
      have hdiv : (a &&& m) / 2 = a / 2 &&& m / 2 := Nat.and_div_two
      have hle : (a / 2 &&& m / 2) ≤ a / 2 := Nat.and_le_left
      have hbit : (a &&& m) % 2 = 1 ↔ a % 2 = 1 ∧ m % 2 = 1 := Nat.and_mod_two_eq_one
      have hodd : (a - (a &&& m)) % 2 = 1 ↔ a % 2 = 1 ∧ m % 2 = 0 := by omega
      have hhalf : (a - (a &&& m)) / 2 = a / 2 - (a / 2 &&& m / 2) := by omega
      have hhigh : ((a - (a &&& m)) &&& m) / 2 = 0 := by rw [Nat.and_div_two, hhalf, hrest]
      have hlow : ¬ ((a - (a &&& m)) &&& m) % 2 = 1 := by
        rw [Nat.and_mod_two_eq_one, hodd]
        omega
      omega

/-- A line without sectors that is allocated and filled is valid. -/
theorem fill_allocate (b : CacheBlock) (tag block_addr time : Nat) (byte_mask : BitVec 128) :
    ((b.allocate .NORMAL tag block_addr time 0).fill .NORMAL 0 byte_mask).get_status 0 = .VALID ∧
      ((b.allocate .NORMAL tag block_addr time 0).fill .NORMAL 0 byte_mask).m_tag = tag ∧
      ((b.allocate .NORMAL tag block_addr time 0).fill .NORMAL 0
        byte_mask).m_last_access_time = time ∧
      ((b.allocate .NORMAL tag block_addr time 0).fill .NORMAL 0 byte_mask).m_alloc_time = time := by
  simp [CacheBlock.allocate, CacheBlock.fill, CacheBlock.updateSector, CacheBlock.get_status]

@[simp] theorem block_addr_block_addr (cfg : CacheConfig) (addr : Nat) :
    cfg.block_addr (cfg.block_addr addr) = cfg.block_addr addr := by
  unfold CacheConfig.block_addr
  rw [sub_and_and, Nat.sub_zero]

namespace TagArray.Quiet

theorem eligible (h : t.Quiet) (hnormal : cfg.m_cache_type = .NORMAL) (idx : Nat) :
    isEligible cfg t idx = true := by
  rcases h.status idx with hs | hs <;>
    simp [isEligible, hnormal, CacheBlock.is_reserved_line, CacheBlock.is_modified_line,
      CacheBlock.hasStatus, numSectors, hs]

/-- A line that answers is hit, and has the block. -/
theorem wayHit (h : t.Quiet) (hnormal : cfg.m_cache_type = .NORMAL) (tag : Nat) (mask : BitVec 4)
    (is_write : Bool) (idx : Nat) :
    wayHit cfg t tag mask is_write idx = none ∨
      wayHit cfg t tag mask is_write idx = some (.HIT idx) ∧ t.Keeps idx tag := by
  unfold gpgpu_sim_uvm.gpu_cache.wayHit
  split
  · rename_i htag
    rcases h.status idx with hs | hs
    · left
      simp [lineHit, maskFits, get_sector_index, sectorOfBit, hnormal, hs,
        CacheBlock.is_valid_line]
    · right
      refine ⟨?_, hs, htag⟩
      simp [lineHit, maskFits, get_sector_index, sectorOfBit, hnormal, hs]
  · exact .inl rfl

theorem probeWays (h : t.Quiet) (hnormal : cfg.m_cache_type = .NORMAL) (tag : Nat)
    (mask : BitVec 4) (is_write : Bool) (ways : List Nat) (v : Candidates) :
    (∃ idx, probeWays cfg t tag mask is_write ways v = .HIT idx ∧ t.Keeps idx tag) ∨
      ∀ idx ∈ ways, gpu_cache.wayHit cfg t tag mask is_write idx = none := by
  induction ways generalizing v with
  | nil => exact .inr fun idx hidx => absurd hidx List.not_mem_nil
  | cons index rest ih =>
    unfold gpgpu_sim_uvm.gpu_cache.probeWays
    rcases h.wayHit hnormal tag mask is_write index with hnone | ⟨hhit, hkeeps⟩
    · rw [hnone]
      rcases ih (consider cfg t v index) with hhit | hrest
      · exact .inl hhit
      · exact .inr (List.forall_mem_cons.mpr ⟨hnone, hrest⟩)
    · rw [hhit]
      exact .inl ⟨index, rfl, hkeeps⟩

/-- The probe hits a line that has the block, or finds a line to replace. -/
theorem probe (h : t.Quiet) (hnormal : cfg.m_cache_type = .NORMAL) (hassoc : 0 < cfg.m_assoc)
    (addr : Nat) (mask : BitVec 4) (is_write : Bool) :
    (∃ idx, probe cfg t addr mask is_write = .HIT idx ∧ t.Keeps idx (cfg.tag addr)) ∨
      ∃ idx, probe cfg t addr mask is_write = .MISS idx := by
  rcases h.probeWays hnormal (cfg.tag addr) mask is_write (cfg.ways addr) {} with hhit | hmiss
  · exact .inl hhit
  · have hway : cfg.set_index addr * cfg.m_assoc ∈ cfg.ways addr :=
      List.mem_map.mpr ⟨0, List.mem_range.mpr hassoc, rfl⟩
    have htime : timestamp cfg (t.m_lines (cfg.set_index addr * cfg.m_assoc)) < UNSIGNED_MAX := by
      unfold timestamp
      split
      · exact h.used _
      · exact h.allocated _
    obtain ⟨idx, hidx, -⟩ :=
      findsVictim_of_replaceable hmiss ⟨_, hway, h.eligible hnormal _, .inr htime⟩
    exact .inr ⟨idx, hidx⟩

theorem use (h : t.Quiet) : ({ t with is_used := true } : TagArray).Quiet :=
  ⟨h.going, h.status, h.used, h.allocated⟩

/-- A hit moves no block. -/
theorem access_hit (h : t.Quiet) {addr time : Nat} {mf : MemFetch} {idx : Nat}
    (htime : time < UNSIGNED_MAX)
    (hprobe : gpu_cache.probe cfg { t with is_used := true } addr mf.sector_mask mf.is_write =
      .HIT idx) :
    (access cfg t addr time mf).status = .HIT idx ∧ (access cfg t addr time mf).evicted = none ∧
      (access cfg t addr time mf).tags.Quiet ∧
      ∀ i b, (access cfg t addr time mf).tags.Keeps i b ↔ t.Keeps i b := by
  have haccess : access cfg t addr time mf =
      { status := .HIT idx
        tags := ({ t with is_used := true } : TagArray).updateLine idx fun b =>
          b.set_last_access_time time } := by
    unfold access
    simp only [hprobe]
  rw [haccess]
  refine ⟨rfl, rfl, ⟨h.going, fun i => ?_, fun i => ?_, fun i => ?_⟩, fun i b => ?_⟩
  · simp only [TagArray.updateLine]
    split
    · exact h.status idx
    · exact h.status i
  · simp only [TagArray.updateLine]
    split
    · exact htime
    · exact h.used i
  · simp only [TagArray.updateLine]
    split
    · exact h.allocated idx
    · exact h.allocated i
  · simp only [TagArray.Keeps, TagArray.updateLine]
    split
    · rename_i hi
      rw [hi]
      exact Iff.rfl
    · exact Iff.rfl

/-- A miss that is filled at once puts the block in its line. -/
theorem access_miss (h : t.Quiet) (hnormal : cfg.m_cache_type = .NORMAL)
    (hmiss : cfg.m_alloc_policy = .ON_MISS) {addr time : Nat} {mf : MemFetch} {idx : Nat}
    (htime : time < UNSIGNED_MAX)
    (hprobe : gpu_cache.probe cfg { t with is_used := true } addr mf.sector_mask mf.is_write =
      .MISS idx) (byte_mask : BitVec 128) :
    (access cfg t addr time mf).status = .MISS idx ∧ (access cfg t addr time mf).evicted = none ∧
      (fillIndex cfg (access cfg t addr time mf).tags idx mf.sector_mask byte_mask).Quiet ∧
      ∀ i b, (fillIndex cfg (access cfg t addr time mf).tags idx mf.sector_mask byte_mask).Keeps i b ↔
        if i = idx then cfg.tag addr = b else t.Keeps i b := by
  have hclean : (t.m_lines idx).is_modified_line .NORMAL = false := by
    rcases h.status idx with hs | hs <;>
      simp [CacheBlock.is_modified_line, CacheBlock.hasStatus, numSectors, hs]
  have haccess : access cfg t addr time mf =
      { status := .MISS idx
        tags := ({ t with is_used := true } : TagArray).updateLine idx fun b =>
          b.allocate .NORMAL (cfg.tag addr) (cfg.block_addr addr) time 0 } := by
    unfold access
    simp [hprobe, hmiss, hnormal, hclean, allocateLine, maskFits, get_sector_index, sectorOfBit]
  have hfill : fillIndex cfg (access cfg t addr time mf).tags idx mf.sector_mask byte_mask =
      ({ t with is_used := true } : TagArray).updateLine idx fun b =>
        (b.allocate .NORMAL (cfg.tag addr) (cfg.block_addr addr) time 0).fill .NORMAL 0 byte_mask := by
    have hstatus := (fill_allocate (t.m_lines idx) (cfg.tag addr) (cfg.block_addr addr) time
      byte_mask).1
    rw [haccess]
    simp [fillIndex, fillLine, hmiss, hnormal, maskFits, get_sector_index, sectorOfBit,
      TagArray.updateLine, CacheBlock.is_modified_line, CacheBlock.hasStatus, numSectors, hstatus]
    funext j
    split <;> rfl
  have hline := fill_allocate (t.m_lines idx) (cfg.tag addr) (cfg.block_addr addr) time byte_mask
  obtain ⟨hstatus, htag, hused, halloc⟩ := hline
  rw [hfill]
  refine ⟨by rw [haccess], by rw [haccess], ⟨h.going, fun i => ?_, fun i => ?_, fun i => ?_⟩,
    fun i b => ?_⟩
  · simp only [TagArray.updateLine]
    split
    · exact .inr hstatus
    · exact h.status i
  · simp only [TagArray.updateLine]
    split
    · exact hused ▸ htime
    · exact h.used i
  · simp only [TagArray.updateLine]
    split
    · exact halloc ▸ htime
    · exact h.allocated i
  · simp only [TagArray.Keeps, TagArray.updateLine]
    split
    · simp [hstatus, htag]
    · exact Iff.rfl

end TagArray.Quiet

end

/-! ## What the calls change -/

/-- The replies that bring a line. -/
def TexConfig.replies (cfg : TexConfig) : Nat :=
  match cfg.tex_mshr_type with
  | .TEX_FIFO => 1
  | .SECTOR_TEX_FIFO => cfg.m_line_sz / SECTOR_SIZE

/-- `pending_read` where `n` replies are to come. -/
def TexConfig.pending (cfg : TexConfig) (n : Nat) : Nat :=
  match cfg.tex_mshr_type with
  | .TEX_FIFO => 0
  | .SECTOR_TEX_FIFO => n

section

variable {cfg : TexConfig} {c : TexCache}

theorem TexCache.accept_eq {mf : MemFetch} {idx n : Nat} {m_miss : Bool}
    {fragments : Fifo FragmentEntry}
    (hpush : c.m_fragment_fifo.push
      { m_request := mf, m_cache_index := idx, m_miss := m_miss, m_data_size := mf.data_size } =
        some (fragments, n)) :
    c.accept mf idx m_miss = some { c with m_fragment_fifo := fragments } := by
  unfold accept
  rw [hpush]
  rfl

theorem TexCache.sendMiss_eq {mf : MemFetch} {block_addr idx n k : Nat} {rob : Fifo RobEntry}
    {requests : Fifo MemFetch}
    (hrob : c.m_rob.push { m_index := idx, m_request := mf, m_block_addr := block_addr } =
      some (rob, n))
    (hrequests : c.m_request_fifo.push mf = some (requests, k)) :
    c.sendMiss cfg block_addr mf idx =
      some { c with
        m_tags := fillIndex cfg.toCacheConfig c.m_tags idx mf.sector_mask mf.byte_mask
        m_rob := rob
        m_request_fifo := requests
        m_extra_mf_fields := c.m_extra_mf_fields.alter mf.serial {} fun _ =>
          { m_valid := true, m_rob_index := n, pending_read := cfg.pending cfg.replies } } := by
  unfold sendMiss
  rw [hrob, Option.bind_some, hrequests]
  unfold TexConfig.pending TexConfig.replies
  cases cfg.tex_mshr_type <;> rfl

theorem TexCache.finish_eq {e e' : FragmentEntry} {n : Nat} {results : Fifo MemFetch}
    {fragments : Fifo FragmentEntry}
    (hresults : c.m_result_fifo.push e.m_request = some (results, n))
    (hpop : c.m_fragment_fifo.pop = some (e', fragments)) :
    c.finish e = some { c with m_result_fifo := results, m_fragment_fifo := fragments } := by
  unfold finish
  rw [hresults, Option.bind_some, hpop]
  rfl

end

/-! ## The lines catch up -/

variable (cfg : TexConfig)

/-- The lines once the fragment has left: a miss brings its block. -/
def settle (lines : Nat → DataBlock) (e : FragmentEntry) : Nat → DataBlock :=
  if e.m_miss then
    Function.update lines e.m_cache_index
      { m_valid := true, m_block_addr := cfg.block_addr e.m_request.addr }
  else lines

/-- Each hit finds its block once the fragments before it have left. -/
def HitsFind (lines : Nat → DataBlock) : List FragmentEntry → Prop
  | [] => True
  | e :: es =>
    (e.m_miss = false →
      lines e.m_cache_index =
        { m_valid := true, m_block_addr := cfg.block_addr e.m_request.addr }) ∧
      HitsFind (settle cfg lines e) es

variable {cfg}

theorem hitsFind_concat {lines : Nat → DataBlock} {es : List FragmentEntry} {e : FragmentEntry} :
    HitsFind cfg lines (es ++ [e]) ↔ HitsFind cfg lines es ∧
      (e.m_miss = false →
        es.foldl (settle cfg) lines e.m_cache_index =
          { m_valid := true, m_block_addr := cfg.block_addr e.m_request.addr }) := by
  induction es generalizing lines with
  | nil => simp [HitsFind]
  | cons x es ih => simp [HitsFind, ih, and_assoc]

end gpgpu_sim_uvm.gpu_cache
