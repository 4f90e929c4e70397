-- The allocations of the managed heap lie side by side, so that the bytes of a transfer are
-- shared out exactly as long as the transfer stays inside the heap.
import GpgpuSimUvm.CryptoTransfer
import GpgpuSimUvm.TreeLaws
import GpgpuSimUvm.Writeback

namespace gpgpu_sim_uvm

variable {cfg : CryptoConfig}

/-! ## The heap -/

/-- The first address of the managed heap. -/
def HEAP_BASE : Nat := GLOBAL_HEAP_START + GLOBAL_MEM_SIZE_MAX

def SensitiveAllocation.Holds (a : SensitiveAllocation) (x : Nat) : Prop :=
  a.gpu_mem_addr ≤ x ∧ x < a.gpu_mem_addr + a.allocation_size

/-- The bytes of an allocation between two addresses. -/
def overlap (s e : Nat) (a : SensitiveAllocation) : Nat :=
  min e (a.gpu_mem_addr + a.allocation_size) - max s a.gpu_mem_addr

/-- The allocations fill the heap up to its end, each byte once. -/
structure HeapFilled (cfg : CryptoConfig) (h : ManagedHeap) : Prop where
  base_le : HEAP_BASE ≤ h.m_dev_malloc_managed
  aligned : h.m_dev_malloc_managed % 4096 = 0
  within : ∀ a ∈ h.managedAllocations,
    HEAP_BASE ≤ a.gpu_mem_addr ∧ a.gpu_mem_addr + a.allocation_size ≤ h.m_dev_malloc_managed
  once : ∀ x, HEAP_BASE ≤ x → x < h.m_dev_malloc_managed →
    ∃! a, a ∈ h.managedAllocations ∧ a.Holds x
  shares : ∀ s e, (h.managedAllocations.map (overlap s e)).sum =
    min e h.m_dev_malloc_managed - max s HEAP_BASE
  percentage : ∀ a ∈ h.managedAllocations, a.si._protected = true →
    a.si.protect_percentage = cfg.per_alloc_secure_percentage

/-- Allocations are whole pages of 4KB. -/
theorem roundedSize_mod_4k (size : Nat) : roundedSize size % 4096 = 0 := by
  rcases roundedSize_mod size with h | ⟨k, -, h⟩
  · simp only [MAX_PREFETCH_SIZE] at h
    omega
  · generalize 2 ^ k = blocks at h
    simp only [MAX_PREFETCH_SIZE, MIN_PREFETCH_SIZE] at h
    omega

theorem bumped_of_mod {p n : Nat} (h : n % 4096 = 0) : bumped p n = p + n := by
  have hsmall : n % 256 = 0 := by omega
  rw [bumped, hsmall]
  rfl

theorem heapFilled_start : HeapFilled cfg {} := by
  refine ⟨le_refl _, rfl, ?_, ?_, ?_, ?_⟩
  · intro a ha
    cases ha
  · intro x hle hlt
    exact absurd hlt (Nat.not_lt_of_le hle)
  · intro s e
    have hbase : ({} : ManagedHeap).m_dev_malloc_managed = HEAP_BASE := rfl
    rw [hbase]
    simp only [List.map_nil, List.sum_nil]
    omega
  · intro a ha
    cases ha

/-- An allocation goes on where the heap ends. -/
theorem heapFilled_allocate {h h' : ManagedHeap} (hh : HeapFilled cfg h) {cpu size : Nat}
    {level : CryptoLevel} (hdone : cudaMallocCryptoManaged cfg h cpu size level = some h') :
    HeapFilled cfg h' := by
  have hmod := roundedSize_mod_4k size
  rw [cudaMallocCryptoManaged] at hdone
  split_ifs at hdone with hlimit
  cases hdone
  rw [bumped_of_mod hmod]
  generalize roundedSize size = n at hmod
  obtain ⟨hbase, haligned, hwithin, honce, hshares, hperc⟩ := hh
  generalize htop : h.m_dev_malloc_managed = top at *
  refine ⟨?_, ?_, ?_, ?_, ?_, ?_⟩
  · simp only [gpu_insert_managed_allocation]
    omega
  · simp only [gpu_insert_managed_allocation]
    omega
  · intro a ha
    simp only [gpu_insert_managed_allocation, List.mem_orderedInsert] at ha ⊢
    rcases ha with rfl | ha
    · exact ⟨hbase, le_refl _⟩
    · obtain ⟨hlow, hhigh⟩ := hwithin a ha
      omega
  · intro x hlow hhigh
    simp only [gpu_insert_managed_allocation, List.mem_orderedInsert] at hhigh ⊢
    by_cases hold : x < top
    · obtain ⟨a, ⟨ha, hx⟩, huniq⟩ := honce x hlow hold
      refine ⟨a, ⟨Or.inr ha, hx⟩, ?_⟩
      rintro b ⟨rfl | hb, hbx⟩
      · have hge := hbx.1
        simp only at hge
        omega
      · exact huniq b ⟨hb, hbx⟩
    · refine ⟨_, ⟨Or.inl rfl, Nat.le_of_not_lt hold, hhigh⟩, ?_⟩
      rintro b ⟨hb | hb, hbx⟩
      · exact hb
      · have hend := (hwithin b hb).2
        have hlt := hbx.2
        omega
  · intro s e
    have hperm := List.perm_orderedInsert
      (fun a b : SensitiveAllocation => a.cpu_mem_addr ≤ b.cpu_mem_addr)
    simp only [gpu_insert_managed_allocation]
    rw [((hperm _ _).map (overlap s e)).sum_eq, List.map_cons, List.sum_cons, hshares, overlap]
    simp only
    omega
  · intro a ha
    simp only [gpu_insert_managed_allocation, List.mem_orderedInsert] at ha
    rcases ha with rfl | ha
    · intro hprot
      simp only at hprot ⊢
      split_ifs at hprot ⊢
      rfl
    · exact hperc a ha

theorem heapFilled {h : ManagedHeap} (hh : Heaps cfg h) : HeapFilled cfg h := by
  induction hh with
  | start => exact heapFilled_start
  | allocate _ _ _ _ _ hdone ih => exact heapFilled_allocate ih hdone

/-! ## The tally -/

/-- Allocations that only touch the transfer, or miss it, have no bytes in it. -/
theorem overlap_of_not_meet {s e : Nat} (hse : s ≤ e) {a : SensitiveAllocation}
    (h : regionsMeet s e a.gpu_mem_addr (a.gpu_mem_addr + a.allocation_size) = false) :
    overlap s e a = 0 := by
  simp only [regionsMeet, decide_eq_false_iff_not] at h
  rw [overlap]
  omega

/-- The protected allocations. -/
def ManagedHeap.protectedOnes (h : ManagedHeap) : List SensitiveAllocation :=
  h.managedAllocations.filter fun a => a.si._protected

theorem foldl_countAllocation {s e : Nat} (hse : s ≤ e) {as : List SensitiveAllocation}
    (hperc : ∀ a ∈ as, a.si._protected = true →
      a.si.protect_percentage = cfg.per_alloc_secure_percentage) (t : Tally) :
    (as.foldl (countAllocation s e) t).calculated_size =
        t.calculated_size + (as.map (overlap s e)).sum ∧
      (as.foldl (countAllocation s e) t).crypto_cal_size =
        t.crypto_cal_size + (cfg.per_alloc_secure_percentage : ℚ) / 100 *
          (((as.filter fun a => a.si._protected).map (overlap s e)).sum : Nat) := by
  induction as generalizing t with
  | nil => simp
  | cons a as ih =>
    obtain ⟨hsize, hcrypto⟩ := ih (fun b hb => hperc b (List.mem_cons_of_mem _ hb))
      (countAllocation s e t a)
    have hstep : (countAllocation s e t a).calculated_size = t.calculated_size + overlap s e a ∧
        (countAllocation s e t a).crypto_cal_size = t.crypto_cal_size +
          (cfg.per_alloc_secure_percentage : ℚ) / 100 *
            ((if a.si._protected then overlap s e a else 0 : Nat) : ℚ) := by
      by_cases hmeet : regionsMeet s e a.gpu_mem_addr (a.gpu_mem_addr + a.allocation_size) = true
      · rw [countAllocation]
        simp only [if_pos hmeet]
        refine ⟨rfl, ?_⟩
        by_cases hprot : a.si._protected = true
        · simp [hprot, hperc a (List.mem_cons_self ..) hprot, overlap]
        · simp [hprot]
      · have hzero := overlap_of_not_meet hse (Bool.eq_false_iff.mpr hmeet)
        rw [countAllocation]
        simp only [if_neg hmeet, hzero]
        simp
    rw [List.foldl_cons, hsize, hcrypto, hstep.1, hstep.2, List.map_cons, List.sum_cons,
      List.filter_cons]
    refine ⟨Nat.add_assoc .., ?_⟩
    by_cases hprot : a.si._protected = true
    · simp only [hprot, if_true, List.map_cons, List.sum_cons, Nat.cast_add]
      ring
    · simp [hprot]

/-- The bytes of the pages that allocations have, and those of protected ones. -/
theorem tally_eq {h : ManagedHeap} (hf : HeapFilled cfg h) (page_list : List Nat) :
    (tally cfg h page_list).calculated_size =
        min (endAddr cfg page_list) h.m_dev_malloc_managed -
          max (startAddr cfg page_list) HEAP_BASE ∧
      (tally cfg h page_list).crypto_cal_size = (cfg.per_alloc_secure_percentage : ℚ) / 100 *
        ((h.protectedOnes.map
          (overlap (startAddr cfg page_list) (endAddr cfg page_list))).sum : Nat) := by
  have hse : startAddr cfg page_list ≤ endAddr cfg page_list := Nat.le_add_right _ _
  obtain ⟨hsize, hcrypto⟩ := foldl_countAllocation hse hf.percentage {}
  rw [hf.shares, Nat.zero_add] at hsize
  rw [zero_add] at hcrypto
  exact ⟨hsize, hcrypto⟩

/-- Protected bytes are no more than all bytes, and fewer where an unprotected allocation has
some of them. -/
theorem protected_sum (s e : Nat) (as : List SensitiveAllocation) :
    ((as.filter fun a => a.si._protected).map (overlap s e)).sum ≤ (as.map (overlap s e)).sum ∧
      (((as.filter fun a => a.si._protected).map (overlap s e)).sum < (as.map (overlap s e)).sum ↔
        ∃ a ∈ as, a.si._protected = false ∧ 0 < overlap s e a) := by
  induction as with
  | nil => simp
  | cons a as ih =>
    obtain ⟨hle, hlt⟩ := ih
    simp only [List.mem_cons, exists_eq_or_imp, ← hlt]
    cases hprot : a.si._protected with
    | true =>
      simp only [List.filter_cons, hprot, if_true, List.map_cons, List.sum_cons]
      simp only [Bool.true_eq_false, false_and, false_or]
      omega
    | false =>
      simp only [List.filter_cons, hprot, Bool.false_eq_true, if_false, List.map_cons,
        List.sum_cons, true_and]
      omega

theorem overlap_pos_iff (s e : Nat) (a : SensitiveAllocation) :
    0 < overlap s e a ↔ ∃ x, s ≤ x ∧ x < e ∧ a.Holds x := by
  rw [overlap]
  constructor
  · intro h
    exact ⟨max s a.gpu_mem_addr, by omega, by omega, by omega, by omega⟩
  · rintro ⟨x, hs, he, hlow, hhigh⟩
    omega

/-- The part of so many bytes that is encrypted leaves some of them, at any percentage below
100. -/
theorem remainder_pos_iff {perc n k : Nat} (hn : 100 ≤ n) (hk : k ≤ n) (hperc : perc ≤ 100) :
    0 < n - ⌈(perc : ℚ) / 100 * (k : ℚ)⌉.toNat ↔ perc < 100 ∨ k < n := by
  rcases Nat.eq_or_lt_of_le hperc with rfl | hlt
  · have hall : ((100 : Nat) : ℚ) / 100 * (k : ℚ) = ((k : Int) : ℚ) := by
      push_cast
      ring
    rw [hall, Int.ceil_intCast, Int.toNat_natCast]
    omega
  · refine iff_of_true ?_ (Or.inl hlt)
    have hceil : ⌈(perc : ℚ) / 100 * (k : ℚ)⌉ ≤ (n : Int) - 1 := by
      rw [Int.ceil_le]
      push_cast
      have hp : (perc : ℚ) ≤ 99 := by exact_mod_cast (show perc ≤ 99 by omega)
      have hkn : (k : ℚ) ≤ n := by exact_mod_cast hk
      have hn' : (100 : ℚ) ≤ n := by exact_mod_cast hn
      have hpos : (0 : ℚ) ≤ k := Nat.cast_nonneg k
      have hmul : (perc : ℚ) * k ≤ 99 * n := by
        calc (perc : ℚ) * k ≤ 99 * k := mul_le_mul_of_nonneg_right hp hpos
          _ ≤ 99 * n := by linarith
      linarith
    omega

/-! ## Exact costs -/

/-- The cost of a transfer has no failed assertion and counts each of its bytes once. -/
structure CostExact (cfg : CryptoConfig) (h : ManagedHeap) (now : Nat) (page_list : List Nat) :
    Prop where
  completes : (get_ready_cycle cfg h now page_list).isSome = true
  once : h.contain_crypto_info = true →
    ∀ x, startAddr cfg page_list ≤ x → x < endAddr cfg page_list →
      ∃! a, a ∈ h.managedAllocations ∧ a.Holds x
  calculated : h.contain_crypto_info = true →
    (tally cfg h page_list).calculated_size = cfg.page_size * page_list.length
  remainder : h.contain_crypto_info = true →
    0 < (tally cfg h page_list).remained_normal_size

/-- The transfer ends inside the heap, and not all of it is to be encrypted. -/
def CostFits (cfg : CryptoConfig) (h : ManagedHeap) (page_list : List Nat) : Prop :=
  h.contain_crypto_info = true →
    endAddr cfg page_list ≤ h.m_dev_malloc_managed ∧
      (cfg.per_alloc_secure_percentage < 100 ∨
        ∃ a ∈ h.managedAllocations, a.si._protected = false ∧
          ∃ x, startAddr cfg page_list ≤ x ∧ x < endAddr cfg page_list ∧ a.Holds x)

/-- Each page of a transfer has a byte of an allocation. -/
def PagesManaged (cfg : CryptoConfig) (h : ManagedHeap) (page_list : List Nat) : Prop :=
  ∀ p ∈ page_list, ∃ a ∈ h.managedAllocations, ∃ x, a.Holds x ∧ cfg.get_page_num x = p

/-- Managed pages do not start before the heap. -/
theorem base_le_start {h : ManagedHeap} (hf : HeapFilled cfg h) {page_list : List Nat}
    (hne : page_list ≠ []) (hmanaged : PagesManaged cfg h page_list) :
    HEAP_BASE ≤ startAddr cfg page_list := by
  obtain ⟨p, ps, rfl⟩ := List.exists_cons_of_ne_nil hne
  obtain ⟨a, ha, x, hx, hpage⟩ := hmanaged p (List.mem_cons_self ..)
  have hbase := (hf.within a ha).1
  have hle := hx.1
  have haligned : HEAP_BASE = HEAP_BASE / cfg.page_size * cfg.page_size := by
    rcases cfg.page_size_ok with h | h <;> rw [h] <;> rfl
  have hdiv : HEAP_BASE / cfg.page_size ≤ x / cfg.page_size :=
    Nat.div_le_div_right (hbase.trans hle)
  rw [haligned, startAddr, List.headD_cons, ← hpage]
  exact Nat.mul_le_mul_right _ hdiv

/-- The cost of a run of managed pages is exact when the run fits, and only then. -/
theorem cost_exact_iff {h : ManagedHeap} (hh : Heaps cfg h) (now p n : Nat)
    (hmanaged : PagesManaged cfg h (List.range' p (n + 1))) :
    CostExact cfg h now (List.range' p (n + 1)) ↔ CostFits cfg h (List.range' p (n + 1)) := by
  have hf := heapFilled hh
  generalize hpages : List.range' p (n + 1) = page_list at *
  have hlen : page_list.length = n + 1 := by
    rw [← hpages, List.length_range']
  have hne : page_list ≠ [] := by
    rw [← List.length_pos_iff, hlen]
    exact Nat.succ_pos n
  have hbase := base_le_start hf hne hmanaged
  obtain ⟨hsize, hcrypto⟩ := tally_eq hf page_list
  have hend : endAddr cfg page_list =
      startAddr cfg page_list + cfg.page_size * page_list.length := rfl
  have hpage : 100 ≤ cfg.page_size * page_list.length := by
    rw [hlen, Nat.mul_succ]
    rcases cfg.page_size_ok with h | h <;> omega
  have hexact : (tally cfg h page_list).calculated_size = cfg.page_size * page_list.length ↔
      endAddr cfg page_list ≤ h.m_dev_malloc_managed := by
    rw [hsize]
    omega
  have hremained : endAddr cfg page_list ≤ h.m_dev_malloc_managed →
      (0 < (tally cfg h page_list).remained_normal_size ↔
        (cfg.per_alloc_secure_percentage < 100 ∨
          ∃ a ∈ h.managedAllocations, a.si._protected = false ∧
            ∃ x, startAddr cfg page_list ≤ x ∧ x < endAddr cfg page_list ∧ a.Holds x)) := by
    intro hinside
    have hall : (h.managedAllocations.map
        (overlap (startAddr cfg page_list) (endAddr cfg page_list))).sum =
          cfg.page_size * page_list.length := by
      rw [hf.shares]
      omega
    obtain ⟨hle, hlt⟩ := protected_sum (startAddr cfg page_list) (endAddr cfg page_list)
      h.managedAllocations
    rw [hall] at hle hlt
    rw [Tally.remained_normal_size, hexact.mpr hinside, hcrypto, ManagedHeap.protectedOnes,
      remainder_pos_iff hpage hle cfg.percentage_ok.2, hlt]
    simp only [overlap_pos_iff]
  constructor
  · intro hcost hinfo
    have hinside := hexact.mp (hcost.calculated hinfo)
    exact ⟨hinside, (hremained hinside).mp (hcost.remainder hinfo)⟩
  · intro hfits
    by_cases hinfo : h.contain_crypto_info = true
    · obtain ⟨hinside, hspare⟩ := hfits hinfo
      have hcalc := hexact.mpr hinside
      have hpos := (hremained hinside).mpr hspare
      refine ⟨?_, fun _ x hlow hhigh => ?_, fun _ => hcalc, fun _ => hpos⟩
      · rw [get_ready_cycle, if_pos hinfo]
        simp only [if_pos (And.intro hcalc hpos), Option.isSome_some]
      · exact hf.once x (hbase.trans hlow) (lt_of_lt_of_le hhigh hinside)
    · refine ⟨?_, fun hyes => absurd hyes hinfo, fun hyes => absurd hyes hinfo,
        fun hyes => absurd hyes hinfo⟩
      rw [get_ready_cycle, if_neg hinfo, Option.isSome_some]

/-- With pages of 4KB a run of managed pages always ends inside the heap. -/
theorem end_le_of_4k {h : ManagedHeap} (hh : Heaps cfg h) (hsize : cfg.page_size = 4096) {p n : Nat}
    (hmanaged : PagesManaged cfg h (List.range' p (n + 1))) :
    endAddr cfg (List.range' p (n + 1)) ≤ h.m_dev_malloc_managed := by
  have hf := heapFilled hh
  obtain ⟨a, ha, x, hx, hpage⟩ := hmanaged (p + n)
    (List.mem_range'_1.mpr ⟨Nat.le_add_right p n, by omega⟩)
  have htop := (hf.within a ha).2
  have haligned := hf.aligned
  have hlt := hx.2
  have hend : endAddr cfg (List.range' p (n + 1)) = p * 4096 + 4096 * (n + 1) := by
    rw [endAddr, startAddr, Config.get_mem_addr, List.length_range', hsize]
    rfl
  rw [hend]
  rw [Config.get_page_num, hsize] at hpage
  omega

/-! ## One protected allocation -/

/-- A machine that protects a part of each sensitive allocation. -/
def protecting (perc : Nat) (h : 0 < perc ∧ perc ≤ 100) : CryptoConfig where
  toConfig := smallConfig
  per_alloc_secure_percentage := perc
  percentage_ok := h
  unprotected_cycles := fun n => n
  protected_cycles := fun _ n => n
  need_cycles := fun n => n

/-- 64KB of the level `CIF`. -/
def oneProtected (perc : Nat) : ManagedHeap where
  m_dev_malloc_managed := HEAP_BASE + 65536
  contain_crypto_info := true
  managedAllocations :=
    [{ cpu_mem_addr := 4096
       gpu_mem_addr := HEAP_BASE
       allocation_size := 65536
       si := { _cl := .CIF, _protected := true, protect_percentage := perc } }]

theorem oneProtected_done (perc : Nat) (h : 0 < perc ∧ perc ≤ 100) :
    cudaMallocCryptoManaged (protecting perc h) {} 4096 65536 .CIF = some (oneProtected perc) := by
  have hsize : roundedSize 65536 = 65536 := by decide +kernel
  have hbumped : bumped HEAP_BASE 65536 = HEAP_BASE + 65536 := bumped_of_mod (by simp)
  have hlimit : HEAP_BASE + 65536 ≤ MEM_SPACE_LIMIT := by
    simp [HEAP_BASE, GLOBAL_HEAP_START, GLOBAL_MEM_SIZE_MAX, MEM_SPACE_LIMIT]
  rw [cudaMallocCryptoManaged, hsize]
  change (if HEAP_BASE + 65536 ≤ MEM_SPACE_LIMIT then some _ else none) = _
  rw [if_pos hlimit]
  change some (gpu_insert_managed_allocation _ { m_dev_malloc_managed := bumped HEAP_BASE 65536 } _
    HEAP_BASE _ _) = _
  rw [hbumped]
  rfl

theorem oneProtected_heaps (perc : Nat) (h : 0 < perc ∧ perc ≤ 100) :
    Heaps (protecting perc h) (oneProtected perc) :=
  .allocate .start 4096 65536 .CIF (fun _ ha => by cases ha) (oneProtected_done perc h)

theorem oneProtected_managed (perc : Nat) (h : 0 < perc ∧ perc ≤ 100) :
    PagesManaged (protecting perc h) (oneProtected perc) (List.range' 0xC0000 (0 + 1)) := by
  intro p hp
  have hp' : p = 0xC0000 := by simpa using hp
  have hpage : (protecting perc h).get_page_num HEAP_BASE = 0xC0000 := by
    rw [get_page_num_eq_iff]
    change 0xC0000 * 4096 ≤ HEAP_BASE ∧ HEAP_BASE < 0xC0000 * 4096 + 4096
    simp only [HEAP_BASE, GLOBAL_HEAP_START, GLOBAL_MEM_SIZE_MAX]
    omega
  rw [hp']
  refine ⟨_, List.mem_singleton.mpr rfl, HEAP_BASE, ⟨?_, ?_⟩, hpage⟩
  · change HEAP_BASE ≤ HEAP_BASE
    exact le_refl HEAP_BASE
  · change HEAP_BASE < HEAP_BASE + 65536
    omega

/-- Half of an allocation protected: the cost of its first page is exact. -/
theorem half_protected_exact :
    CostExact (protecting 50 (by decide)) (oneProtected 50) 0
      (List.range' 0xC0000 (0 + 1)) := by
  apply (cost_exact_iff (oneProtected_heaps 50 (by decide)) 0 0xC0000 0
    (oneProtected_managed 50 (by decide))).mpr
  intro _
  refine ⟨?_, Or.inl (by decide)⟩
  decide +kernel

/-- All of it protected: nothing remains, and the assertion fails. -/
theorem fully_protected_aborts :
    ¬ ∀ (cfg : CryptoConfig) (h : ManagedHeap) (now p n : Nat), Heaps cfg h →
      PagesManaged cfg h (List.range' p (n + 1)) →
        CostExact cfg h now (List.range' p (n + 1)) := by
  intro hall
  have hexact := (hall _ _ 0 0xC0000 0 (oneProtected_heaps 100 (by decide))
    (oneProtected_managed 100 (by decide))).completes
  revert hexact
  decide +kernel

end gpgpu_sim_uvm
