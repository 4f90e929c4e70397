-- The arbitration of a DRAM channel among its sub partitions (l2cache.cc): the
-- credits that `memory_partition_unit` lends for requests on their way to DRAM.
import GpgpuSimUvm.TagArray
import GpgpuSimUvm.Monitor
import Mathlib.Algebra.BigOperators.Intervals

namespace gpgpu_sim_uvm.memory_partition_unit

open gpu_cache (MemAccessType)

/-! ## The credits -/

/-- What a memory partition reads of `memory_config`. -/
structure PartitionConfig where
  m_id : Nat
  m_n_sub_partition_per_memory_channel : Nat
  gpgpu_frfcfs_dram_sched_queue_size : Nat
  gpgpu_dram_return_queue_size : Nat
  gpgpu_frfcfs_dram_write_queue_size : Nat
  seperate_write_queue_enabled : Bool
  dram_latency : Nat
  /-- The third number of `gpgpu_L2_queue_config`. -/
  dram_L2 : Nat

/-- `m_shared_credit_limit`. Zero is no limit. -/
def PartitionConfig.m_shared_credit_limit (cfg : PartitionConfig) : Int :=
  if cfg.gpgpu_frfcfs_dram_sched_queue_size = 0 ∨ cfg.gpgpu_dram_return_queue_size = 0 then 0
  else
    cfg.gpgpu_frfcfs_dram_sched_queue_size + cfg.gpgpu_dram_return_queue_size -
      (cfg.m_n_sub_partition_per_memory_channel - 1) +
        if cfg.seperate_write_queue_enabled then (cfg.gpgpu_frfcfs_dram_write_queue_size : Int)
        else 0

def m_private_credit_limit : Int := 1

structure ArbitrationMetadata where
  m_last_borrower : Nat
  m_private_credit : Nat → Int := fun _ => 0
  m_shared_credit : Int := 0
  /-- An assertion of the arbitration failed. -/
  failed : Bool := false

namespace ArbitrationMetadata

variable (cfg : PartitionConfig) (m : ArbitrationMetadata)

def hasShared : Bool :=
  decide (cfg.m_shared_credit_limit = 0 ∨ m.m_shared_credit < cfg.m_shared_credit_limit)

def has_credits (spid : Nat) : Bool :=
  decide (m.m_private_credit spid < m_private_credit_limit) || m.hasShared cfg

def borrow_credit (spid : Nat) : ArbitrationMetadata :=
  let m :=
    if m.m_private_credit spid < m_private_credit_limit then
      { m with
        m_private_credit := Function.update m.m_private_credit spid (m.m_private_credit spid + 1) }
    else if m.hasShared cfg then { m with m_shared_credit := m.m_shared_credit + 1 }
    else { m with failed := true }
  { m with m_last_borrower := spid }

def return_credit (spid : Nat) : ArbitrationMetadata :=
  let m :=
    if 0 < m.m_private_credit spid then
      { m with
        m_private_credit := Function.update m.m_private_credit spid (m.m_private_credit spid - 1) }
    else { m with m_shared_credit := m.m_shared_credit - 1 }
  { m with failed := m.failed || !decide (0 ≤ m.m_shared_credit) }

end ArbitrationMetadata

/-! ## The partition -/

/-- What the partition reads of a `mem_fetch`. -/
structure MemFetch where
  sub_partition_id : Nat
  type : MemAccessType
  is_write : Bool
  deriving DecidableEq

def MemFetch.isWriteBack (mf : MemFetch) : Bool :=
  decide (mf.type = .L1_WRBK_ACC ∨ mf.type = .L2_WRBK_ACC)

structure DramDelay where
  ready_cycle : Nat
  req : MemFetch

structure MemoryPartition where
  m_arbitration_metadata : ArbitrationMetadata
  /-- The two queues of each sub partition that lead to DRAM and back. -/
  L2_dram_queue : Nat → List MemFetch := fun _ => []
  dram_L2_queue : Nat → List MemFetch := fun _ => []
  m_dram_latency_queue : List DramDelay := []
  /-- What was pushed to DRAM and did not come back from it. -/
  m_dram : List MemFetch := []
  returnq : List MemFetch := []
  /-- An assertion on the sub partition of a request failed. -/
  aborted : Bool := false

variable (cfg : PartitionConfig)

def newPartition : MemoryPartition where
  m_arbitration_metadata := { m_last_borrower := cfg.m_n_sub_partition_per_memory_channel - 1 }

def global_sub_partition_id_to_local_id (id : Nat) : Nat :=
  id - cfg.m_id * cfg.m_n_sub_partition_per_memory_channel

/-- `get_id` of a sub partition. -/
def get_id (spid : Nat) : Nat := cfg.m_id * cfg.m_n_sub_partition_per_memory_channel + spid

/-- `assert(b)` -/
def MemoryPartition.require (s : MemoryPartition) (b : Bool) : MemoryPartition :=
  { s with aborted := s.aborted || !b }

def MemoryPartition.dram_L2_queue_full (s : MemoryPartition) (spid : Nat) : Bool :=
  decide (cfg.dram_L2 ≤ (s.dram_L2_queue spid).length)

def can_issue_to_dram (s : MemoryPartition) (spid : Nat) : Bool :=
  s.m_arbitration_metadata.has_credits cfg spid && !s.dram_L2_queue_full cfg spid

/-- `set_done`. Only a write-back gives its credit back here. -/
def set_done (s : MemoryPartition) (mf : MemFetch) : MemoryPartition :=
  let spid := global_sub_partition_id_to_local_id cfg mf.sub_partition_id
  let s := s.require (decide (get_id cfg spid = mf.sub_partition_id))
  if mf.isWriteBack then
    { s with m_arbitration_metadata := s.m_arbitration_metadata.return_credit spid }
  else s

/-- The reply of a request, where its sub partition has room. The flag says that the
request was taken. A write-back of an L1 cache would give no credit back here. -/
def replyToL2 (s : MemoryPartition) (mf : MemFetch) : MemoryPartition × Bool :=
  let spid := global_sub_partition_id_to_local_id cfg mf.sub_partition_id
  let s := s.require (decide (get_id cfg spid = mf.sub_partition_id))
  if s.dram_L2_queue_full cfg spid then (s, false)
  else if mf.type = .L1_WRBK_ACC then (s, true)
  else
    ({ s with
        dram_L2_queue := Function.update s.dram_L2_queue spid (s.dram_L2_queue spid ++ [mf])
        m_arbitration_metadata := s.m_arbitration_metadata.return_credit spid }, true)

/-- The loop that issues to DRAM, over the sub partitions in their order: one request at
most. `full` is that of the DRAM. -/
def issue (full : Bool → Bool) (now : Nat) : List Nat → MemoryPartition → MemoryPartition
  | [], s => s
  | spid :: rest, s =>
    match s.L2_dram_queue spid with
    | [] => issue full now rest s
    | mf :: mfs =>
      if can_issue_to_dram cfg s spid then
        if full mf.is_write then s
        else
          { s with
            L2_dram_queue := Function.update s.L2_dram_queue spid mfs
            m_dram_latency_queue :=
              s.m_dram_latency_queue ++ [{ ready_cycle := now + cfg.dram_latency, req := mf }]
            m_arbitration_metadata := s.m_arbitration_metadata.borrow_credit cfg spid }
      else issue full now rest s

/-- The sub partitions behind the last that borrowed. -/
def issueOrder (s : MemoryPartition) : List Nat :=
  (List.range cfg.m_n_sub_partition_per_memory_channel).map fun p =>
    (p + s.m_arbitration_metadata.m_last_borrower + 1) % cfg.m_n_sub_partition_per_memory_channel

/-- `simple_dram_model_cycle`: what leaves the latency queue comes back at once. -/
def simple_dram_model_cycle (s : MemoryPartition) (full : Bool → Bool) (now : Nat) :
    MemoryPartition :=
  let s :=
    match s.m_dram_latency_queue with
    | [] => s
    | d :: rest =>
      if d.ready_cycle ≤ now then
        if d.req.isWriteBack then { set_done cfg s d.req with m_dram_latency_queue := rest }
        else
          let r := replyToL2 cfg s d.req
          if r.2 then { r.1 with m_dram_latency_queue := rest } else r.1
      else s
  issue cfg full now (issueOrder cfg s) s

/-- The end of a request in `dram_t::cycle`. -/
def completed (s : MemoryPartition) (mf : MemFetch) : MemoryPartition :=
  if mf ∈ s.m_dram then
    let s := { s with m_dram := s.m_dram.erase mf }
    if mf.isWriteBack then set_done cfg s mf else { s with returnq := s.returnq ++ [mf] }
  else s

/-- `dram_cycle`. The DRAM hands back some of what was pushed to it. -/
def dram_cycle (s : MemoryPartition) (full : Bool → Bool) (now : Nat) (done : List MemFetch) :
    MemoryPartition :=
  let s :=
    match s.returnq with
    | [] => s
    | mf :: rest =>
      let r := replyToL2 cfg s mf
      if r.2 then { r.1 with returnq := rest } else r.1
  let s := done.foldl (completed cfg) s
  let s := issue cfg full now (issueOrder cfg s) s
  match s.m_dram_latency_queue with
  | [] => s
  | d :: rest =>
    if d.ready_cycle ≤ now ∧ full d.req.is_write = false then
      { s with m_dram_latency_queue := rest, m_dram := s.m_dram ++ [d.req] }
    else s

/-! ## Runs -/

inductive PartitionAction
  | L2_dram_queue_push (spid : Nat) (mf : MemFetch)
  | dram_L2_queue_pop (spid : Nat)
  | simple_dram_model_cycle (full : Bool → Bool) (now : Nat)
  | dram_cycle (full : Bool → Bool) (now : Nat) (done : List MemFetch)

/-- The cache of a sub partition sends requests of its own sub partition. -/
def canHappen : PartitionAction → Bool
  | .L2_dram_queue_push spid mf =>
    decide (spid < cfg.m_n_sub_partition_per_memory_channel ∧ mf.sub_partition_id = get_id cfg spid)
  | _ => true

def happens (s : MemoryPartition) : PartitionAction → MemoryPartition
  | .L2_dram_queue_push spid mf =>
    { s with L2_dram_queue := Function.update s.L2_dram_queue spid (s.L2_dram_queue spid ++ [mf]) }
  | .dram_L2_queue_pop spid =>
    { s with dram_L2_queue := Function.update s.dram_L2_queue spid (s.dram_L2_queue spid).tail }
  | .simple_dram_model_cycle full now => simple_dram_model_cycle cfg s full now
  | .dram_cycle full now done => dram_cycle cfg s full now done

def PartitionNext (s s' : MemoryPartition) : Prop :=
  ∃ a, canHappen cfg a = true ∧ s' = happens cfg s a

/-- The states of all runs of a partition. -/
def PartitionReach : MemoryPartition → Prop :=
  monitor.Reach (newPartition cfg) (PartitionNext cfg)

variable {cfg}

theorem partitionReach_run {as : List PartitionAction} {s : MemoryPartition}
    (hs : PartitionReach cfg s) (has : as.all (canHappen cfg) = true) :
    PartitionReach cfg (as.foldl (happens cfg) s) := by
  induction as generalizing s with
  | nil => exact hs
  | cons a as ih =>
    rw [List.all_cons, Bool.and_eq_true] at has
    exact ih (hs.step ⟨a, has.1, rfl⟩) has.2

/-! ## Credits against requests -/

/-- The credits are those of the requests that are out, each told by its sub partition. -/
structure Balanced (cfg : PartitionConfig) (m : ArbitrationMetadata) (out : Multiset Nat) :
    Prop where
  in_range : ∀ p ∈ out, p < cfg.m_n_sub_partition_per_memory_channel
  credit : ∀ p, m.m_private_credit p = 0 ∨ m.m_private_credit p = 1
  /-- A private credit is out for a request of its own sub partition. -/
  backed : ∀ p, m.m_private_credit p ≤ (out.count p : Int)
  sum : ∑ p ∈ Finset.range cfg.m_n_sub_partition_per_memory_channel, m.m_private_credit p +
    m.m_shared_credit = Multiset.card out
  limit : cfg.m_shared_credit_limit ≠ 0 → m.m_shared_credit ≤ cfg.m_shared_credit_limit
  failed : m.failed = false

/-- A sum that changes at one place. -/
theorem sum_update {n p : Nat} (hp : p < n) (f : Nat → Int) (v : Int) :
    ∑ x ∈ Finset.range n, Function.update f p v x + f p = ∑ x ∈ Finset.range n, f x + v := by
  have hmem : p ∈ Finset.range n := Finset.mem_range.mpr hp
  rw [Finset.sum_update_of_mem hmem, ← Finset.sum_sdiff (Finset.singleton_subset_iff.mpr hmem),
    Finset.sum_singleton]
  ring

namespace Balanced

variable {m : ArbitrationMetadata} {out : Multiset Nat} {p : Nat}

/-- There are as many requests as all counts of the sub partitions. -/
theorem card_out (h : Balanced cfg m out) :
    ∑ p ∈ Finset.range cfg.m_n_sub_partition_per_memory_channel, (out.count p : Int) =
      Multiset.card out := by
  have hcount := Multiset.sum_count_eq_card (s := Finset.range
    cfg.m_n_sub_partition_per_memory_channel) fun p hp => Finset.mem_range.mpr (h.in_range p hp)
  exact_mod_cast hcount

/-- No more is lent privately than there are requests. -/
theorem shared_nonneg (h : Balanced cfg m out) : 0 ≤ m.m_shared_credit := by
  have hle : ∑ p ∈ Finset.range cfg.m_n_sub_partition_per_memory_channel, m.m_private_credit p ≤
      ∑ p ∈ Finset.range cfg.m_n_sub_partition_per_memory_channel, (out.count p : Int) :=
    Finset.sum_le_sum fun p _ => h.backed p
  have hcard := h.card_out
  have hsum := h.sum
  omega

theorem empty (cfg : PartitionConfig) (last : Nat) (hlimit : 0 ≤ cfg.m_shared_credit_limit) :
    Balanced cfg { m_last_borrower := last } 0 := by
  refine ⟨?_, ?_, ?_, ?_, ?_, rfl⟩ <;> simp
  intro _
  exact hlimit

theorem borrow_credit (h : Balanced cfg m out) (hp : p < cfg.m_n_sub_partition_per_memory_channel)
    (hcredits : m.has_credits cfg p = true) :
    Balanced cfg (m.borrow_credit cfg p) (p ::ₘ out) := by
  have hrange : ∀ x ∈ p ::ₘ out, x < cfg.m_n_sub_partition_per_memory_channel := by
    intro x hx
    rcases Multiset.mem_cons.mp hx with rfl | hx
    · exact hp
    · exact h.in_range x hx
  have hcount : ∀ x, (Multiset.count x out : Int) ≤ Multiset.count x (p ::ₘ out) := by
    intro x
    exact_mod_cast Multiset.count_le_count_cons x p out
  unfold ArbitrationMetadata.borrow_credit
  dsimp only
  by_cases hfree : m.m_private_credit p < m_private_credit_limit
  · rw [if_pos hfree]
    have hzero : m.m_private_credit p = 0 := by
      unfold m_private_credit_limit at hfree
      rcases h.credit p with h0 | h1 <;> omega
    refine ⟨hrange, ?_, ?_, ?_, h.limit, h.failed⟩
    · intro x
      dsimp only
      by_cases hx : x = p
      · rw [hx, Function.update_self, hzero]
        exact Or.inr rfl
      · rw [Function.update_of_ne hx]
        exact h.credit x
    · intro x
      dsimp only
      by_cases hx : x = p
      · rw [hx, Function.update_self, hzero, Multiset.count_cons_self]
        omega
      · rw [Function.update_of_ne hx]
        exact (h.backed x).trans (hcount x)
    · have hchange := sum_update hp m.m_private_credit (m.m_private_credit p + 1)
      have hsum := h.sum
      rw [Multiset.card_cons]
      dsimp only
      push_cast
      omega
  · rw [if_neg hfree]
    unfold ArbitrationMetadata.has_credits at hcredits
    rw [decide_eq_false hfree, Bool.false_or] at hcredits
    rw [if_pos hcredits]
    refine ⟨hrange, h.credit, fun x => (h.backed x).trans (hcount x), ?_, ?_, h.failed⟩
    · have hsum := h.sum
      rw [Multiset.card_cons]
      dsimp only
      push_cast
      omega
    · intro hlimit
      have hless : m.m_shared_credit < cfg.m_shared_credit_limit :=
        (of_decide_eq_true hcredits).resolve_left hlimit
      dsimp only
      omega

theorem return_credit (h : Balanced cfg m out) (hp : p ∈ out) :
    Balanced cfg (m.return_credit p) (out.erase p) := by
  have hrange : ∀ x ∈ out.erase p, x < cfg.m_n_sub_partition_per_memory_channel :=
    fun x hx => h.in_range x (Multiset.mem_of_mem_erase hx)
  have hone : 1 ≤ Multiset.count p out := Multiset.one_le_count_iff_mem.mpr hp
  have hcard : ((Multiset.card (out.erase p) : Nat) : Int) = Multiset.card out - 1 := by
    have hpos := Multiset.card_pos_iff_exists_mem.mpr ⟨p, hp⟩
    rw [Multiset.card_erase_of_mem hp, Nat.pred_eq_sub_one]
    omega
  have hothers : ∀ x, x ≠ p → Multiset.count x (out.erase p) = Multiset.count x out :=
    fun x hx => Multiset.count_erase_of_ne hx out
  have hself : Multiset.count p (out.erase p) = Multiset.count p out - 1 :=
    Multiset.count_erase_self p out
  have hsum := h.sum
  have hprivate := h.credit p
  have hbacked := h.backed p
  suffices hcore : ∀ m' : ArbitrationMetadata,
      (∀ x, x ≠ p → m'.m_private_credit x = m.m_private_credit x) →
      (m'.m_private_credit p = 0) → m'.failed = m.failed →
      (∑ x ∈ Finset.range cfg.m_n_sub_partition_per_memory_channel, m'.m_private_credit x +
        m'.m_shared_credit = Multiset.card out - 1) → m'.m_shared_credit ≤ m.m_shared_credit →
      Balanced cfg { m' with failed := m'.failed || !decide (0 ≤ m'.m_shared_credit) }
        (out.erase p) by
    unfold ArbitrationMetadata.return_credit
    dsimp only
    by_cases hlent : 0 < m.m_private_credit p
    · rw [if_pos hlent]
      apply hcore
      · intro x hx
        exact Function.update_of_ne hx _ _
      · dsimp only
        rw [Function.update_self]
        omega
      · rfl
      · have hchange := sum_update (h.in_range p hp) m.m_private_credit (m.m_private_credit p - 1)
        dsimp only
        omega
      · exact le_rfl
    · rw [if_neg hlent]
      apply hcore
      · intro x _
        rfl
      · dsimp only
        omega
      · rfl
      · dsimp only
        omega
      · dsimp only
        omega
  intro m' hsame hzero hfailed hsum' hshared
  have hbefore : Balanced cfg { m' with failed := false } (out.erase p) := by
    refine ⟨hrange, ?_, ?_, ?_, ?_, rfl⟩
    · intro x
      dsimp only
      by_cases hx : x = p
      · rw [hx]
        exact Or.inl hzero
      · rw [hsame x hx]
        exact h.credit x
    · intro x
      dsimp only
      by_cases hx : x = p
      · rw [hx, hzero]
        omega
      · rw [hsame x hx, hothers x hx]
        exact h.backed x
    · rw [hcard]
      exact hsum'
    · intro hlimit
      exact hshared.trans (h.limit hlimit)
  have hnonneg : 0 ≤ m'.m_shared_credit := hbefore.shared_nonneg
  refine ⟨hbefore.in_range, hbefore.credit, hbefore.backed, hbefore.sum, hbefore.limit, ?_⟩
  dsimp only
  rw [hfailed, h.failed, decide_eq_true hnonneg]
  rfl

end Balanced

/-! ## The partition keeps them -/

/-- The requests that were issued and did not come back to their sub partition. -/
def outstanding (s : MemoryPartition) : Multiset MemFetch :=
  (s.m_dram_latency_queue.map DramDelay.req : Multiset MemFetch) + s.m_dram + s.returnq

def localId (cfg : PartitionConfig) (mf : MemFetch) : Nat :=
  global_sub_partition_id_to_local_id cfg mf.sub_partition_id

/-- The invariant of a partition. -/
structure CreditsKept (cfg : PartitionConfig) (s : MemoryPartition) : Prop where
  balanced : Balanced cfg s.m_arbitration_metadata ((outstanding s).map (localId cfg))
  own : ∀ p, ∀ mf ∈ s.L2_dram_queue p,
    p < cfg.m_n_sub_partition_per_memory_channel ∧ mf.sub_partition_id = get_id cfg p
  no_write_back : ∀ mf ∈ s.returnq, mf.isWriteBack = false

theorem localId_of_own {mf : MemFetch} {p : Nat} (h : mf.sub_partition_id = get_id cfg p) :
    localId cfg mf = p := by
  unfold localId global_sub_partition_id_to_local_id
  rw [h]
  unfold get_id
  omega

/-- The queues toward DRAM and those around it are left alone. -/
structure SparesRequests (s s' : MemoryPartition) : Prop where
  m_dram_latency_queue : s'.m_dram_latency_queue = s.m_dram_latency_queue
  m_dram : s'.m_dram = s.m_dram
  returnq : s'.returnq = s.returnq
  L2_dram_queue : s'.L2_dram_queue = s.L2_dram_queue

theorem set_done_spares (s : MemoryPartition) (mf : MemFetch) :
    SparesRequests s (set_done cfg s mf) := by
  unfold set_done
  dsimp only
  split <;> exact ⟨rfl, rfl, rfl, rfl⟩

theorem replyToL2_spares (s : MemoryPartition) (mf : MemFetch) :
    SparesRequests s (replyToL2 cfg s mf).1 := by
  unfold replyToL2
  dsimp only
  split
  · exact ⟨rfl, rfl, rfl, rfl⟩
  · split <;> exact ⟨rfl, rfl, rfl, rfl⟩

namespace CreditsKept

variable {s s' : MemoryPartition}

/-- The requests move between the queues. -/
theorem moved (h : CreditsKept cfg s) (hout : outstanding s' = outstanding s)
    (harb : s'.m_arbitration_metadata = s.m_arbitration_metadata)
    (hqueue : s'.L2_dram_queue = s.L2_dram_queue)
    (hreturn : ∀ mf ∈ s'.returnq, mf.isWriteBack = false) : CreditsKept cfg s' := by
  refine ⟨?_, ?_, hreturn⟩
  · rw [harb, hout]
    exact h.balanced
  · rw [hqueue]
    exact h.own

/-- A request leaves and gives a credit back. -/
theorem leaves (h : CreditsKept cfg s) {mf : MemFetch} (hout : outstanding s = mf ::ₘ outstanding s')
    (harb : s'.m_arbitration_metadata = s.m_arbitration_metadata.return_credit (localId cfg mf))
    (hqueue : s'.L2_dram_queue = s.L2_dram_queue)
    (hreturn : ∀ mf ∈ s'.returnq, mf.isWriteBack = false) : CreditsKept cfg s' := by
  have hbefore := h.balanced
  rw [hout, Multiset.map_cons] at hbefore
  refine ⟨?_, ?_, hreturn⟩
  · have hafter := hbefore.return_credit (Multiset.mem_cons_self _ _)
    rw [Multiset.erase_cons_head] at hafter
    rw [harb]
    exact hafter
  · rw [hqueue]
    exact h.own

/-- A reply that is taken gives the credit back, and no other does. -/
theorem replyToL2_credit {mf : MemFetch} (hwb : mf.isWriteBack = false) :
    (replyToL2 cfg s mf).1.m_arbitration_metadata =
      if (replyToL2 cfg s mf).2 then s.m_arbitration_metadata.return_credit (localId cfg mf)
      else s.m_arbitration_metadata := by
  have htype : mf.type ≠ .L1_WRBK_ACC := by
    intro htype
    simp [MemFetch.isWriteBack, htype] at hwb
  unfold replyToL2
  dsimp only
  split
  · rfl
  · rfl

theorem set_done_credit {mf : MemFetch} (hwb : mf.isWriteBack = true) :
    (set_done cfg s mf).m_arbitration_metadata =
      s.m_arbitration_metadata.return_credit (localId cfg mf) := by
  unfold set_done
  dsimp only
  rw [if_pos hwb]
  rfl

theorem issue (h : CreditsKept cfg s) (full : Bool → Bool) (now : Nat) (order : List Nat) :
    CreditsKept cfg (issue cfg full now order s) := by
  induction order with
  | nil => exact h
  | cons spid rest ih =>
    unfold memory_partition_unit.issue
    cases hqueue : s.L2_dram_queue spid with
    | nil => exact ih
    | cons mf mfs =>
      dsimp only
      by_cases hcan : can_issue_to_dram cfg s spid = true
      · rw [if_pos hcan]
        split
        · exact h
        · obtain ⟨hrange, hown⟩ := h.own spid mf (by rw [hqueue]; exact List.mem_cons_self)
          unfold can_issue_to_dram at hcan
          rw [Bool.and_eq_true] at hcan
          refine ⟨?_, ?_, h.no_write_back⟩
          · have hborrowed := h.balanced.borrow_credit hrange hcan.1
            have hout : outstanding { s with
                L2_dram_queue := Function.update s.L2_dram_queue spid mfs
                m_dram_latency_queue :=
                  s.m_dram_latency_queue ++ [{ ready_cycle := now + cfg.dram_latency, req := mf }]
                m_arbitration_metadata := s.m_arbitration_metadata.borrow_credit cfg spid } =
                mf ::ₘ outstanding s := by
              simp only [outstanding, List.map_append, List.map_cons, List.map_nil,
                ← Multiset.coe_add, Multiset.coe_singleton, ← Multiset.singleton_add]
              abel
            rw [hout, Multiset.map_cons, localId_of_own hown]
            exact hborrowed
          · intro p x hx
            apply h.own p x
            dsimp only at hx
            by_cases hp : p = spid
            · subst hp
              rw [Function.update_self] at hx
              rw [hqueue]
              exact List.mem_cons_of_mem _ hx
            · rwa [Function.update_of_ne hp] at hx
      · rw [if_neg hcan]
        exact ih

theorem simple_dram_model_cycle (h : CreditsKept cfg s) (full : Bool → Bool) (now : Nat) :
    CreditsKept cfg (simple_dram_model_cycle cfg s full now) := by
  unfold memory_partition_unit.simple_dram_model_cycle
  dsimp only
  apply issue
  split
  · exact h
  · rename_i d rest hfront
    have hout : ∀ s1, SparesRequests s s1 →
        outstanding s = d.req ::ₘ outstanding { s1 with m_dram_latency_queue := rest } := by
      intro s1 h1
      unfold outstanding
      rw [hfront, h1.m_dram, h1.returnq, List.map_cons, ← Multiset.cons_coe, Multiset.cons_add,
        Multiset.cons_add]
    split
    · by_cases hwb : d.req.isWriteBack = true
      · rw [if_pos hwb]
        have hspares : SparesRequests s (set_done cfg s d.req) := set_done_spares s d.req
        apply h.leaves (hout _ hspares) (set_done_credit hwb) hspares.L2_dram_queue
        rw [hspares.returnq]
        exact h.no_write_back
      · rw [if_neg hwb]
        have hspares : SparesRequests s (replyToL2 cfg s d.req).1 := replyToL2_spares s d.req
        have hcredit : (replyToL2 cfg s d.req).1.m_arbitration_metadata = _ :=
          replyToL2_credit (Bool.eq_false_iff.mpr hwb)
        have hreturn : ∀ mf ∈ (replyToL2 cfg s d.req).1.returnq, mf.isWriteBack = false := by
          rw [hspares.returnq]
          exact h.no_write_back
        split
        · rename_i htaken
          rw [if_pos htaken] at hcredit
          exact h.leaves (hout _ hspares) hcredit hspares.L2_dram_queue hreturn
        · rename_i hrefused
          rw [if_neg hrefused] at hcredit
          apply h.moved _ hcredit hspares.L2_dram_queue hreturn
          unfold outstanding
          rw [hspares.m_dram_latency_queue, hspares.m_dram, hspares.returnq]
    · exact h

theorem completed (h : CreditsKept cfg s) (mf : MemFetch) : CreditsKept cfg (completed cfg s mf) := by
  unfold memory_partition_unit.completed
  split
  · rename_i hmem
    have hdram : (s.m_dram : Multiset MemFetch) = mf ::ₘ (s.m_dram.erase mf : Multiset MemFetch) := by
      rw [Multiset.cons_coe]
      exact Multiset.coe_eq_coe.mpr (List.perm_cons_erase hmem)
    dsimp only
    split
    · rename_i hwb
      have hspares : SparesRequests { s with m_dram := s.m_dram.erase mf }
          (set_done cfg { s with m_dram := s.m_dram.erase mf } mf) := set_done_spares _ mf
      have hcredit : (set_done cfg { s with m_dram := s.m_dram.erase mf } mf).m_arbitration_metadata =
          _ := set_done_credit hwb
      apply h.leaves _ hcredit hspares.L2_dram_queue
      · rw [hspares.returnq]
        exact h.no_write_back
      · unfold outstanding
        rw [hspares.m_dram_latency_queue, hspares.m_dram, hspares.returnq, hdram, Multiset.add_cons,
          Multiset.cons_add]
    · rename_i hwb
      refine h.moved ?_ rfl rfl ?_
      · unfold outstanding
        dsimp only
        rw [hdram, ← Multiset.coe_add, Multiset.coe_singleton, ← Multiset.singleton_add]
        abel
      · intro x hx
        rcases List.mem_append.mp hx with hx | hx
        · exact h.no_write_back x hx
        · rw [List.mem_singleton.mp hx]
          exact Bool.eq_false_iff.mpr hwb
  · exact h

/-- The reply at the front of the return queue goes to its sub partition. -/
theorem reply (h : CreditsKept cfg s) {mf : MemFetch} {rest : List MemFetch}
    (hfront : s.returnq = mf :: rest) :
    CreditsKept cfg
      (if (replyToL2 cfg s mf).2 then { (replyToL2 cfg s mf).1 with returnq := rest }
        else (replyToL2 cfg s mf).1) := by
  have hwb : mf.isWriteBack = false := h.no_write_back mf (by rw [hfront]; exact List.mem_cons_self)
  have hspares : SparesRequests s (replyToL2 cfg s mf).1 := replyToL2_spares s mf
  have hcredit : (replyToL2 cfg s mf).1.m_arbitration_metadata = _ := replyToL2_credit hwb
  split
  · rename_i htaken
    rw [if_pos htaken] at hcredit
    refine h.leaves ?_ hcredit hspares.L2_dram_queue ?_
    · unfold outstanding
      dsimp only
      rw [hspares.m_dram_latency_queue, hspares.m_dram, hfront, ← Multiset.cons_coe,
        Multiset.add_cons]
    · intro x hx
      apply h.no_write_back x
      rw [hfront]
      exact List.mem_cons_of_mem _ hx
  · rename_i hrefused
    rw [if_neg hrefused] at hcredit
    apply h.moved _ hcredit hspares.L2_dram_queue
    · rw [hspares.returnq]
      exact h.no_write_back
    · unfold outstanding
      rw [hspares.m_dram_latency_queue, hspares.m_dram, hspares.returnq]

theorem dram_cycle (h : CreditsKept cfg s) (full : Bool → Bool) (now : Nat) (done : List MemFetch) :
    CreditsKept cfg (dram_cycle cfg s full now done) := by
  have hfold : ∀ (mfs : List MemFetch) (s1 : MemoryPartition), CreditsKept cfg s1 →
      CreditsKept cfg (mfs.foldl (memory_partition_unit.completed cfg) s1) := by
    intro mfs
    induction mfs with
    | nil => exact fun _ h1 => h1
    | cons mf mfs ih => exact fun s1 h1 => ih _ (h1.completed mf)
  have hpush : ∀ s1 : MemoryPartition, CreditsKept cfg s1 → CreditsKept cfg
      (match s1.m_dram_latency_queue with
        | [] => s1
        | d :: rest =>
          if d.ready_cycle ≤ now ∧ full d.req.is_write = false then
            { s1 with m_dram_latency_queue := rest, m_dram := s1.m_dram ++ [d.req] }
          else s1) := by
    intro s1 h1
    split
    · exact h1
    · rename_i d rest hfront
      split
      · refine h1.moved ?_ rfl rfl h1.no_write_back
        unfold outstanding
        dsimp only
        rw [hfront, List.map_cons, ← Multiset.coe_add, Multiset.coe_singleton, ← Multiset.cons_coe,
          ← Multiset.singleton_add]
        abel
      · exact h1
  unfold memory_partition_unit.dram_cycle
  dsimp only
  apply hpush
  apply issue
  apply hfold
  split
  · exact h
  · rename_i mf rest hfront
    exact h.reply hfront

theorem step (h : CreditsKept cfg s) {a : PartitionAction} (hcan : canHappen cfg a = true) :
    CreditsKept cfg (happens cfg s a) := by
  cases a with
  | L2_dram_queue_push spid mf =>
    refine ⟨h.balanced, ?_, h.no_write_back⟩
    intro p x hx
    simp only [happens] at hx
    by_cases hp : p = spid
    · subst hp
      rw [Function.update_self] at hx
      rcases List.mem_append.mp hx with hx | hx
      · exact h.own p x hx
      · rw [List.mem_singleton.mp hx]
        exact of_decide_eq_true hcan
    · rw [Function.update_of_ne hp] at hx
      exact h.own p x hx
  | dram_L2_queue_pop spid => exact h.moved rfl rfl rfl h.no_write_back
  | simple_dram_model_cycle full now => exact h.simple_dram_model_cycle full now
  | dram_cycle full now done => exact h.dram_cycle full now done

end CreditsKept

/-- What the arbitration of a partition keeps. -/
structure CreditsConserved (cfg : PartitionConfig) (s : MemoryPartition) : Prop where
  sum : ∑ p ∈ Finset.range cfg.m_n_sub_partition_per_memory_channel,
      s.m_arbitration_metadata.m_private_credit p + s.m_arbitration_metadata.m_shared_credit =
    s.m_dram_latency_queue.length + s.m_dram.length + s.returnq.length
  private_credit : ∀ p, s.m_arbitration_metadata.m_private_credit p = 0 ∨
    s.m_arbitration_metadata.m_private_credit p = 1
  shared_nonneg : 0 ≤ s.m_arbitration_metadata.m_shared_credit
  shared_limit : cfg.m_shared_credit_limit ≠ 0 →
    s.m_arbitration_metadata.m_shared_credit ≤ cfg.m_shared_credit_limit
  no_assertion : s.m_arbitration_metadata.failed = false

/-- In every run of a partition the credits that are lent are those of the requests that
are out, and no assertion of the arbitration fails. The hypothesis is the assertion of its
constructor. -/
theorem dram_credits_are_conserved {cfg : PartitionConfig} (hlimit : 0 ≤ cfg.m_shared_credit_limit)
    {s : MemoryPartition} (hr : PartitionReach cfg s) : CreditsConserved cfg s := by
  have hkept : CreditsKept cfg s := by
    induction hr with
    | start =>
      refine ⟨Balanced.empty cfg _ hlimit, ?_, ?_⟩
      · intro p mf hmf
        cases hmf
      · intro mf hmf
        cases hmf
    | step _ hn ih =>
      obtain ⟨a, hcan, rfl⟩ := hn
      exact ih.step hcan
  have hsum := hkept.balanced.sum
  have hcard : Multiset.card ((outstanding s).map (localId cfg)) =
      s.m_dram_latency_queue.length + s.m_dram.length + s.returnq.length := by
    simp [outstanding, Nat.add_assoc]
  rw [hcard] at hsum
  refine ⟨?_, hkept.balanced.credit, hkept.balanced.shared_nonneg, hkept.balanced.limit,
    hkept.balanced.failed⟩
  exact_mod_cast hsum

def twoSubPartitions : PartitionConfig where
  m_id := 1
  m_n_sub_partition_per_memory_channel := 2
  gpgpu_frfcfs_dram_sched_queue_size := 4
  gpgpu_dram_return_queue_size := 4
  gpgpu_frfcfs_dram_write_queue_size := 0
  seperate_write_queue_enabled := false
  dram_latency := 1
  dram_L2 := 2

def loadOf (id : Nat) : MemFetch := { sub_partition_id := id, type := .GLOBAL_ACC_R, is_write := false }

def writeBackOf (id : Nat) : MemFetch := { sub_partition_id := id, type := .L2_WRBK_ACC, is_write := true }

/-- Three loads of one sub partition and a write-back of the other go to DRAM, and the
write-back and a load come back. -/
def fourRequests : List PartitionAction :=
  [.L2_dram_queue_push 0 (loadOf 2), .L2_dram_queue_push 0 (loadOf 2),
    .L2_dram_queue_push 0 (loadOf 2), .L2_dram_queue_push 1 (writeBackOf 3)] ++
    ((List.range 6).map fun now => .dram_cycle (fun _ => false) now []) ++
    [.dram_cycle (fun _ => false) 6 [writeBackOf 3, loadOf 2], .dram_cycle (fun _ => false) 7 []]

theorem dram_credits_are_conserved_by_four_requests :
    ((fourRequests.foldl (happens twoSubPartitions)
        (newPartition twoSubPartitions)).m_dram.length = 2 ∧
      (fourRequests.foldl (happens twoSubPartitions)
        (newPartition twoSubPartitions)).m_arbitration_metadata.m_shared_credit = 2) ∧
      CreditsConserved twoSubPartitions
        (fourRequests.foldl (happens twoSubPartitions) (newPartition twoSubPartitions)) :=
  ⟨by decide +kernel, dram_credits_are_conserved (by decide +kernel)
    (partitionReach_run .start (by decide +kernel))⟩

end gpgpu_sim_uvm.memory_partition_unit
