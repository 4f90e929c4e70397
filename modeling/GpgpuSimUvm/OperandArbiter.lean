-- The arbiter of the operand collectors (shader.h and shader.cc): one queue of reads for
-- each register bank, and a wavefront allocator that walks the diagonals of the matrix of
-- banks and collectors. Every bank that waits and is not written is reached.
import GpgpuSimUvm.StdMap
import Mathlib.Logic.Function.Basic
import Mathlib.Data.List.Range

namespace gpgpu_sim_uvm

namespace opndcoll_rfu_t

/-! ## The arbiter -/

/-- A read. The collector unit is its number, and gives the warp. -/
structure Op where
  oc_id : Nat
  m_operand : Nat
  m_register : Nat
  m_shced_id : Nat
deriving DecidableEq

inductive AllocT where
  | NO_ALLOC
  | READ_ALLOC
  | WRITE_ALLOC
deriving DecidableEq

def AllocT.is_free (t : AllocT) : Bool := t = .NO_ALLOC

def AllocT.is_write (t : AllocT) : Bool := t = .WRITE_ALLOC

structure Arbiter where
  m_num_banks : Nat
  m_num_collectors : Nat
  m_allocated_bank : Nat → AllocT
  m_queue : Nat → List Op
  m_last_cu : Nat

/-- The arrays of the allocator. In `inmatch` a bank that is written holds 0, which is
also the number of a collector. -/
structure Matching where
  inmatch : Nat → Int
  outmatch : Nat → Int
  request : Nat → Nat → Bool

/-- The arrays as each call clears them. -/
def Matching.clear : Matching where
  inmatch _ := -1
  outmatch _ := -1
  request _ _ := false

/-- The request of the head of a queue, and the mark of a bank that is written. -/
def Arbiter.requestBank (a : Arbiter) (m : Matching) (i : Nat) : Option Matching :=
  let requested :=
    match a.m_queue i with
    | [] => some m
    | op :: _ =>
      if op.oc_id < a.m_num_collectors then
        some { m with
          request := Function.update m.request i (Function.update (m.request i) op.oc_id true) }
      else none
  requested.map fun m =>
    if (a.m_allocated_bank i).is_write then
      { m with inmatch := Function.update m.inmatch i 0 }
    else m

def Matching.grant (outputs : Nat) (m : Matching) (input output : Nat) : Matching :=
  if output < outputs ∧ m.inmatch input = -1 ∧ m.request input output = true then
    { m with
      inmatch := Function.update m.inmatch input output
      outmatch := Function.update m.outmatch output input }
  else m

/-- One diagonal, from the collector where it starts for bank 0. -/
def Matching.diagonal (inputs outputs : Nat) (m : Matching) (output : Nat) : Matching × Nat :=
  (List.range inputs).foldl
    (fun s input => (s.1.grant outputs input s.2, (s.2 + 1) % outputs)) (m, output)

def Matching.wavefront (inputs outputs square pri : Nat) (m : Matching) : Matching :=
  (List.range square).foldl
    (fun m p => (m.diagonal inputs outputs ((pri + p) % outputs)).1) m

/-- The head of a matched queue goes to the result. None is `front()` of an empty list. -/
def Matching.pop (m : Matching) (s : List Op × Arbiter) (i : Nat) : Option (List Op × Arbiter) :=
  if m.inmatch i ≠ -1 ∧ (s.2.m_allocated_bank i).is_write = false then
    match s.2.m_queue i with
    | [] => none
    | op :: rest => some (s.1 ++ [op], { s.2 with m_queue := Function.update s.2.m_queue i rest })
  else some s

/-- The reads that are granted, and the arbiter after the call. None is a failed
assertion. -/
def Arbiter.allocate_reads (a : Arbiter) : Option (List Op × Arbiter) :=
  let square := if a.m_num_banks > a.m_num_collectors then a.m_num_banks else a.m_num_collectors
  if 0 < square then
    ((List.range a.m_num_banks).foldlM a.requestBank Matching.clear).bind fun m =>
      let m := m.wavefront a.m_num_banks a.m_num_collectors square a.m_last_cu
      (List.range a.m_num_banks).foldlM m.pop
        ([], { a with m_last_cu := (a.m_last_cu + 1) % a.m_num_collectors })
  else none

/-! ## The collector -/

/-- Where a register lies. None is a bank that does not exist. -/
def register_bank (regnum wid num_banks bank_warp_shift : Nat) (sub_core_model : Bool)
    (banks_per_sched sched_id : Nat) : Option Nat :=
  let bank := if bank_warp_shift ≠ 0 then regnum + wid else regnum
  if sub_core_model then
    let bank_num := bank % banks_per_sched + sched_id * banks_per_sched
    if bank_num < num_banks then some bank_num else none
  else some (bank % num_banks)

structure CollectorUnit where
  m_warp_id : Nat
  m_not_ready : Nat → Bool

structure Collector where
  m_arbiter : Arbiter
  m_cu : Nat → CollectorUnit
  m_bank_warp_shift : Nat
  sub_core_model : Bool
  m_num_banks_per_sched : Nat

/-- The bank that the collector computes for a read. -/
def Collector.bankOf (s : Collector) (op : Op) : Option Nat :=
  register_bank op.m_register (s.m_cu op.oc_id).m_warp_id s.m_arbiter.m_num_banks
    s.m_bank_warp_shift s.sub_core_model s.m_num_banks_per_sched op.m_shced_id

def Arbiter.allocate_for_read (a : Arbiter) (bank : Nat) : Option Arbiter :=
  if bank < a.m_num_banks ∧ (a.m_allocated_bank bank).is_free = true then
    some { a with m_allocated_bank := Function.update a.m_allocated_bank bank .READ_ALLOC }
  else none

def Collector.collect_operand (s : Collector) (op : Op) : Collector :=
  { s with m_cu := Function.update s.m_cu op.oc_id { s.m_cu op.oc_id with
      m_not_ready := Function.update (s.m_cu op.oc_id).m_not_ready op.m_operand false } }

/-- A granted read takes its bank. -/
def Collector.takeBank (s : Collector × StdMap Nat Op) (op : Op) :
    Option (Collector × StdMap Nat Op) :=
  (s.1.bankOf op).bind fun bank =>
    (s.1.m_arbiter.allocate_for_read bank).map fun a =>
      ({ s.1 with m_arbiter := a }, s.2.alter bank op fun _ => op)

def Collector.allocate_reads (s : Collector) : Option Collector :=
  s.m_arbiter.allocate_reads.bind fun r =>
    (r.1.foldlM Collector.takeBank ({ s with m_arbiter := r.2 }, StdMap.empty)).map fun t =>
      t.2.values.foldl Collector.collect_operand t.1

/-! ## The matrix -/

/-- The reads that a bank gives: its head, unless it is written. -/
def Arbiter.granted (a : Arbiter) (i : Nat) : List Op :=
  if (a.m_allocated_bank i).is_write then [] else (a.m_queue i).take 1

/-- The arrays after the first loop, over the banks below `n`. -/
structure Requested (a : Arbiter) (n : Nat) (m : Matching) : Prop where
  inmatch : ∀ i, m.inmatch i = if i < n ∧ (a.m_allocated_bank i).is_write = true then 0 else -1
  request : ∀ i o, m.request i o = true ↔ i < n ∧ ∃ op ∈ (a.m_queue i).head?, op.oc_id = o

theorem Requested.bank {a : Arbiter} {n : Nat} {m : Matching} (h : Requested a n m)
    (hheads : ∀ op ∈ (a.m_queue n).head?, op.oc_id < a.m_num_collectors) :
    ∃ m', a.requestBank m n = some m' ∧ Requested a (n + 1) m' := by
  -- the row of the bank is still clear
  have hrow : ∀ o, m.request n o = false := by
    intro o
    rw [← Bool.not_eq_true, h.request]
    omega
  have hrequested : ∃ m₁, (match a.m_queue n with
      | [] => some m
      | op :: _ =>
        if op.oc_id < a.m_num_collectors then
          some { m with
            request := Function.update m.request n (Function.update (m.request n) op.oc_id true) }
        else none) = some m₁ ∧ m₁.inmatch = m.inmatch ∧
      ∀ i o, m₁.request i o = true ↔ i < n + 1 ∧ ∃ op ∈ (a.m_queue i).head?, op.oc_id = o := by
    cases hq : a.m_queue n with
    | nil =>
      refine ⟨m, rfl, rfl, fun i o => ?_⟩
      rw [h.request]
      by_cases hi : i = n
      · simp [hi, hq]
      · simp [show i < n + 1 ↔ i < n by omega]
    | cons op rest =>
      refine ⟨_, if_pos (hheads op (by simp [hq])), rfl, fun i o => ?_⟩
      by_cases hi : i = n
      · subst hi
        by_cases ho : o = op.oc_id
        · simp [hq, ho]
        · simp [hq, ho, hrow, Ne.symm ho]
      · simp [hi, h.request, show i < n + 1 ↔ i < n by omega]
  obtain ⟨m₁, hm₁, hin, hreq⟩ := hrequested
  unfold Arbiter.requestBank
  rw [hm₁]
  refine ⟨_, rfl, fun i => ?_, fun i o => ?_⟩
  · by_cases hi : i = n
    · subst hi
      split <;> simp [*, h.inmatch]
    · split <;> simp [hi, hin, h.inmatch, show i < n + 1 ↔ i < n by omega]
  · rw [← hreq]
    split <;> rfl

theorem requests_of_heads {a : Arbiter} {n : Nat}
    (h : ∀ i < n, ∀ op ∈ (a.m_queue i).head?, op.oc_id < a.m_num_collectors) :
    ∃ m, (List.range n).foldlM a.requestBank Matching.clear = some m ∧ Requested a n m := by
  induction n with
  | zero => exact ⟨_, rfl, by simp [Matching.clear], by simp [Matching.clear]⟩
  | succ n ih =>
    obtain ⟨m, hm, hrequested⟩ := ih fun i hi => h i (by omega)
    obtain ⟨m', hm', hrequested'⟩ := hrequested.bank (h n (by omega))
    refine ⟨m', ?_, hrequested'⟩
    rw [List.range_succ, List.foldlM_append, hm]
    simp [hm']

/-! ## The diagonals -/

/-- A diagonal grants each free bank the collector that it crosses there. -/
theorem diagonal_grants {outputs output : Nat} (hout : output < outputs) (m : Matching)
    (n : Nat) :
    (m.diagonal n outputs output).2 = (output + n) % outputs ∧
      (m.diagonal n outputs output).1.request = m.request ∧
      ∀ i, (m.diagonal n outputs output).1.inmatch i =
        if i < n ∧ m.inmatch i = -1 ∧ m.request i ((output + i) % outputs) = true then
          (((output + i) % outputs : Nat) : Int)
        else m.inmatch i := by
  induction n with
  | zero => exact ⟨(Nat.mod_eq_of_lt hout).symm, rfl, fun i => by simp [Matching.diagonal]⟩
  | succ n ih =>
    obtain ⟨hnext, hreq, hin⟩ := ih
    have hstep : m.diagonal (n + 1) outputs output =
        ((m.diagonal n outputs output).1.grant outputs n ((output + n) % outputs),
          ((output + n) % outputs + 1) % outputs) := by
      unfold Matching.diagonal at hnext ⊢
      rw [List.range_succ, List.foldl_append, List.foldl_cons, List.foldl_nil, hnext]
    have hlt : (output + n) % outputs < outputs := Nat.mod_lt _ (by omega)
    rw [hstep]
    refine ⟨by simp [Nat.add_assoc], ?_, fun i => ?_⟩
    · unfold Matching.grant
      split <;> exact hreq
    · have hself : (m.diagonal n outputs output).1.inmatch n = m.inmatch n := by
        rw [hin, if_neg (by omega)]
      unfold Matching.grant
      by_cases hi : i = n
      · subst hi
        simp only [hlt, hself, hreq, true_and, Nat.lt_succ_self]
        split
        · simp
        · exact hself
      · simp only [show i < n + 1 ↔ i < n by omega]
        rw [← hin]
        split
        · simp [hi]
        · rfl

theorem wavefront_grants {inputs outputs pri : Nat} (hout : 0 < outputs) (m : Matching) (n : Nat) :
    (m.wavefront inputs outputs n pri).request = m.request ∧
      ∀ i, (m.wavefront inputs outputs n pri).inmatch i ≠ -1 ↔ m.inmatch i ≠ -1 ∨
        i < inputs ∧ ∃ p < n, m.request i ((pri + i + p) % outputs) = true := by
  induction n with
  | zero => exact ⟨rfl, fun i => by simp [Matching.wavefront]⟩
  | succ n ih =>
    obtain ⟨hreq, hin⟩ := ih
    have hstep : m.wavefront inputs outputs (n + 1) pri =
        ((m.wavefront inputs outputs n pri).diagonal inputs outputs ((pri + n) % outputs)).1 := by
      unfold Matching.wavefront
      rw [List.range_succ, List.foldl_append, List.foldl_cons, List.foldl_nil]
    obtain ⟨-, hreq', hin'⟩ := diagonal_grants (Nat.mod_lt (pri + n) hout)
      (m.wavefront inputs outputs n pri) inputs
    rw [hstep]
    refine ⟨hreq'.trans hreq, fun i => ?_⟩
    have hcolumn : ((pri + n) % outputs + i) % outputs = (pri + i + n) % outputs := by
      rw [Nat.mod_add_mod]
      congr 1
      omega
    have hsplit : (∃ p < n + 1, m.request i ((pri + i + p) % outputs) = true) ↔
        (∃ p < n, m.request i ((pri + i + p) % outputs) = true) ∨
          m.request i ((pri + i + n) % outputs) = true := by
      constructor
      · rintro ⟨p, hp, hcross⟩
        by_cases hpn : p = n
        · exact .inr (hpn ▸ hcross)
        · exact .inl ⟨p, by omega, hcross⟩
      · rintro (⟨p, hp, hcross⟩ | hcross)
        · exact ⟨p, by omega, hcross⟩
        · exact ⟨n, by omega, hcross⟩
    rw [hin', hcolumn, hreq, hsplit, and_or_left, ← or_assoc, ← hin]
    split
    · rename_i hgrant
      have hmatched : (((pri + i + n) % outputs : Nat) : Int) ≠ -1 := by omega
      exact iff_of_true hmatched (.inr ⟨hgrant.1, hgrant.2.2⟩)
    · rename_i hgrant
      constructor
      · exact .inl
      · rintro (hold | ⟨hi, hnew⟩)
        · exact hold
        · exact fun hfree => hgrant ⟨hi, hfree, hnew⟩

/-- As many diagonals as there are columns meet every column. -/
theorem every_column_is_met {outputs o : Nat} (ho : o < outputs) (k : Nat) :
    ∃ p < outputs, (k + p) % outputs = o := by
  have hlt : k % outputs < outputs := Nat.mod_lt _ (by omega)
  refine ⟨(o + (outputs - k % outputs)) % outputs, Nat.mod_lt _ (by omega), ?_⟩
  have hsum : k + (o + (outputs - k % outputs)) = o + outputs * (k / outputs + 1) := by
    have := Nat.div_add_mod k outputs
    rw [Nat.mul_add]
    omega
  rw [Nat.add_mod_mod, hsum, Nat.add_mul_mod_self_left, Nat.mod_eq_of_lt ho]

/-- The banks that are matched at the end: those that are written, and those that wait. -/
theorem matched_iff {a : Arbiter} {m : Matching} {square : Nat} (hm : Requested a a.m_num_banks m)
    (hout : 0 < a.m_num_collectors) (hsquare : a.m_num_collectors ≤ square)
    (hheads : ∀ i < a.m_num_banks, ∀ op ∈ (a.m_queue i).head?, op.oc_id < a.m_num_collectors)
    {i : Nat} (hi : i < a.m_num_banks) :
    (m.wavefront a.m_num_banks a.m_num_collectors square a.m_last_cu).inmatch i ≠ -1 ↔
      (a.m_allocated_bank i).is_write = true ∨ a.m_queue i ≠ [] := by
  rw [(wavefront_grants hout m square).2]
  refine or_congr ?_ ?_
  · rw [hm.inmatch]
    simp [hi]
  · constructor
    · rintro ⟨-, p, -, hreq⟩ hnil
      simp [hm.request, hnil] at hreq
    · intro hne
      obtain ⟨op, rest, hq⟩ := List.exists_cons_of_ne_nil hne
      have hop : op ∈ (a.m_queue i).head? := by simp [hq]
      obtain ⟨p, hp, hcolumn⟩ := every_column_is_met (hheads i hi op hop) (a.m_last_cu + i)
      exact ⟨hi, p, by omega, (hm.request _ _).mpr ⟨hi, op, hop, hcolumn.symm⟩⟩

/-! ## The reads -/

/-- The arbiter when the banks below `n` have given their heads. -/
def Arbiter.popped (a : Arbiter) (n : Nat) : Arbiter :=
  { a with m_queue := fun i =>
      if i < n ∧ (a.m_allocated_bank i).is_write = false then (a.m_queue i).tail
      else a.m_queue i }

theorem popped_zero (a : Arbiter) : a.popped 0 = a := by
  simp [Arbiter.popped]

theorem popped_succ (a : Arbiter) (n : Nat) {q : Nat → List Op}
    (hself : q n = if (a.m_allocated_bank n).is_write = false then (a.m_queue n).tail
      else a.m_queue n)
    (hothers : ∀ i, i ≠ n → q i = (a.popped n).m_queue i) :
    a.popped (n + 1) = { a.popped n with m_queue := q } := by
  unfold Arbiter.popped
  congr
  funext i
  by_cases hi : i = n
  · subst hi
    simp [hself]
  · rw [hothers i hi]
    simp [Arbiter.popped, show i < n + 1 ↔ i < n by omega]

theorem pop_popped {a : Arbiter} {m : Matching} {n : Nat}
    (h : m.inmatch n ≠ -1 ↔ (a.m_allocated_bank n).is_write = true ∨ a.m_queue n ≠ [])
    (reads : List Op) :
    m.pop (reads, a.popped n) n = some (reads ++ a.granted n, a.popped (n + 1)) := by
  have hstart : (a.popped n).m_queue n = a.m_queue n := by simp [Arbiter.popped]
  have hallocated : (a.popped n).m_allocated_bank = a.m_allocated_bank := rfl
  unfold Matching.pop Arbiter.granted
  simp only [hallocated, hstart]
  cases hw : (a.m_allocated_bank n).is_write with
  | true =>
    rw [popped_succ a n (q := (a.popped n).m_queue) (by simp [hw, hstart]) fun i _ => rfl]
    simp
  | false =>
    cases hq : a.m_queue n with
    | nil =>
      rw [popped_succ a n (q := (a.popped n).m_queue) (by simp [hw, hstart, hq]) fun i _ => rfl,
        if_neg (by simp [h, hw, hq])]
      simp
    | cons op rest =>
      rw [popped_succ a n (q := Function.update (a.popped n).m_queue n rest) (by simp [hw, hq])
          fun i hi => Function.update_of_ne hi _ _,
        if_pos ⟨h.mpr (.inr (by simp [hq])), rfl⟩]
      simp [hallocated]

theorem pops {a : Arbiter} {m : Matching} {n : Nat}
    (h : ∀ i < n, m.inmatch i ≠ -1 ↔ (a.m_allocated_bank i).is_write = true ∨ a.m_queue i ≠ []) :
    (List.range n).foldlM m.pop ([], a) =
      some ((List.range n).flatMap a.granted, a.popped n) := by
  induction n with
  | zero => simp [popped_zero]
  | succ n ih =>
    rw [List.range_succ, List.foldlM_append, ih fun i hi => h i (by omega), List.flatMap_append,
      List.flatMap_singleton]
    simp [pop_popped (h n (by omega))]

/-- What a round of arbitration does: each bank gives at most its head, and none if it is
written; these are the reads that are returned, and all else stays in its queue. -/
structure Arbitrated (a : Arbiter) (reads : List Op) (a' : Arbiter) : Prop where
  reads : reads = (List.range a.m_num_banks).flatMap a.granted
  queues : ∀ i, a.m_queue i = (if i < a.m_num_banks then a.granted i else []) ++ a'.m_queue i
  m_last_cu : a'.m_last_cu < a.m_num_collectors
  num_banks : a'.m_num_banks = a.m_num_banks
  num_collectors : a'.m_num_collectors = a.m_num_collectors
  allocated : a'.m_allocated_bank = a.m_allocated_bank

theorem arbitrated {a : Arbiter} (hout : 0 < a.m_num_collectors)
    (hheads : ∀ i < a.m_num_banks, ∀ op ∈ (a.m_queue i).head?, op.oc_id < a.m_num_collectors) :
    ∃ reads a', a.allocate_reads = some (reads, a') ∧ Arbitrated a reads a' := by
  obtain ⟨m, hm, hrequested⟩ := requests_of_heads hheads
  have hsquare : a.m_num_collectors ≤
      if a.m_num_banks > a.m_num_collectors then a.m_num_banks else a.m_num_collectors := by
    split <;> omega
  have hmatched := fun i (hi : i < a.m_num_banks) => matched_iff hrequested hout hsquare hheads hi
  have hpops := pops (a := { a with m_last_cu := (a.m_last_cu + 1) % a.m_num_collectors }) hmatched
  unfold Arbiter.allocate_reads
  rw [if_pos (by omega), hm]
  refine ⟨_, _, hpops, rfl, fun i => ?_, Nat.mod_lt _ hout, rfl, rfl, rfl⟩
  unfold Arbiter.granted Arbiter.popped
  by_cases hi : i < a.m_num_banks
  · cases hw : (a.m_allocated_bank i).is_write <;> cases hq : a.m_queue i <;> simp [hi, hw, hq]
  · simp [hi]

/-- For all numbers of banks and collectors, where the collector units are numbered below
the number of collectors. -/
theorem reads_are_arbitrated (a : Arbiter) (hout : 0 < a.m_num_collectors)
    (hheads : ∀ i < a.m_num_banks, ∀ op ∈ (a.m_queue i).head?, op.oc_id < a.m_num_collectors) :
    ∃ reads a', a.allocate_reads = some (reads, a') ∧ Arbitrated a reads a' :=
  arbitrated hout hheads

theorem two_banks_are_arbitrated :
    ∃ reads a', (Arbiter.mk 2 1 (fun _ => .NO_ALLOC) (fun _ => [⟨0, 0, 4, 0⟩]) 0).allocate_reads =
        some (reads, a') ∧
      Arbitrated ⟨2, 1, fun _ => .NO_ALLOC, fun _ => [⟨0, 0, 4, 0⟩], 0⟩ reads a' := by
  refine reads_are_arbitrated ⟨2, 1, fun _ => .NO_ALLOC, fun _ => [⟨0, 0, 4, 0⟩], 0⟩ (by simp) ?_
  intro i _ op hop
  obtain rfl : op = ⟨0, 0, 4, 0⟩ := by simpa using hop.symm
  simp

/-! ## The operands -/

theorem granted_iff {a : Arbiter} {i : Nat} {op : Op} :
    op ∈ a.granted i ↔ (a.m_allocated_bank i).is_write = false ∧ op ∈ (a.m_queue i).head? := by
  unfold Arbiter.granted
  cases a.m_queue i <;> cases (a.m_allocated_bank i).is_write <;> simp [eq_comm]

theorem length_granted (a : Arbiter) (i : Nat) : (a.granted i).length ≤ 1 := by
  unfold Arbiter.granted
  split <;> simp

variable {s : Collector} {a : Arbiter} {reads : Nat → List Op} {n : Nat}

/-- The arbiter when the banks below `n` are taken by their reads. -/
def Arbiter.taken (a : Arbiter) (reads : Nat → List Op) (n : Nat) : Arbiter where
  m_num_banks := a.m_num_banks
  m_num_collectors := a.m_num_collectors
  m_allocated_bank i := if i < n ∧ reads i ≠ [] then .READ_ALLOC else a.m_allocated_bank i
  m_queue := a.m_queue
  m_last_cu := a.m_last_cu

/-- The banks below `n` with their reads. -/
structure Taken (s : Collector) (reads : Nat → List Op) (n : Nat)
    (t : Collector × StdMap Nat Op) : Prop where
  collector : t.1 = { s with m_arbiter := s.m_arbiter.taken reads n }
  values : t.2.values.Perm ((List.range n).flatMap reads)
  below : ∀ i, n ≤ i → t.2.find i = none

/-- A read may take a bank that is free and its own. -/
def Collector.MayTake (s : Collector) (reads : Nat → List Op) (i : Nat) : Prop :=
  (reads i).length ≤ 1 ∧ ∀ op ∈ reads i,
    s.bankOf op = some i ∧ (s.m_arbiter.m_allocated_bank i).is_free = true

theorem taken_succ_of_nil (h : reads n = []) : a.taken reads (n + 1) = a.taken reads n := by
  unfold Arbiter.taken
  congr
  funext i
  by_cases hi : i = n
  · simp [hi, h]
  · simp [show i < n + 1 ↔ i < n by omega]

theorem allocate_for_read_taken {op : Op} (h : reads n = [op]) (hn : n < a.m_num_banks)
    (hfree : (a.m_allocated_bank n).is_free = true) :
    (a.taken reads n).allocate_for_read n = some (a.taken reads (n + 1)) := by
  unfold Arbiter.allocate_for_read Arbiter.taken
  rw [if_pos ⟨hn, by simpa using hfree⟩]
  congr
  funext i
  by_cases hi : i = n
  · simp [hi, h]
  · simp [hi, show i < n + 1 ↔ i < n by omega]

theorem Taken.bank {t : Collector × StdMap Nat Op} (h : Taken s reads n t)
    (hn : n < s.m_arbiter.m_num_banks) (hmay : s.MayTake reads n) :
    ∃ t', (reads n).foldlM Collector.takeBank t = some t' ∧ Taken s reads (n + 1) t' := by
  obtain ⟨c, read_ops⟩ := t
  obtain ⟨rfl, hvalues, hbelow⟩ := h
  obtain ⟨hlen, hops⟩ := hmay
  have hrange : (List.range (n + 1)).flatMap reads = (List.range n).flatMap reads ++ reads n := by
    rw [List.range_succ, List.flatMap_append, List.flatMap_singleton]
  cases hreads : reads n with
  | nil =>
    refine ⟨_, rfl, by rw [taken_succ_of_nil hreads], ?_, fun i hi => hbelow i (by omega)⟩
    rw [hrange, hreads, List.append_nil]
    exact hvalues
  | cons op rest =>
    obtain rfl : rest = [] := by simpa [hreads] using hlen
    obtain ⟨hbank, hfree⟩ := hops op (by simp [hreads])
    have hbank' : ({ s with m_arbiter := s.m_arbiter.taken reads n } : Collector).bankOf op =
      some n := hbank
    refine ⟨({ s with m_arbiter := s.m_arbiter.taken reads (n + 1) },
      read_ops.alter n op fun _ => op), ?_, rfl, ?_, fun i hi => ?_⟩
    · rw [List.foldlM_cons, Collector.takeBank, hbank', Option.bind_some,
        allocate_for_read_taken hreads hn hfree]
      rfl
    · rw [hrange, hreads]
      have hnew := (read_ops.perm_alter_new op (fun _ => op) (hbelow n (Nat.le_refl n))).map Prod.snd
      exact hnew.trans ((hvalues.cons op).trans (List.perm_append_singleton op _).symm)
    · exact (read_ops.find_alter_ne op _ (by omega)).trans (hbelow i (by omega))

theorem takes_banks (hn : n ≤ s.m_arbiter.m_num_banks) (hmay : ∀ i < n, s.MayTake reads i) :
    ∃ t, ((List.range n).flatMap reads).foldlM Collector.takeBank (s, StdMap.empty) = some t ∧
      Taken s reads n t := by
  induction n with
  | zero =>
    exact ⟨_, rfl, by simp [Arbiter.taken], List.Perm.refl _, fun i _ => StdMap.find_empty i⟩
  | succ n ih =>
    obtain ⟨t, ht, htaken⟩ := ih (by omega) fun i hi => hmay i (by omega)
    obtain ⟨t', ht', htaken'⟩ := htaken.bank hn (hmay n (by omega))
    refine ⟨t', ?_, htaken'⟩
    rw [List.range_succ, List.flatMap_append, List.flatMap_singleton, List.foldlM_append, ht]
    exact ht'

theorem collected_iff (ops : List Op) (c o : Nat) :
    ((ops.foldl Collector.collect_operand s).m_cu c).m_not_ready o = true ↔
      (s.m_cu c).m_not_ready o = true ∧ ∀ op ∈ ops, ¬(op.oc_id = c ∧ op.m_operand = o) := by
  induction ops generalizing s with
  | nil => simp
  | cons op ops ih =>
    rw [List.foldl_cons, ih, List.forall_mem_cons, ← and_assoc]
    refine and_congr_left fun _ => ?_
    unfold Collector.collect_operand
    by_cases hc : op.oc_id = c
    · subst hc
      by_cases ho : op.m_operand = o
      · simp [ho]
      · simp [ho, Function.update_of_ne (Ne.symm ho)]
    · simp [hc, Function.update_of_ne (Ne.symm hc)]

theorem arbiter_of_collected (ops : List Op) :
    (ops.foldl Collector.collect_operand s).m_arbiter = s.m_arbiter := by
  induction ops generalizing s with
  | nil => rfl
  | cons op ops ih => exact ih

/-- The reads that leave their queues are the operands that become ready, and each takes
its bank. -/
structure Collected (s : Collector) (ops : List Op) (s' : Collector) : Prop where
  popped : ops = (List.range s.m_arbiter.m_num_banks).flatMap s.m_arbiter.granted
  queues : ∀ i, s.m_arbiter.m_queue i =
    (if i < s.m_arbiter.m_num_banks then s.m_arbiter.granted i else []) ++ s'.m_arbiter.m_queue i
  waiting : ∀ c o, (s'.m_cu c).m_not_ready o = true ↔
    (s.m_cu c).m_not_ready o = true ∧ ∀ op ∈ ops, ¬(op.oc_id = c ∧ op.m_operand = o)
  banks : ∀ i, s'.m_arbiter.m_allocated_bank i =
    if i < s.m_arbiter.m_num_banks ∧ s.m_arbiter.granted i ≠ [] then .READ_ALLOC
    else s.m_arbiter.m_allocated_bank i

/-- In a collector whose reads wait at their banks, and whose banks are free or written. -/
theorem operands_are_collected (s : Collector) (hout : 0 < s.m_arbiter.m_num_collectors)
    (hheads : ∀ i < s.m_arbiter.m_num_banks, ∀ op ∈ (s.m_arbiter.m_queue i).head?,
      op.oc_id < s.m_arbiter.m_num_collectors ∧ s.bankOf op = some i)
    (hfree : ∀ i < s.m_arbiter.m_num_banks, (s.m_arbiter.m_allocated_bank i).is_write = false →
      (s.m_arbiter.m_allocated_bank i).is_free = true) :
    ∃ ops s', s.allocate_reads = some s' ∧ Collected s ops s' := by
  obtain ⟨reads, a', hreads, harb⟩ :=
    arbitrated hout fun i hi op hop => (hheads i hi op hop).1
  have hmay : ∀ i < a'.m_num_banks,
      ({ s with m_arbiter := a' } : Collector).MayTake s.m_arbiter.granted i := by
    intro i hi
    rw [harb.num_banks] at hi
    refine ⟨length_granted _ i, fun op hop => ?_⟩
    obtain ⟨hwrite, hhead⟩ := granted_iff.mp hop
    refine ⟨?_, (congrArg (fun f => (f i).is_free) harb.allocated).trans (hfree i hi hwrite)⟩
    unfold Collector.bankOf
    rw [harb.num_banks]
    exact (hheads i hi op hhead).2
  obtain ⟨t, ht, htaken⟩ :=
    takes_banks (s := { s with m_arbiter := a' }) (Nat.le_refl _) hmay
  rw [harb.num_banks, ← harb.reads] at ht
  refine ⟨reads, t.2.values.foldl Collector.collect_operand t.1, ?_, harb.reads, fun i => ?_,
    fun c o => ?_, fun i => ?_⟩
  · unfold Collector.allocate_reads
    rw [hreads, Option.bind_some, ht]
    rfl
  · rw [arbiter_of_collected, htaken.collector]
    exact harb.queues i
  · have hperm := htaken.values
    rw [harb.num_banks, ← harb.reads] at hperm
    rw [collected_iff, htaken.collector]
    simp only [hperm.mem_iff]
  · rw [arbiter_of_collected, htaken.collector]
    simp only [Arbiter.taken, harb.num_banks, harb.allocated]

end opndcoll_rfu_t

end gpgpu_sim_uvm
