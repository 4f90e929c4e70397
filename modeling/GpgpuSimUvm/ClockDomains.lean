-- The clock domains of the GPU (gpu-sim.cc): each call moves on the domains that are
-- behind all others, so that no two of them drift apart. The periods are rational and
-- the arithmetic exact.
import Mathlib.Algebra.Order.Field.Rat
import Mathlib.Algebra.Order.Group.Abs
import Mathlib.Tactic.Linarith

namespace clocks

/-! ## Clocks where only the last ones tick -/

variable {D : Type} {period : D → ℚ} {t : D → ℚ} {ticks : D → Prop} [DecidablePred ticks]

/-- The clocks of a set move on by their periods. -/
def tick (period : D → ℚ) (ticks : D → Prop) [DecidablePred ticks] (t : D → ℚ) (d : D) : ℚ :=
  if ticks d then t d + period d else t d

/-- No clock is behind all the others. -/
def Last (t : D → ℚ) (d : D) : Prop := ∀ e, t d ≤ t e

/-- A clock is ahead of another by its own period at most. -/
def Within (period : D → ℚ) (t : D → ℚ) : Prop := ∀ d e, t d ≤ t e + period d

theorem le_tick (hperiod : ∀ d, 0 ≤ period d) (ticks : D → Prop) [DecidablePred ticks]
    (t : D → ℚ) (d : D) : t d ≤ tick period ticks t d := by
  unfold tick
  split
  · linarith [hperiod d]
  · exact le_refl _

theorem Within.tick (h : Within period t) (hperiod : ∀ d, 0 ≤ period d)
    (hlast : ∀ d, ticks d → Last t d) : Within period (tick period ticks t) := by
  intro d e
  have he := le_tick hperiod ticks t e
  by_cases hd : ticks d
  · have := hlast d hd e
    unfold clocks.tick at he ⊢
    rw [if_pos hd]
    linarith
  · have := h d e
    unfold clocks.tick at he ⊢
    rw [if_neg hd]
    linarith

theorem Within.abs_sub_le (h : Within period t) (d e : D) :
    |t d - t e| ≤ max (period d) (period e) := by
  rw [abs_le]
  have hd := h d e
  have he := h e d
  have := le_max_left (period d) (period e)
  have := le_max_right (period d) (period e)
  constructor <;> linarith

end clocks

namespace gpgpu_sim_uvm

namespace gpgpu_sim

open clocks

/-! ## The data -/

inductive ClockDomain where
  | CORE
  | L2
  | DRAM
  | ICNT
  | GMMU
  deriving DecidableEq

/-- The bit of a domain in the mask of a call. -/
def ClockDomain.bit : ClockDomain → Nat
  | .CORE => 0x01
  | .L2 => 0x02
  | .DRAM => 0x04
  | .ICNT => 0x08
  | .GMMU => 0x10

/-- `clock_mask & CORE`, and so on. -/
def Ticks (mask : Nat) (d : ClockDomain) : Prop := mask &&& d.bit ≠ 0

instance (mask : Nat) : DecidablePred (Ticks mask) := fun _ => inferInstanceAs (Decidable (_ ≠ _))

structure ClockPeriods where
  core_period : ℚ
  icnt_period : ℚ
  l2_period : ℚ
  dram_period : ℚ
  core_pos : 0 < core_period
  icnt_pos : 0 < icnt_period
  l2_pos : 0 < l2_period
  dram_pos : 0 < dram_period

structure ClockTimes where
  core_time : ℚ
  icnt_time : ℚ
  l2_time : ℚ
  dram_time : ℚ
  gmmu_time : ℚ
  gpu_tot_sim_cycle : Nat

/-- The GMMU runs with the period of the core. -/
def ClockPeriods.period (c : ClockPeriods) : ClockDomain → ℚ
  | .CORE => c.core_period
  | .L2 => c.l2_period
  | .DRAM => c.dram_period
  | .ICNT => c.icnt_period
  | .GMMU => c.core_period

def ClockTimes.time (t : ClockTimes) : ClockDomain → ℚ
  | .CORE => t.core_time
  | .L2 => t.l2_time
  | .DRAM => t.dram_time
  | .ICNT => t.icnt_time
  | .GMMU => t.gmmu_time

def gs_min2 (a b : ℚ) : ℚ := if a < b then a else b

def min4 (w x y z : ℚ) : ℚ :=
  if gs_min2 w x < gs_min2 y z then gs_min2 w x else gs_min2 y z

/-! ## The code -/

def reinit_clock_domains (gpu_tot_sim_cycle : Nat) : ClockTimes :=
  ⟨0, 0, 0, 0, 0, gpu_tot_sim_cycle⟩

/-- The mask of the call, and the times after it. -/
def next_clock_domain (c : ClockPeriods) (active : Bool) (t : ClockTimes) : Nat × ClockTimes :=
  if !active then
    (ClockDomain.GMMU.bit, { t with gpu_tot_sim_cycle := t.gpu_tot_sim_cycle + 1 })
  else
    let smallest := min4 t.core_time t.icnt_time t.dram_time t.gmmu_time
    let (smallest, mask, t) :=
      if t.l2_time ≤ smallest then
        (t.l2_time, ClockDomain.L2.bit, { t with l2_time := t.l2_time + c.l2_period })
      else (smallest, 0, t)
    let (mask, t) :=
      if t.icnt_time ≤ smallest then
        (mask ||| ClockDomain.ICNT.bit, { t with icnt_time := t.icnt_time + c.icnt_period })
      else (mask, t)
    let (mask, t) :=
      if t.dram_time ≤ smallest then
        (mask ||| ClockDomain.DRAM.bit, { t with dram_time := t.dram_time + c.dram_period })
      else (mask, t)
    let (mask, t) :=
      if t.core_time ≤ smallest then
        (mask ||| ClockDomain.CORE.bit, { t with core_time := t.core_time + c.core_period })
      else (mask, t)
    if t.gmmu_time ≤ smallest then
      (mask ||| ClockDomain.GMMU.bit, { t with gmmu_time := t.gmmu_time + c.core_period })
    else (mask, t)

/-! ## One call -/

variable {c : ClockPeriods} {t : ClockTimes}

theorem gs_min2_eq (a b : ℚ) : gs_min2 a b = min a b := by
  unfold gs_min2
  split
  · exact (min_eq_left (le_of_lt ‹_›)).symm
  · exact (min_eq_right (not_lt.mp ‹_›)).symm

theorem min4_eq (w x y z : ℚ) : min4 w x y z = min (min w x) (min y z) := by
  unfold min4
  rw [gs_min2_eq, gs_min2_eq]
  exact gs_min2_eq _ _

/-- The time that the calls compare with, after the test of the L2. -/
def ClockTimes.smallest (t : ClockTimes) : ℚ :=
  min t.l2_time (min4 t.core_time t.icnt_time t.dram_time t.gmmu_time)

theorem smallest_le (t : ClockTimes) (d : ClockDomain) : t.smallest ≤ t.time d := by
  unfold ClockTimes.smallest
  rw [min4_eq]
  cases d <;> simp [ClockTimes.time]

theorem exists_smallest (t : ClockTimes) : ∃ d, t.time d = t.smallest := by
  unfold ClockTimes.smallest
  rw [min4_eq]
  rcases min_choice t.l2_time (min (min t.core_time t.icnt_time) (min t.dram_time t.gmmu_time))
    with h | h <;> rw [h]
  · exact ⟨.L2, rfl⟩
  rcases min_choice (min t.core_time t.icnt_time) (min t.dram_time t.gmmu_time) with h | h <;> rw [h]
  · rcases min_choice t.core_time t.icnt_time with h | h <;> rw [h]
    · exact ⟨.CORE, rfl⟩
    · exact ⟨.ICNT, rfl⟩
  · rcases min_choice t.dram_time t.gmmu_time with h | h <;> rw [h]
    · exact ⟨.DRAM, rfl⟩
    · exact ⟨.GMMU, rfl⟩

/-- A domain is one of the last exactly when its time is the smallest. -/
theorem last_iff (t : ClockTimes) (d : ClockDomain) : Last t.time d ↔ t.time d ≤ t.smallest := by
  constructor
  · intro h
    obtain ⟨e, he⟩ := exists_smallest t
    exact he ▸ h e
  · intro h e
    exact h.trans (smallest_le t e)

/-- The mask of the domains that tick. -/
def maskOf (l2 icnt dram core gmmu : Bool) : Nat :=
  (if l2 then ClockDomain.L2.bit else 0) ||| (if icnt then ClockDomain.ICNT.bit else 0) |||
    (if dram then ClockDomain.DRAM.bit else 0) ||| (if core then ClockDomain.CORE.bit else 0) |||
    (if gmmu then ClockDomain.GMMU.bit else 0)

theorem ticks_maskOf : ∀ l2 icnt dram core gmmu : Bool,
    (Ticks (maskOf l2 icnt dram core gmmu) .L2 ↔ l2 = true) ∧
    (Ticks (maskOf l2 icnt dram core gmmu) .ICNT ↔ icnt = true) ∧
    (Ticks (maskOf l2 icnt dram core gmmu) .DRAM ↔ dram = true) ∧
    (Ticks (maskOf l2 icnt dram core gmmu) .CORE ↔ core = true) ∧
    (Ticks (maskOf l2 icnt dram core gmmu) .GMMU ↔ gmmu = true) := by
  decide

/-- An active call moves on the domains at the smallest time. -/
theorem next_active (c : ClockPeriods) (t : ClockTimes) : next_clock_domain c true t =
    (maskOf (decide (t.l2_time ≤ t.smallest)) (decide (t.icnt_time ≤ t.smallest))
        (decide (t.dram_time ≤ t.smallest)) (decide (t.core_time ≤ t.smallest))
        (decide (t.gmmu_time ≤ t.smallest)),
      { core_time := if t.core_time ≤ t.smallest then t.core_time + c.core_period else t.core_time
        icnt_time := if t.icnt_time ≤ t.smallest then t.icnt_time + c.icnt_period else t.icnt_time
        l2_time := if t.l2_time ≤ t.smallest then t.l2_time + c.l2_period else t.l2_time
        dram_time := if t.dram_time ≤ t.smallest then t.dram_time + c.dram_period else t.dram_time
        gmmu_time := if t.gmmu_time ≤ t.smallest then t.gmmu_time + c.core_period else t.gmmu_time
        gpu_tot_sim_cycle := t.gpu_tot_sim_cycle }) := by
  -- the test of the L2 leaves the smallest of the five times
  have hl2 : (t.l2_time ≤ min4 t.core_time t.icnt_time t.dram_time t.gmmu_time ∧
      t.smallest = t.l2_time ∧ t.l2_time ≤ t.smallest) ∨
      (¬ t.l2_time ≤ min4 t.core_time t.icnt_time t.dram_time t.gmmu_time ∧
      t.smallest = min4 t.core_time t.icnt_time t.dram_time t.gmmu_time ∧
      ¬ t.l2_time ≤ t.smallest) := by
    unfold ClockTimes.smallest
    by_cases h : t.l2_time ≤ min4 t.core_time t.icnt_time t.dram_time t.gmmu_time
    · exact .inl ⟨h, min_eq_left h, (min_eq_left h).ge⟩
    · have hmin := min_eq_right (le_of_lt (not_le.mp h))
      exact .inr ⟨h, hmin, by rwa [hmin]⟩
  unfold next_clock_domain maskOf
  rcases hl2 with ⟨h, hs, -⟩ | ⟨h, hs, -⟩ <;> rw [hs]
  · by_cases hicnt : t.icnt_time ≤ t.l2_time <;> by_cases hdram : t.dram_time ≤ t.l2_time <;>
      by_cases hcore : t.core_time ≤ t.l2_time <;> by_cases hgmmu : t.gmmu_time ≤ t.l2_time <;>
      simp [h, hicnt, hdram, hcore, hgmmu]
  · generalize min4 t.core_time t.icnt_time t.dram_time t.gmmu_time = s at h
    by_cases hicnt : t.icnt_time ≤ s <;> by_cases hdram : t.dram_time ≤ s <;>
      by_cases hcore : t.core_time ≤ s <;> by_cases hgmmu : t.gmmu_time ≤ s <;>
      simp [h, hicnt, hdram, hcore, hgmmu]

/-- The domains that tick are the last ones. -/
theorem ticks_iff (c : ClockPeriods) (t : ClockTimes) (d : ClockDomain) :
    Ticks (next_clock_domain c true t).1 d ↔ Last t.time d := by
  rw [last_iff, next_active]
  have h := ticks_maskOf (decide (t.l2_time ≤ t.smallest)) (decide (t.icnt_time ≤ t.smallest))
    (decide (t.dram_time ≤ t.smallest)) (decide (t.core_time ≤ t.smallest))
    (decide (t.gmmu_time ≤ t.smallest))
  simp only [decide_eq_true_eq] at h
  obtain ⟨hl2, hicnt, hdram, hcore, hgmmu⟩ := h
  cases d
  · exact hcore
  · exact hl2
  · exact hdram
  · exact hicnt
  · exact hgmmu

/-- The times after an active call. -/
theorem time_next (c : ClockPeriods) (t : ClockTimes) :
    (next_clock_domain c true t).2.time =
      tick c.period (Ticks (next_clock_domain c true t).1) t.time := by
  funext d
  unfold tick
  simp only [ticks_iff, last_iff]
  rw [next_active]
  cases d <;> rfl

/-! ## The calls -/

/-- The times after calls, of which those with `true` find the GPU active. -/
def timesAfter (c : ClockPeriods) (calls : List Bool) (t : ClockTimes) : ClockTimes :=
  calls.foldl (fun t active => (next_clock_domain c active t).2) t

/-- The masks that the active calls return. -/
def activeMasks (c : ClockPeriods) : List Bool → ClockTimes → List Nat
  | [], _ => []
  | active :: calls, t =>
    let rest := activeMasks c calls (next_clock_domain c active t).2
    if active then (next_clock_domain c active t).1 :: rest else rest

/-- What the calls keep. -/
structure InStep (c : ClockPeriods) (t : ClockTimes) : Prop where
  within : Within c.period t.time
  gmmu : t.gmmu_time = t.core_time

theorem period_nonneg (c : ClockPeriods) (d : ClockDomain) : 0 ≤ c.period d := by
  cases d
  · exact c.core_pos.le
  · exact c.l2_pos.le
  · exact c.dram_pos.le
  · exact c.icnt_pos.le
  · exact c.core_pos.le

theorem inStep_reinit (c : ClockPeriods) (n : Nat) : InStep c (reinit_clock_domains n) where
  within d e := by
    have hzero : ∀ d, (reinit_clock_domains n).time d = 0 := by
      intro d
      cases d <;> rfl
    rw [hzero, hzero, zero_add]
    exact period_nonneg c d
  gmmu := rfl

theorem InStep.gmmu_ticks (h : InStep c t) : Ticks (next_clock_domain c true t).1 .GMMU ↔
    Ticks (next_clock_domain c true t).1 .CORE := by
  rw [ticks_iff, ticks_iff, last_iff, last_iff]
  change t.gmmu_time ≤ _ ↔ t.core_time ≤ _
  rw [h.gmmu]

theorem InStep.next (h : InStep c t) (active : Bool) :
    InStep c (next_clock_domain c active t).2 := by
  cases active with
  | false => exact ⟨h.within, h.gmmu⟩
  | true =>
    refine ⟨?_, ?_⟩
    · rw [time_next]
      exact h.within.tick (period_nonneg c) fun d hd => (ticks_iff c t d).mp hd
    · rw [next_active]
      simp only [h.gmmu]

theorem InStep.after (h : InStep c t) (calls : List Bool) : InStep c (timesAfter c calls t) := by
  induction calls generalizing t with
  | nil => exact h
  | cons active calls ih => exact ih (h.next active)

theorem InStep.counts (h : InStep c t) (calls : List Bool) :
    (activeMasks c calls t).countP (fun mask => decide (Ticks mask .GMMU)) =
      (activeMasks c calls t).countP (fun mask => decide (Ticks mask .CORE)) := by
  induction calls generalizing t with
  | nil => rfl
  | cons active calls ih =>
    unfold activeMasks
    cases active with
    | false => exact ih (h.next false)
    | true =>
      simp only [if_true, List.countP_cons, ih (h.next true), decide_eq_true_eq, h.gmmu_ticks]

/-- Between launches, in whatever calls find the GPU active: every such call ticks, only
domains of the smallest time tick, no two times drift apart by more than the larger
period, and the GMMU ticks as often as the core. -/
theorem clock_domains_stay_in_step (c : ClockPeriods) (n : Nat) (calls : List Bool) :
    (∃ d, Ticks (next_clock_domain c true (timesAfter c calls (reinit_clock_domains n))).1 d) ∧
    (∀ d, Ticks (next_clock_domain c true (timesAfter c calls (reinit_clock_domains n))).1 d →
      ∀ e, (timesAfter c calls (reinit_clock_domains n)).time d ≤
        (timesAfter c calls (reinit_clock_domains n)).time e) ∧
    (∀ d e, |(timesAfter c calls (reinit_clock_domains n)).time d -
        (timesAfter c calls (reinit_clock_domains n)).time e| ≤ max (c.period d) (c.period e)) ∧
    (activeMasks c calls (reinit_clock_domains n)).countP (fun mask => decide (Ticks mask .GMMU)) =
      (activeMasks c calls (reinit_clock_domains n)).countP
        (fun mask => decide (Ticks mask .CORE)) := by
  have hstep := (inStep_reinit c n).after calls
  refine ⟨?_, fun d hd => (ticks_iff c _ d).mp hd, hstep.within.abs_sub_le,
    (inStep_reinit c n).counts calls⟩
  obtain ⟨d, hd⟩ := exists_smallest (timesAfter c calls (reinit_clock_domains n))
  exact ⟨d, (ticks_iff c _ d).mpr ((last_iff _ d).mpr hd.le)⟩

end gpgpu_sim

end gpgpu_sim_uvm
