-- The timing of a DRAM channel: what the counters of the banks, the bank groups and the
-- channel enforce between any two commands of a run.
import GpgpuSimUvm.DramScheduling

namespace gpgpu_sim_uvm.dram_t

variable {cfg : MemoryConfig}

/-! ## The delays -/

inductive Timing
  | tRCD | tRCDWR | tRAS | tRP | tRC | tRRD | tCCD | tWTR | tRTW | tCCDL | tWTP | tRTPL
  deriving DecidableEq, Repr

inductive Scope
  | bank | bankGroup | channel
  deriving DecidableEq, Repr

def Scope.near (cfg : MemoryConfig) : Scope → Nat → Nat → Prop
  | .bank, b, b' => b = b'
  | .bankGroup, b, b' => get_bankgrp_number cfg b' = get_bankgrp_number cfg b
  | .channel, _, _ => True

instance (scope : Scope) (b b' : Nat) : Decidable (scope.near cfg b b') := by
  cases scope <;> unfold Scope.near <;> infer_instance

def CommandKind.isColumn (kind : CommandKind) : Bool := decide (kind = .RD ∨ kind = .WR)

namespace Timing

/-- The commands that a delay follows. -/
def starts : Timing → CommandKind → Bool
  | .tRCD, kind | .tRCDWR, kind | .tRAS, kind | .tRC, kind | .tRRD, kind => decide (kind = .ACT)
  | .tRP, kind => decide (kind = .PRE)
  | .tCCD, kind | .tCCDL, kind => kind.isColumn
  | .tWTR, kind | .tWTP, kind => decide (kind = .WR)
  | .tRTW, kind | .tRTPL, kind => decide (kind = .RD)

/-- The commands that wait for it. -/
def delays : Timing → CommandKind → Bool
  | .tRCD, kind | .tWTR, kind => decide (kind = .RD)
  | .tRCDWR, kind | .tRTW, kind => decide (kind = .WR)
  | .tRAS, kind | .tWTP, kind | .tRTPL, kind => decide (kind = .PRE)
  | .tRP, kind | .tRC, kind | .tRRD, kind => decide (kind = .ACT)
  | .tCCD, kind | .tCCDL, kind => kind.isColumn

/-- The banks it is between. -/
def scope : Timing → Scope
  | .tRCD | .tRCDWR | .tRAS | .tRP | .tRC | .tWTP => .bank
  | .tCCDL | .tRTPL => .bankGroup
  | .tRRD | .tCCD | .tWTR | .tRTW => .channel

def cycles (cfg : MemoryConfig) : Timing → Nat
  | .tRCD => cfg.tRCD
  | .tRCDWR => cfg.tRCDWR
  | .tRAS => cfg.tRAS
  | .tRP => cfg.tRP
  | .tRC => cfg.tRC
  | .tRRD => cfg.tRRD
  | .tCCD => cfg.tCCD
  | .tWTR => cfg.tWTR
  | .tRTW => cfg.tRTW
  | .tCCDL => cfg.tCCDL
  | .tWTP => cfg.tWTP
  | .tRTPL => cfg.tRTPL

/-- The counter that stands for it at a bank. -/
def counter (s : Dram cfg) (b : Nat) : Timing → Nat
  | .tRCD => (s.bk b).RCDc
  | .tRCDWR => (s.bk b).RCDWRc
  | .tRAS => (s.bk b).RASc
  | .tRP => (s.bk b).RPc
  | .tRC => (s.bk b).RCc
  | .tRRD => s.RRDc
  | .tCCD => s.CCDc
  | .tWTR => s.WTRc
  | .tRTW => s.RTWc
  | .tCCDL => (s.bkgrp (get_bankgrp_number cfg b)).CCDLc
  | .tWTP => (s.bk b).WTPc
  | .tRTPL => (s.bkgrp (get_bankgrp_number cfg b)).RTPLc

end Timing

/-- Two commands keep every delay that applies to them, each between the banks of its scope. -/
def Spaced (cfg : MemoryConfig) (scope : Timing → Scope) (c d : Command) : Prop :=
  ∀ t : Timing, t.starts c.kind = true → t.delays d.kind = true →
    (scope t).near cfg c.bank d.bank → c.time + t.cycles cfg ≤ d.time

/-- The open row of a bank after one more of its commands. -/
def CommandKind.opens (kind : CommandKind) (row : Nat) (opened : Option Nat) : Option Nat :=
  match kind with
  | .ACT => some row
  | .PRE => none
  | _ => opened

/-- The row of a bank that a sequence of commands leaves open. -/
def openRow (bank : Nat) (cs : List Command) : Option Nat :=
  cs.foldl (fun opened c => if c.bank = bank then c.kind.opens c.row opened else opened) none

/-- The open row of a bank, as the channel has it. -/
def Dram.openRow (s : Dram cfg) (bank : Nat) : Option Nat :=
  if (s.bk bank).state = .BANK_ACTIVE then some (s.bk bank).curr_row else none

/-- Each read and each write is of the row that is open at that point. -/
def RowsOpen (cs : List Command) : Prop :=
  ∀ n c, cs[n]? = some c → c.kind.isColumn = true → openRow c.bank (cs.take n) = some c.row

/-! ## What a command does -/

/-- A command of a cycle: the counters of the delays that it waits for are zero, those of the
delays that it starts are set, and no other counter moves. -/
structure Issues (kind : CommandKind) (j row : Nat) (s s' : Dram cfg) : Prop where
  commands : s'.commands = s.commands ++ [{ kind := kind, bank := j, row := row, time := s.cycles }]
  cycles : s'.cycles = s.cycles
  tested : ∀ t : Timing, t.delays kind = true → t.counter s j = 0
  counter : ∀ (t : Timing) b, t.counter s' b =
    if t.starts kind = true ∧ t.scope.near cfg j b then t.cycles cfg else t.counter s b
  opened : ∀ b, s'.openRow b = if j = b then kind.opens row (s.openRow b) else s.openRow b
  column : kind.isColumn = true → s.openRow j = some row

/-- A part of a cycle that leaves the commands and all that they depend on alone. -/
structure SameTiming (s s' : Dram cfg) : Prop where
  commands : s'.commands = s.commands
  cycles : s'.cycles = s.cycles
  counter : ∀ (t : Timing) b, t.counter s' b = t.counter s b
  opened : ∀ b, s'.openRow b = s.openRow b

namespace SameTiming

theorem refl (s : Dram cfg) : SameTiming s s := ⟨rfl, rfl, fun _ _ => rfl, fun _ => rfl⟩

theorem trans {a b c : Dram cfg} (h : SameTiming a b) (h' : SameTiming b c) : SameTiming a c :=
  ⟨h'.commands.trans h.commands, h'.cycles.trans h.cycles,
    fun t n => (h'.counter t n).trans (h.counter t n), fun n => (h'.opened n).trans (h.opened n)⟩

/-- Neither counters nor open rows depend on the requests of the banks. -/
theorem of_mrq {s s' : Dram cfg} (hcommands : s'.commands = s.commands)
    (hcycles : s'.cycles = s.cycles) (hRRD : s'.RRDc = s.RRDc) (hCCD : s'.CCDc = s.CCDc)
    (hWTR : s'.WTRc = s.WTRc) (hRTW : s'.RTWc = s.RTWc) (hgroup : s'.bkgrp = s.bkgrp)
    (hbank : ∀ b, ∃ mrq, s'.bk b = { s.bk b with mrq := mrq }) : SameTiming s s' := by
  refine ⟨hcommands, hcycles, ?_, ?_⟩
  · intro t b
    obtain ⟨mrq, hb⟩ := hbank b
    cases t <;> simp only [Timing.counter, hb, hRRD, hCCD, hWTR, hRTW, hgroup]
  · intro b
    obtain ⟨mrq, hb⟩ := hbank b
    simp only [Dram.openRow, hb]

/-- The request of one bank, changed. -/
theorem setMrq_bk (s : Dram cfg) (j : Nat) (mrq : Option (DramReq cfg.nbk)) (b : Nat) :
    ∃ m, (s.setBank j { s.bk j with mrq := mrq }).bk b = { s.bk b with mrq := m } := by
  by_cases hb : b = j
  · subst hb
    exact ⟨mrq, Function.update_self _ _ _⟩
  · exact ⟨(s.bk b).mrq, Function.update_of_ne hb _ _⟩

theorem returnData (s : Dram cfg) : SameTiming s (returnData s) := by
  have hsame : ∀ b, ∃ mrq, s.bk b = { s.bk b with mrq := mrq } := fun b => ⟨(s.bk b).mrq, rfl⟩
  simp only [dram_t.returnData]
  split_ifs
  · split
    · exact of_mrq rfl rfl rfl rfl rfl rfl rfl hsame
    · split_ifs <;> exact of_mrq rfl rfl rfl rfl rfl rfl rfl hsame
  · exact refl s

theorem turnBus (s : Dram cfg) (rw : ReadWrite) (n : Nat) : SameTiming s (turnBus s rw n) := by
  simp only [dram_t.turnBus]
  split_ifs
  · exact refl s
  · exact of_mrq rfl rfl rfl rfl rfl rfl rfl fun b => ⟨(s.bk b).mrq, rfl⟩

theorem transfer (s : Dram cfg) (j : Nat) (req : DramReq cfg.nbk) :
    SameTiming s (transfer s j req) := by
  simp only [dram_t.transfer]
  split_ifs
  · exact of_mrq rfl rfl rfl rfl rfl rfl rfl fun b => ⟨(s.bk b).mrq, rfl⟩
  · exact of_mrq rfl rfl rfl rfl rfl rfl rfl (setMrq_bk s j none)

theorem scheduler_fifo (s : Dram cfg) : SameTiming s (scheduler_fifo s) := by
  simp only [dram_t.scheduler_fifo]
  split
  · exact refl s
  · split_ifs
    · exact of_mrq rfl rfl rfl rfl rfl rfl rfl (setMrq_bk s _ _)
    · exact refl s

theorem askBanks (is : List Nat) (s : Dram cfg) : SameTiming s (askBanks is s) := by
  induction is generalizing s with
  | nil => exact refl s
  | cons i is ih =>
    simp only [dram_t.askBanks]
    split_ifs
    · exact ih s
    · split
      · refine trans ?_ (ih _)
        exact of_mrq rfl rfl rfl rfl rfl rfl rfl fun b => ⟨(s.bk b).mrq, rfl⟩
      · exact of_mrq rfl rfl rfl rfl rfl rfl rfl (setMrq_bk s _ _)

theorem scheduler_frfcfs (s : Dram cfg) : SameTiming s (scheduler_frfcfs s) := by
  refine trans ?_ (askBanks _ _)
  exact of_mrq rfl rfl rfl rfl rfl rfl rfl fun b => ⟨(s.bk b).mrq, rfl⟩

end SameTiming

/-- The banks after a change of one of them. -/
theorem setBank_bk (s : Dram cfg) (j : Nat) (bank : Bank cfg.nbk) (b : Nat) :
    (s.setBank j bank).bk b = if j = b then bank else s.bk b := by
  by_cases hb : b = j
  · subst hb
    simp only [Dram.setBank, Function.update_self, if_true]
  · simp only [Dram.setBank, Function.update_of_ne hb, if_neg (Ne.symm hb)]

section Fields

variable (s : Dram cfg) (j : Nat) (bank : Bank cfg.nbk)

@[simp] theorem setBank_RRDc : (s.setBank j bank).RRDc = s.RRDc := rfl

@[simp] theorem setBank_CCDc : (s.setBank j bank).CCDc = s.CCDc := rfl

@[simp] theorem setBank_RTWc : (s.setBank j bank).RTWc = s.RTWc := rfl

@[simp] theorem setBank_WTRc : (s.setBank j bank).WTRc = s.WTRc := rfl

@[simp] theorem setBank_bkgrp : (s.setBank j bank).bkgrp = s.bkgrp := rfl

end Fields

/-- A command after a part of the cycle that it does not depend on. -/
theorem Issues.after {kind : CommandKind} {j row : Nat} {s s' s'' : Dram cfg}
    (h : Issues kind j row s' s'') (hsame : SameTiming s s') : Issues kind j row s s'' := by
  refine ⟨?_, h.cycles.trans hsame.cycles, ?_, ?_, ?_, ?_⟩
  · rw [h.commands, hsame.commands, hsame.cycles]
  · intro t ht
    rw [← hsame.counter]
    exact h.tested t ht
  · intro t b
    rw [h.counter, hsame.counter]
  · intro b
    rw [h.opened, hsame.opened]
  · intro hcolumn
    rw [← hsame.opened]
    exact h.column hcolumn

/-- The last part of `read`: the counters and the command. -/
theorem issues_read {s : Dram cfg} {j row : Nat} (rtp : Nat)
    (htested : ∀ t : Timing, t.delays .RD = true → t.counter s j = 0)
    (hopen : s.openRow j = some row) :
    Issues .RD j row s
      ({ s.setBank j { s.bk j with RTPc := rtp } with
        CCDc := cfg.tCCD
        RTWc := cfg.tRTW
        bkgrp := Function.update s.bkgrp (get_bankgrp_number cfg j)
          { CCDLc := cfg.tCCDL, RTPLc := cfg.tRTPL } }.issued .RD j row) := by
  refine ⟨rfl, rfl, htested, ?_, ?_, fun _ => hopen⟩
  · intro t b
    by_cases hb : j = b
    · subst hb
      cases t <;> simp [Timing.counter, Timing.starts, Timing.scope, Scope.near, Timing.cycles,
        Dram.issued, setBank_bk, CommandKind.isColumn]
    · by_cases hg : get_bankgrp_number cfg b = get_bankgrp_number cfg j
      · cases t <;> simp [Timing.counter, Timing.starts, Timing.scope, Scope.near, Timing.cycles,
          Dram.issued, setBank_bk, CommandKind.isColumn, hb, hg]
      · cases t <;> simp [Timing.counter, Timing.starts, Timing.scope, Scope.near, Timing.cycles,
          Dram.issued, setBank_bk, CommandKind.isColumn, hb, hg]
  · intro b
    by_cases hb : j = b
    · subst hb
      simp [Dram.openRow, Dram.issued, setBank_bk, CommandKind.opens]
    · simp [Dram.openRow, Dram.issued, setBank_bk, hb]

/-- The last part of `write`. -/
theorem issues_write {s : Dram cfg} {j row : Nat}
    (htested : ∀ t : Timing, t.delays .WR = true → t.counter s j = 0)
    (hopen : s.openRow j = some row) :
    Issues .WR j row s
      ({ s.setBank j { s.bk j with WTPc := cfg.tWTP } with
        CCDc := cfg.tCCD
        WTRc := cfg.tWTR
        bkgrp := Function.update s.bkgrp (get_bankgrp_number cfg j)
          { s.bkgrp (get_bankgrp_number cfg j) with CCDLc := cfg.tCCDL } }.issued .WR j row) := by
  refine ⟨rfl, rfl, htested, ?_, ?_, fun _ => hopen⟩
  · intro t b
    by_cases hb : j = b
    · subst hb
      cases t <;> simp [Timing.counter, Timing.starts, Timing.scope, Scope.near, Timing.cycles,
        Dram.issued, setBank_bk, CommandKind.isColumn]
    · by_cases hg : get_bankgrp_number cfg b = get_bankgrp_number cfg j
      · cases t <;> simp [Timing.counter, Timing.starts, Timing.scope, Scope.near, Timing.cycles,
          Dram.issued, setBank_bk, CommandKind.isColumn, hb, hg]
      · cases t <;> simp [Timing.counter, Timing.starts, Timing.scope, Scope.near, Timing.cycles,
          Dram.issued, setBank_bk, CommandKind.isColumn, hb, hg]
  · intro b
    by_cases hb : j = b
    · subst hb
      simp [Dram.openRow, Dram.issued, setBank_bk, CommandKind.opens]
    · simp [Dram.openRow, Dram.issued, setBank_bk, hb]

theorem issues_activate {s : Dram cfg} {j : Nat} (req : DramReq cfg.nbk)
    (hcan : canActivate s j = true) : Issues .ACT j req.row s (activate s j req) := by
  simp only [canActivate, decide_eq_true_eq] at hcan
  obtain ⟨hRRD, -, hRP, hRC⟩ := hcan
  refine ⟨rfl, rfl, ?_, ?_, ?_, fun hcolumn => by cases hcolumn⟩
  · intro t ht
    cases t with
    | tRP => exact hRP
    | tRC => exact hRC
    | tRRD => exact hRRD
    | _ => cases ht
  · intro t b
    by_cases hb : j = b
    · subst hb
      cases t <;> simp [Timing.counter, Timing.starts, Timing.scope, Scope.near, Timing.cycles,
        activate, Dram.issued, setBank_bk, CommandKind.isColumn]
    · cases t <;> simp [Timing.counter, Timing.starts, Timing.scope, Scope.near, Timing.cycles,
        activate, Dram.issued, setBank_bk, CommandKind.isColumn, hb]
  · intro b
    by_cases hb : j = b
    · subst hb
      simp [Dram.openRow, activate, Dram.issued, setBank_bk, CommandKind.opens]
    · simp [Dram.openRow, activate, Dram.issued, setBank_bk, hb]

theorem issues_precharge {s : Dram cfg} {j : Nat} {req : DramReq cfg.nbk}
    (hcan : canPrecharge s j req = true) :
    Issues .PRE j (s.bk j).curr_row s (precharge s j) := by
  simp only [canPrecharge, decide_eq_true_eq] at hcan
  obtain ⟨-, -, hRAS, hWTP, -, hRTPL⟩ := hcan
  refine ⟨rfl, rfl, ?_, ?_, ?_, fun hcolumn => by cases hcolumn⟩
  · intro t ht
    cases t with
    | tRAS => exact hRAS
    | tWTP => exact hWTP
    | tRTPL => exact hRTPL
    | _ => cases ht
  · intro t b
    by_cases hb : j = b
    · subst hb
      cases t <;> simp [Timing.counter, Timing.starts, Timing.scope, Scope.near, Timing.cycles,
        precharge, Dram.issued, setBank_bk, CommandKind.isColumn]
    · cases t <;> simp [Timing.counter, Timing.starts, Timing.scope, Scope.near, precharge,
        Dram.issued, setBank_bk, CommandKind.isColumn, hb]
  · intro b
    by_cases hb : j = b
    · subst hb
      simp [Dram.openRow, precharge, Dram.issued, setBank_bk, CommandKind.opens]
    · simp [Dram.openRow, precharge, Dram.issued, setBank_bk, hb]

/-- The tests of a read are those of all delays that a read waits for. -/
theorem Issues.read {s : Dram cfg} {j : Nat} {req : DramReq cfg.nbk}
    (hcan : canRead s j req = true) : Issues .RD j req.row s (read s j req) := by
  have hsame := (SameTiming.turnBus s .READ cfg.CL).trans (SameTiming.transfer _ j req)
  simp only [canRead, decide_eq_true_eq] at hcan
  obtain ⟨hCCD, hRCD, hCCDL, hrow, -, hWTR, hstate, -⟩ := hcan
  refine (issues_read _ ?_ ?_).after hsame
  · intro t ht
    rw [hsame.counter]
    cases t with
    | tRCD => exact hRCD
    | tWTR => exact hWTR
    | tCCD => exact hCCD
    | tCCDL => exact hCCDL
    | _ => cases ht
  · rw [hsame.opened, Dram.openRow, if_pos hstate, hrow]

theorem Issues.write {s : Dram cfg} {j : Nat} {req : DramReq cfg.nbk}
    (hcan : canWrite s j req = true) : Issues .WR j req.row s (write s j req) := by
  have hsame := (SameTiming.turnBus s .WRITE cfg.WL).trans (SameTiming.transfer _ j req)
  simp only [canWrite, decide_eq_true_eq] at hcan
  obtain ⟨hCCD, hRCDWR, hCCDL, hrow, -, hRTW, hstate, -⟩ := hcan
  refine (issues_write ?_ ?_).after hsame
  · intro t ht
    rw [hsame.counter]
    cases t with
    | tRCDWR => exact hRCDWR
    | tRTW => exact hRTW
    | tCCD => exact hCCD
    | tCCDL => exact hCCDL
    | _ => cases ht
  · rw [hsame.opened, Dram.openRow, if_pos hstate, hrow]

/-! ## Runs -/

/-- What the counters still hold back reaches from every command to the delays it started. -/
structure Timed (s : Dram cfg) : Prop where
  past : ∀ c ∈ s.commands, c.time ≤ s.cycles
  counted : ∀ c ∈ s.commands, ∀ t : Timing, t.starts c.kind = true → ∀ b,
    t.scope.near cfg c.bank b → c.time + t.cycles cfg ≤ s.cycles + t.counter s b
  spaced : s.commands.Pairwise (Spaced cfg Timing.scope)
  opened : ∀ b, s.openRow b = openRow b s.commands
  rows : RowsOpen s.commands

theorem openRow_append (b : Nat) (cs : List Command) (c : Command) :
    openRow b (cs ++ [c]) =
      if c.bank = b then c.kind.opens c.row (openRow b cs) else openRow b cs := by
  rw [openRow, List.foldl_append]
  rfl

theorem RowsOpen.append {cs : List Command} {c : Command} (h : RowsOpen cs)
    (hc : c.kind.isColumn = true → openRow c.bank cs = some c.row) : RowsOpen (cs ++ [c]) := by
  intro n d hd hcolumn
  by_cases hn : n < cs.length
  · rw [List.getElem?_append_left hn] at hd
    rw [List.take_append_of_le_length (Nat.le_of_lt hn)]
    exact h n d hd hcolumn
  · rw [List.getElem?_append_right (Nat.le_of_not_lt hn)] at hd
    obtain ⟨hlt, hget⟩ := List.getElem?_eq_some_iff.mp hd
    rw [List.length_singleton] at hlt
    have hlength : n = cs.length := by omega
    subst hlength
    rw [List.getElem_singleton] at hget
    subst hget
    rw [List.take_left]
    exact hc hcolumn

namespace Timed

variable {s s' : Dram cfg}

theorem start : Timed ({} : Dram cfg) := by
  refine ⟨?_, ?_, List.Pairwise.nil, fun _ => rfl, ?_⟩
  · intro c hc
    cases hc
  · intro c hc
    cases hc
  · intro n c hc
    rw [List.getElem?_nil] at hc
    cases hc

theorem same (h : Timed s) (hsame : SameTiming s s') : Timed s' := by
  refine ⟨?_, ?_, ?_, ?_, ?_⟩
  · rw [hsame.commands, hsame.cycles]
    exact h.past
  · rw [hsame.commands, hsame.cycles]
    intro c hc t hstarts b hnear
    rw [hsame.counter]
    exact h.counted c hc t hstarts b hnear
  · rw [hsame.commands]
    exact h.spaced
  · intro b
    rw [hsame.commands, hsame.opened]
    exact h.opened b
  · rw [hsame.commands]
    exact h.rows

/-- A command finds the counters of its delays at zero, so every earlier command is far
enough away. -/
theorem issues {kind : CommandKind} {j row : Nat} (h : Timed s) (hissue : Issues kind j row s s') :
    Timed s' := by
  have hspaced : ∀ c ∈ s.commands,
      Spaced cfg Timing.scope c { kind := kind, bank := j, row := row, time := s.cycles } := by
    intro c hc t hstarts hdelays hnear
    have hcounted := h.counted c hc t hstarts j hnear
    rw [hissue.tested t hdelays] at hcounted
    exact hcounted
  refine ⟨?_, ?_, ?_, ?_, ?_⟩
  · intro c hc
    rw [hissue.commands] at hc
    rw [hissue.cycles]
    rcases List.mem_append.mp hc with hc | hc
    · exact h.past c hc
    · rw [List.mem_singleton.mp hc]
  · intro c hc t hstarts b hnear
    rw [hissue.commands] at hc
    rw [hissue.cycles, hissue.counter]
    rcases List.mem_append.mp hc with hc | hc
    · have hpast := h.past c hc
      have hcounted := h.counted c hc t hstarts b hnear
      split_ifs <;> omega
    · obtain rfl := List.mem_singleton.mp hc
      rw [if_pos ⟨hstarts, hnear⟩]
  · rw [hissue.commands, List.pairwise_append]
    refine ⟨h.spaced, List.pairwise_singleton _ _, ?_⟩
    intro c hc d hd
    rw [List.mem_singleton.mp hd]
    exact hspaced c hc
  · intro b
    rw [hissue.opened, hissue.commands, openRow_append, h.opened]
  · rw [hissue.commands]
    apply h.rows.append
    intro hcolumn
    rw [← h.opened]
    exact hissue.column hcolumn

theorem issue_col_command (h : Timed s) (j : Nat) : Timed (issue_col_command s j).2 := by
  simp only [dram_t.issue_col_command]
  split
  · exact h
  · split_ifs with hread hwrite
    · exact h.issues (Issues.read hread)
    · exact h.issues (Issues.write hwrite)
    · exact h

theorem issue_row_command (h : Timed s) (j : Nat) : Timed (issue_row_command s j).2 := by
  simp only [dram_t.issue_row_command]
  split
  · exact h
  · split_ifs with hactivate hprecharge
    · exact h.issues (issues_activate _ hactivate)
    · exact h.issues (issues_precharge hprecharge)
    · exact h

theorem issueCommands (h : Timed s) : Timed (issueCommands s) :=
  issueCommands_rule (R := fun s s' => Timed s → Timed s') (fun _ h => h)
    (fun hab hbc h => hbc (hab h)) (fun _ j h => h.issue_col_command j)
    (fun _ j h => h.issue_row_command j) s h

/-- A counter loses at most the cycle that passes. -/
theorem counter_countDown (s : Dram cfg) (t : Timing) (b : Nat) :
    t.counter s b ≤ t.counter (countDown s) b + 1 := by
  by_cases hb : b < cfg.nbk
  · by_cases hg : get_bankgrp_number cfg b < cfg.nbkgrp
    · cases t <;> simp only [Timing.counter, dram_t.countDown, if_pos hb, if_pos hg] <;> omega
    · cases t <;> simp only [Timing.counter, dram_t.countDown, if_pos hb, if_neg hg] <;> omega
  · by_cases hg : get_bankgrp_number cfg b < cfg.nbkgrp
    · cases t <;> simp only [Timing.counter, dram_t.countDown, if_neg hb, if_pos hg] <;> omega
    · cases t <;> simp only [Timing.counter, dram_t.countDown, if_neg hb, if_neg hg] <;> omega

theorem countDown (h : Timed s) :
    Timed { countDown s with pushed := false, cycles := s.cycles + 1 } := by
  refine ⟨?_, ?_, h.spaced, ?_, h.rows⟩
  · intro c hc
    exact Nat.le_succ_of_le (h.past c hc)
  · intro c hc t hstarts b hnear
    have hcounted := h.counted c hc t hstarts b hnear
    have hcounter := counter_countDown s t b
    have hsame : t.counter { dram_t.countDown s with pushed := false, cycles := s.cycles + 1 } b =
        t.counter (dram_t.countDown s) b := by
      cases t <;> rfl
    rw [hsame]
    change _ ≤ s.cycles + 1 + _
    omega
  · intro b
    refine Eq.trans ?_ (h.opened b)
    simp only [Dram.openRow, dram_t.countDown]
    split_ifs <;> rfl

theorem cycle (h : Timed s) : Timed (cycle s) := by
  have hreturn := h.same (SameTiming.returnData s)
  cases htype : cfg.scheduler_type with
  | DRAM_FIFO =>
    have hfifo := (hreturn.same (SameTiming.scheduler_fifo _)).issueCommands.countDown
    simp only [dram_t.cycle, htype]
    exact hfifo
  | DRAM_FRFCFS =>
    have hfrfcfs := (hreturn.same (SameTiming.scheduler_frfcfs _)).issueCommands.countDown
    simp only [dram_t.cycle, htype]
    exact hfrfcfs

theorem reach {ok : Dram cfg → DramAction cfg → Prop} (hr : DramReach cfg ok s) : Timed s := by
  induction hr with
  | start => exact start
  | step _ hnext ih =>
    obtain ⟨-, a, -, -, rfl⟩ := hnext
    cases a with
    | return_queue_pop => exact ih.same (SameTiming.of_mrq rfl rfl rfl rfl rfl rfl rfl
        fun b => ⟨_, rfl⟩)
    | push req => exact ih.same (SameTiming.of_mrq rfl rfl rfl rfl rfl rfl rfl
        fun b => ⟨_, rfl⟩)
    | cycle => exact ih.cycle

end Timed

/-- Reads and writes are of the open row of an active bank, and any two commands keep all
delays between them. -/
theorem dram_keeps_its_timing {s : Dram cfg} (hr : DramReach cfg (fun _ _ => True) s) :
    s.commands.Pairwise (Spaced cfg Timing.scope) ∧ RowsOpen s.commands ∧
      ∀ b, s.openRow b = openRow b s.commands :=
  have h := Timed.reach hr
  ⟨h.spaced, h.rows, h.opened⟩

/-- Reads and writes share the queue. -/
def oneQueue : MemoryConfig := { smallChannel with seperate_write_queue_enabled := false }

/-- A read in bank 1, a write in bank 0 of the same group, and a read of another row in
bank 1. -/
def otherRow : List (DramAction oneQueue) :=
  [.push (request second_bank 5 false), .cycle, .cycle, .cycle,
    .push (request first_bank 1 true), .cycle, .cycle, .cycle, .cycle, .cycle, .cycle,
    .cycle, .push (request second_bank 6 false), .cycle]

theorem otherRow_commands : (otherRow.foldl happens {}).commands =
    [{ kind := .ACT, bank := 1, row := 5, time := 0 },
      { kind := .ACT, bank := 0, row := 1, time := 3 },
      { kind := .RD, bank := 1, row := 5, time := 4 },
      { kind := .WR, bank := 0, row := 1, time := 9 },
      { kind := .PRE, bank := 1, row := 5, time := 10 }] := by
  decide +kernel

theorem otherRow_keeps_its_timing :
    (otherRow.foldl happens {}).commands.Pairwise (Spaced oneQueue Timing.scope) ∧
      RowsOpen (otherRow.foldl happens {}).commands ∧
        ∀ b, (otherRow.foldl happens {}).openRow b = openRow b (otherRow.foldl happens {}).commands :=
  dram_keeps_its_timing (dramReach_run .start (by decide +kernel))

/-- The delay between a write and a precharge is kept in the bank of the write only. -/
theorem a_write_does_not_hold_back_its_group :
    ¬ ∀ (cfg : MemoryConfig) (s : Dram cfg), DramReach cfg (fun _ _ => True) s →
      s.commands.Pairwise (Spaced cfg (Function.update Timing.scope .tWTP .bankGroup)) := by
  intro h
  have hspaced := h oneQueue (otherRow.foldl happens {}) (dramReach_run .start (by decide +kernel))
  rw [otherRow_commands, List.pairwise_iff_getElem] at hspaced
  have hdelay := hspaced 3 4 (by decide) (by decide) (by decide) .tWTP rfl rfl (by decide)
  revert hdelay
  decide

end gpgpu_sim_uvm.dram_t
