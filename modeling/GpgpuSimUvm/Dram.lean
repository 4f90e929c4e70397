-- A DRAM channel (dram.cc): banks with their timing counters, the requests that wait for a
-- bank, and the commands that a cycle issues.
import GpgpuSimUvm.FrFcfs

/-! ## Pipelines -/

/-- `fifo_pipeline<T>` of delayqueue.h, from head to tail. An element without data is a
delay. -/
structure FifoPipeline (T : Type) where
  m_min_len : Nat
  m_max_len : Nat
  elements : List (Option T)
  /-- An assertion failed. -/
  failed : Bool := false

namespace FifoPipeline

variable {T : Type}

def full (q : FifoPipeline T) : Bool :=
  decide (q.m_max_len ≠ 0 ∧ q.m_max_len ≤ q.elements.length)

/-- A delay at the tail is overwritten, unless the pipeline is shorter than its least length. -/
def push (q : FifoPipeline T) (data : Option T) : FifoPipeline T :=
  { q with
    failed := q.failed || !decide (q.elements.length < q.m_max_len)
    elements :=
      match q.elements.getLast? with
      | none => [data]
      | some last =>
        if last.isSome || decide (q.elements.length < q.m_min_len) then q.elements ++ [data]
        else q.elements.dropLast ++ [data] }

/-- `n` delays. -/
def pushDelays (q : FifoPipeline T) (n : Nat) : FifoPipeline T :=
  (fun q => q.push none)^[n] q

def new (minlen maxlen : Nat) : FifoPipeline T :=
  pushDelays { m_min_len := minlen, m_max_len := maxlen, elements := [] } minlen

def pop (q : FifoPipeline T) : Option T × FifoPipeline T :=
  match q.elements with
  | [] => (none, q)
  | data :: rest =>
    let q := { q with elements := rest }
    (data, if q.m_min_len ≠ 0 ∧ rest.length < q.m_min_len then q.push none else q)

/-- A longer pipeline is filled with delays, a shorter one loses the delays at its tail. -/
def set_min_length (q : FifoPipeline T) (new_min_len : Nat) : FifoPipeline T :=
  if new_min_len = q.m_min_len then q
  else if q.m_min_len < new_min_len then
    pushDelays { q with m_min_len := new_min_len } (new_min_len - q.elements.length)
  else
    { q with
      failed := q.failed || q.elements.isEmpty
      m_min_len := new_min_len
      elements := q.elements.take new_min_len ++
        ((q.elements.drop new_min_len).reverse.dropWhile Option.isNone).reverse }

end FifoPipeline

namespace gpgpu_sim_uvm.dram_t

open memory_partition_unit (MemFetch)

/-! ## Banks -/

inductive BankState
  | BANK_IDLE | BANK_ACTIVE
  deriving DecidableEq, Repr

inductive ReadWrite
  | READ | WRITE
  deriving DecidableEq, Repr

/-- `bank_t` -/
structure Bank (nbk : Nat) where
  RCDc : Nat := 0
  RCDWRc : Nat := 0
  RASc : Nat := 0
  RPc : Nat := 0
  RCc : Nat := 0
  WTPc : Nat := 0
  RTPc : Nat := 0
  state : BankState := .BANK_IDLE
  curr_row : Nat := 0
  mrq : Option (DramReq nbk) := none

/-- `bankgrp_t` -/
structure BankGrp where
  CCDLc : Nat := 0
  RTPLc : Nat := 0

inductive CommandKind
  | RD | WR | ACT | PRE
  deriving DecidableEq, Repr

/-- A command of the bus, with its cycle and the row that it reads, writes, opens or closes. -/
structure Command where
  kind : CommandKind
  bank : Nat
  row : Nat
  time : Nat
  deriving DecidableEq

structure Dram (cfg : MemoryConfig) where
  bk : Nat → Bank cfg.nbk := fun _ => {}
  bkgrp : Nat → BankGrp := fun _ => {}
  prio : Nat := 0
  rw : ReadWrite := .READ
  CCDc : Nat := 0
  RRDc : Nat := 0
  RTWc : Nat := 0
  WTRc : Nat := 0
  rwq : FifoPipeline (DramReq cfg.nbk) := .new cfg.CL (cfg.CL + 1)
  mrqq : List (DramReq cfg.nbk) := []
  returnq : List MemFetch := []
  m_frfcfs_scheduler : FrfcfsScheduler cfg := {}
  /-- The counts of bytes in the objects of the requests. -/
  txbytes : Nat → Nat := fun _ => 0
  dqbytes : Nat → Nat := fun _ => 0
  /-- The object of the next request. -/
  next_req : Nat := 0
  /-- The write-backs that the partition was told of by `set_done`. -/
  done : List MemFetch := []
  /-- The partition pushed since the last cycle. -/
  pushed : Bool := false
  cycles : Nat := 0
  /-- All commands so far, oldest first. -/
  commands : List Command := []
  /-- An assertion on `mrqq` failed. -/
  aborted : Bool := false

namespace Dram

variable {cfg : MemoryConfig}

def failed (s : Dram cfg) : Bool := s.aborted || s.rwq.failed || s.m_frfcfs_scheduler.aborted

def setBank (s : Dram cfg) (j : Nat) (b : Bank cfg.nbk) : Dram cfg :=
  { s with bk := Function.update s.bk j b }

def issued (s : Dram cfg) (kind : CommandKind) (j row : Nat) : Dram cfg :=
  { s with commands := s.commands ++ [{ kind := kind, bank := j, row := row, time := s.cycles }] }

end Dram

variable {cfg : MemoryConfig}

def get_bankgrp_number (cfg : MemoryConfig) (i : Nat) : Nat :=
  match cfg.dram_bnkgrp_indexing_policy with
  | .HIGHER_BITS => i >>> cfg.bk_tag_length
  | .LOWER_BITS => i &&& (cfg.nbkgrp - 1)

def mrqqSize : Nat := 2

def returnqSize (cfg : MemoryConfig) : Nat :=
  if cfg.gpgpu_dram_return_queue_size = 0 then 1024 else cfg.gpgpu_dram_return_queue_size

/-- `full`. A queue size of zero is no limit. -/
def full (s : Dram cfg) (is_write : Bool) : Bool :=
  match cfg.scheduler_type with
  | .DRAM_FRFCFS =>
    if cfg.gpgpu_frfcfs_dram_sched_queue_size = 0 then false
    else if cfg.seperate_write_queue_enabled && is_write then
      decide (cfg.gpgpu_frfcfs_dram_write_queue_size ≤ s.m_frfcfs_scheduler.m_num_write_pending)
    else decide (cfg.gpgpu_frfcfs_dram_sched_queue_size ≤ s.m_frfcfs_scheduler.m_num_pending)
  | .DRAM_FIFO => decide (mrqqSize ≤ s.mrqq.length)

/-- `push`, of a request that its constructor made from a `mem_fetch`. -/
def push (s : Dram cfg) (req : DramReq cfg.nbk) : Dram cfg :=
  { s with
    aborted := s.aborted || !decide (s.mrqq.length < mrqqSize)
    mrqq := s.mrqq ++ [{ req with ptr := s.next_req }]
    next_req := s.next_req + 1
    pushed := true }

/-! ## The requests of the banks -/

def scheduler_fifo (s : Dram cfg) : Dram cfg :=
  match s.mrqq with
  | [] => s
  | req :: rest =>
    if (s.bk req.bk).mrq.isNone then
      { s.setBank req.bk { s.bk req.bk with mrq := some req } with mrqq := rest }
    else s

/-- The loop of `scheduler_frfcfs` over the banks, which ends with the first request. -/
def askBanks : List Nat → Dram cfg → Dram cfg
  | [], s => s
  | i :: is, s =>
    let b := (i + s.prio) % cfg.nbk
    if (s.bk b).mrq.isSome then askBanks is s
    else
      let r := s.m_frfcfs_scheduler.schedule b (s.bk b).curr_row
      let s := { s with m_frfcfs_scheduler := r.2 }
      match r.1 with
      | none => askBanks is s
      | some req =>
        { s.setBank b { s.bk b with mrq := some req } with prio := (s.prio + 1) % cfg.nbk }

/-- The requests of `mrqq` go to the scheduler. -/
def drainMrqq (s : Dram cfg) : Dram cfg :=
  { s with
    m_frfcfs_scheduler := s.mrqq.foldl FrfcfsScheduler.add_req s.m_frfcfs_scheduler
    mrqq := [] }

def scheduler_frfcfs (s : Dram cfg) : Dram cfg :=
  askBanks (List.range cfg.nbk) (drainMrqq s)

/-! ## Commands -/

/-- The tests that a read of the request of a bank passes. -/
def canRead (s : Dram cfg) (j : Nat) (req : DramReq cfg.nbk) : Bool :=
  decide (s.CCDc = 0 ∧ (s.bk j).RCDc = 0 ∧ (s.bkgrp (get_bankgrp_number cfg j)).CCDLc = 0 ∧
    (s.bk j).curr_row = req.row ∧ req.is_write = false ∧ s.WTRc = 0 ∧
    (s.bk j).state = .BANK_ACTIVE ∧ s.rwq.full = false)

def canWrite (s : Dram cfg) (j : Nat) (req : DramReq cfg.nbk) : Bool :=
  decide (s.CCDc = 0 ∧ (s.bk j).RCDWRc = 0 ∧ (s.bkgrp (get_bankgrp_number cfg j)).CCDLc = 0 ∧
    (s.bk j).curr_row = req.row ∧ req.is_write = true ∧ s.RTWc = 0 ∧
    (s.bk j).state = .BANK_ACTIVE ∧ s.rwq.full = false)

/-- The change between reads and writes, with the least length of `rwq` for them. -/
def turnBus (s : Dram cfg) (rw : ReadWrite) (min_length : Nat) : Dram cfg :=
  if s.rw = rw then s else { s with rw := rw, rwq := s.rwq.set_min_length min_length }

/-- The data of a burst goes to `rwq`, and the bank is free when it was the last one. -/
def transfer (s : Dram cfg) (j : Nat) (req : DramReq cfg.nbk) : Dram cfg :=
  let s :=
    { s with
      rwq := s.rwq.push (some req)
      txbytes := Function.update s.txbytes req.ptr
        ((s.txbytes req.ptr + cfg.dram_atom_size) % 4294967296) }
  if s.txbytes req.ptr < req.nbytes then s else s.setBank j { s.bk j with mrq := none }

/-- The branch of `issue_col_command` for a read. -/
def read (s : Dram cfg) (j : Nat) (req : DramReq cfg.nbk) : Dram cfg :=
  let grp := get_bankgrp_number cfg j
  let s := transfer (turnBus s .READ cfg.CL) j req
  { s.setBank j { s.bk j with RTPc := cfg.BL / cfg.data_command_freq_ratio } with
    CCDc := cfg.tCCD
    RTWc := cfg.tRTW
    bkgrp := Function.update s.bkgrp grp { CCDLc := cfg.tCCDL, RTPLc := cfg.tRTPL } }.issued .RD j
      req.row

/-- The branch for a write. -/
def write (s : Dram cfg) (j : Nat) (req : DramReq cfg.nbk) : Dram cfg :=
  let grp := get_bankgrp_number cfg j
  let s := transfer (turnBus s .WRITE cfg.WL) j req
  { s.setBank j { s.bk j with WTPc := cfg.tWTP } with
    CCDc := cfg.tCCD
    WTRc := cfg.tWTR
    bkgrp := Function.update s.bkgrp grp { s.bkgrp grp with CCDLc := cfg.tCCDL } }.issued .WR j
      req.row

def issue_col_command (s : Dram cfg) (j : Nat) : Bool × Dram cfg :=
  match (s.bk j).mrq with
  | none => (false, s)
  | some req =>
    if canRead s j req then (true, read s j req)
    else if canWrite s j req then (true, write s j req)
    else (false, s)

def canActivate (s : Dram cfg) (j : Nat) : Bool :=
  decide (s.RRDc = 0 ∧ (s.bk j).state = .BANK_IDLE ∧ (s.bk j).RPc = 0 ∧ (s.bk j).RCc = 0)

def canPrecharge (s : Dram cfg) (j : Nat) (req : DramReq cfg.nbk) : Bool :=
  decide ((s.bk j).curr_row ≠ req.row ∧ (s.bk j).state = .BANK_ACTIVE ∧ (s.bk j).RASc = 0 ∧
    (s.bk j).WTPc = 0 ∧ (s.bk j).RTPc = 0 ∧ (s.bkgrp (get_bankgrp_number cfg j)).RTPLc = 0)

/-- The branch of `issue_row_command` that opens the row of the request. -/
def activate (s : Dram cfg) (j : Nat) (req : DramReq cfg.nbk) : Dram cfg :=
  { s.setBank j
      { s.bk j with
        curr_row := req.row
        state := .BANK_ACTIVE
        RCDc := cfg.tRCD
        RCDWRc := cfg.tRCDWR
        RASc := cfg.tRAS
        RCc := cfg.tRC } with
    RRDc := cfg.tRRD
    prio := (j + 1) % cfg.nbk }.issued .ACT j req.row

def precharge (s : Dram cfg) (j : Nat) : Dram cfg :=
  { s.setBank j { s.bk j with state := .BANK_IDLE, RPc := cfg.tRP } with
    prio := (j + 1) % cfg.nbk }.issued .PRE j (s.bk j).curr_row

def issue_row_command (s : Dram cfg) (j : Nat) : Bool × Dram cfg :=
  match (s.bk j).mrq with
  | none => (false, s)
  | some req =>
    if canActivate s j then (true, activate s j req)
    else if canPrecharge s j req then (true, precharge s j)
    else (false, s)

/-! ## A cycle -/

/-- What leaves `rwq`, where the return queue has room. -/
def returnData (s : Dram cfg) : Dram cfg :=
  if s.returnq.length < returnqSize cfg then
    let r := s.rwq.pop
    let s := { s with rwq := r.2 }
    match r.1 with
    | none => s
    | some cmd =>
      let s :=
        { s with
          dqbytes := Function.update s.dqbytes cmd.ptr
            ((s.dqbytes cmd.ptr + cfg.dram_atom_size) % 4294967296) }
      if cmd.nbytes ≤ s.dqbytes cmd.ptr then
        if cmd.data.isWriteBack then { s with done := s.done ++ [cmd.data] }
        else { s with returnq := s.returnq ++ [cmd.data] }
      else s
  else s

/-- A pass over the banks that ends with the first command. -/
def issueFirst (issue : Dram cfg → Nat → Bool × Dram cfg) : List Nat → Dram cfg → Dram cfg
  | [], s => s
  | i :: is, s =>
    let r := issue s ((i + s.prio) % cfg.nbk)
    if r.1 then r.2 else issueFirst issue is r.2

/-- The pass of the single bus. The order of the banks follows `prio`, which a row command
changes on the way. -/
def issueShared : List Nat → Bool → Bool → Dram cfg → Dram cfg
  | [], _, _, s => s
  | i :: is, issued_col_cmd, issued_row_cmd, s =>
    let j := (i + s.prio) % cfg.nbk
    let col := if issued_col_cmd then (true, s) else issue_col_command s j
    let row :=
      if col.1 || issued_row_cmd then (issued_row_cmd, col.2) else issue_row_command col.2 j
    issueShared is col.1 row.1 row.2

def issueCommands (s : Dram cfg) : Dram cfg :=
  if cfg.dual_bus_interface then
    issueFirst issue_row_command (List.range cfg.nbk)
      (issueFirst issue_col_command (List.range cfg.nbk) s)
  else issueShared (List.range cfg.nbk) false false s

/-- What every command keeps, a cycle's commands keep. -/
theorem issueCommands_rule {R : Dram cfg → Dram cfg → Prop} (hrefl : ∀ s, R s s)
    (htrans : ∀ {a b c}, R a b → R b c → R a c) (hcol : ∀ s j, R s (issue_col_command s j).2)
    (hrow : ∀ s j, R s (issue_row_command s j).2) (s : Dram cfg) : R s (issueCommands s) := by
  have hfirst : ∀ issue : Dram cfg → Nat → Bool × Dram cfg, (∀ s j, R s (issue s j).2) →
      ∀ is s, R s (issueFirst issue is s) := by
    intro issue hissue is
    induction is with
    | nil => exact hrefl
    | cons i is ih =>
      intro s
      simp only [issueFirst]
      split_ifs
      · exact hissue _ _
      · exact htrans (hissue _ _) (ih _)
  have hshared : ∀ is col row s, R s (issueShared is col row s) := by
    intro is
    induction is with
    | nil => exact fun _ _ => hrefl
    | cons i is ih =>
      intro col row s
      simp only [issueShared]
      have hcol' : R s
          (if col then (true, s) else issue_col_command s ((i + s.prio) % cfg.nbk)).2 := by
        split_ifs
        · exact hrefl s
        · exact hcol s _
      refine htrans (htrans hcol' ?_) (ih _ _ _)
      split_ifs
      · exact hrefl _
      · exact hrow _ _
      · exact hrefl _
      · exact hrow _ _
  simp only [issueCommands]
  split_ifs
  · exact htrans (hfirst _ hcol _ s) (hfirst _ hrow _ _)
  · exact hshared _ _ _ s

/-- `DEC2ZERO` on all counters. -/
def countDown (s : Dram cfg) : Dram cfg :=
  { s with
    RRDc := s.RRDc - 1
    CCDc := s.CCDc - 1
    RTWc := s.RTWc - 1
    WTRc := s.WTRc - 1
    bk := fun j =>
      if j < cfg.nbk then
        { s.bk j with
          RCDc := (s.bk j).RCDc - 1
          RASc := (s.bk j).RASc - 1
          RCc := (s.bk j).RCc - 1
          RPc := (s.bk j).RPc - 1
          RCDWRc := (s.bk j).RCDWRc - 1
          WTPc := (s.bk j).WTPc - 1
          RTPc := (s.bk j).RTPc - 1 }
      else s.bk j
    bkgrp := fun j =>
      if j < cfg.nbkgrp then
        { CCDLc := (s.bkgrp j).CCDLc - 1, RTPLc := (s.bkgrp j).RTPLc - 1 }
      else s.bkgrp j }

def cycle (s : Dram cfg) : Dram cfg :=
  let s := returnData s
  let s :=
    match cfg.scheduler_type with
    | .DRAM_FIFO => scheduler_fifo s
    | .DRAM_FRFCFS => scheduler_frfcfs s
  let s := countDown (issueCommands s)
  { s with pushed := false, cycles := s.cycles + 1 }

/-! ## Runs -/

inductive DramAction (cfg : MemoryConfig)
  | return_queue_pop
  | cycle
  | push (req : DramReq cfg.nbk)

/-- The partition pushes one request between two cycles, when the channel is not full. -/
def canHappen (s : Dram cfg) : DramAction cfg → Bool
  | .push req => !s.pushed && !full s req.is_write
  | _ => true

def happens (s : Dram cfg) : DramAction cfg → Dram cfg
  | .return_queue_pop => { s with returnq := s.returnq.tail }
  | .cycle => cycle s
  | .push req => push s req

/-- A step of a channel whose assertions held so far. -/
def DramNext (ok : Dram cfg → DramAction cfg → Prop) (s s' : Dram cfg) : Prop :=
  s.failed = false ∧ ∃ a, canHappen s a = true ∧ ok s a ∧ s' = happens s a

/-- The states of all runs whose steps meet the condition. -/
def DramReach (cfg : MemoryConfig) (ok : Dram cfg → DramAction cfg → Prop) : Dram cfg → Prop :=
  monitor.Reach {} (DramNext ok)

/-- The actions can happen one after the other, each under the condition. -/
def canRun (ok : Dram cfg → DramAction cfg → Prop) [∀ s a, Decidable (ok s a)] :
    Dram cfg → List (DramAction cfg) → Bool
  | _, [] => true
  | s, a :: as => !s.failed && canHappen s a && decide (ok s a) && canRun ok (happens s a) as

theorem dramReach_run {ok : Dram cfg → DramAction cfg → Prop} [∀ s a, Decidable (ok s a)]
    {as : List (DramAction cfg)} {s : Dram cfg} (hs : DramReach cfg ok s)
    (has : canRun ok s as = true) : DramReach cfg ok (as.foldl happens s) := by
  induction as generalizing s with
  | nil => exact hs
  | cons a as ih =>
    simp only [canRun, Bool.and_eq_true, Bool.not_eq_true', decide_eq_true_eq] at has
    exact ih (hs.step ⟨has.1.1.1, a, has.1.1.2, has.1.2, rfl⟩) has.2

end gpgpu_sim_uvm.dram_t
