-- What the first-ready scheduler does for a DRAM channel over whole runs: which requests it
-- hands out, in which order, and when a bank without a request gets one.
import GpgpuSimUvm.Dram
import GpgpuSimUvm.Monitor

namespace gpgpu_sim_uvm.dram_t

variable {cfg : MemoryConfig}

/-! ## Requests that are handed out -/

/-- Each request is handed out at most once and is in its queue before that, in the order
of its row. The counts and the iterators are those of the queues. -/
structure ServesEachOnce (s : FrfcfsScheduler cfg) : Prop where
  asserted : s.aborted = false
  distinct : s.added.Nodup
  once : ∀ req, s.added.count req = s.returned.count req +
    ((s.queues (queueOf cfg req) req.bk).m_queue.map Prod.snd).count req
  home : ∀ m bank, ∀ node ∈ (s.queues m bank).m_queue, queueOf cfg node.2 = m ∧ node.2.bk = bank
  oldest_first : ∀ m bank row, s.returned.filter (FrfcfsScheduler.isOf cfg m bank row) <+:
    s.added.filter (FrfcfsScheduler.isOf cfg m bank row)
  num_pending : s.m_num_pending =
    ∑ bank ∈ Finset.range cfg.nbk, (s.queues .READ_MODE bank).m_queue.length
  num_write_pending : s.m_num_write_pending =
    ∑ bank ∈ Finset.range cfg.nbk, (s.queues .WRITE_MODE bank).m_queue.length
  live : ∀ m bank row bin, (s.queues m bank).m_bins.find row = some bin → ∀ it ∈ bin,
    ∃ req, (it, req) ∈ (s.queues m bank).m_queue ∧ req.row = row
  /-- A bank that has requests in the mode gets one of them. -/
  served : ∀ bank < cfg.nbk, ∀ curr_row,
    (s.queues (switchMode cfg s.m_num_write_pending s.m_mode) bank).m_queue ≠ [] →
      (s.schedule bank curr_row).1 ≠ none

namespace FrfcfsScheduler

variable {s : FrfcfsScheduler cfg}

theorem Kept.count_waiting (h : Kept s) (req : DramReq cfg.nbk) :
    s.added.count req = s.returned.count req +
      ((s.queues (queueOf cfg req) req.bk).m_queue.map Prod.snd).count req := by
  have hof : isOf cfg (queueOf cfg req) req.bk req.row req = true := isOf_iff.mpr ⟨rfl, rfl, rfl⟩
  let sameRow : DramReq cfg.nbk → Bool := fun r => decide (r.row = req.row)
  have hrow : ((s.queues (queueOf cfg req) req.bk).m_queue.map Prod.snd).count req =
      (s.waiting (queueOf cfg req) req.bk req.row).count req := by
    have hfilter : s.waiting (queueOf cfg req) req.bk req.row =
        (((s.queues (queueOf cfg req) req.bk).m_queue.map Prod.snd).filter sameRow).reverse := by
      rw [waiting, BankQueue.ofRow, List.filter_map]
      rfl
    have hself : sameRow req = true := decide_eq_true rfl
    rw [hfilter, List.count_reverse, List.count_filter hself]
  rw [← List.count_filter hof, h.history, List.count_append, List.count_filter hof, hrow]

theorem Kept.servesEachOnce (h : Kept s) (hdistinct : s.added.Nodup) : ServesEachOnce s := by
  refine ⟨h.aborted, hdistinct, h.count_waiting, h.home, ?_, h.pending _, h.pending _, ?_, ?_⟩
  · intro m bank row
    exact ⟨_, (h.history m bank row).symm⟩
  · intro m bank row bin hbin it hit
    rw [(h.sound m bank).bins] at hbin
    split_ifs at hbin
    cases hbin
    obtain ⟨node, hnode, rfl⟩ := List.mem_map.mp hit
    exact ⟨node.2, BankQueue.mem_ofRow.mp hnode⟩
  · intro bank hbank curr_row hqueue
    obtain ⟨-, -, -, ⟨hempty, -⟩ | ⟨req, hreq, -⟩⟩ := h.schedule hbank curr_row
    · exact absurd hempty hqueue
    · rw [hreq]
      exact Option.some_ne_none req

/-- An addition without a failed assertion. -/
theorem Kept.added_ok (h : Kept s) {req : DramReq cfg.nbk} (hok : (s.add_req req).aborted = false) :
    Kept (s.add_req req) := by
  apply h.add_req
  change (s.aborted || !decide _) = false at hok
  rw [h.aborted, Bool.false_or, Bool.not_eq_false', decide_eq_true_eq] at hok
  exact hok

/-- An assertion that failed stays so while requests are added. -/
theorem aborted_foldl (reqs : List (DramReq cfg.nbk)) (s : FrfcfsScheduler cfg)
    (hok : (reqs.foldl add_req s).aborted = false) : s.aborted = false := by
  induction reqs generalizing s with
  | nil => exact hok
  | cons req reqs ih =>
    have hfirst : (s.aborted || !decide _) = false := ih _ hok
    exact (Bool.or_eq_false_iff.mp hfirst).1

theorem Kept.addAll (h : Kept s) (reqs : List (DramReq cfg.nbk))
    (hok : (reqs.foldl FrfcfsScheduler.add_req s).aborted = false) :
    Kept (reqs.foldl FrfcfsScheduler.add_req s) := by
  induction reqs generalizing s with
  | nil => exact h
  | cons req reqs ih => exact ih (h.added_ok (aborted_foldl reqs _ hok)) hok

theorem added_foldl (reqs : List (DramReq cfg.nbk)) (s : FrfcfsScheduler cfg) :
    (reqs.foldl add_req s).added = s.added ++ reqs := by
  induction reqs generalizing s with
  | nil => exact (List.append_nil _).symm
  | cons req reqs ih =>
    have hfirst : (s.add_req req).added = s.added ++ [req] := rfl
    rw [List.foldl_cons, ih, hfirst, List.append_assoc, List.singleton_append]

end FrfcfsScheduler

/-! ## Banks that ask -/

open FrfcfsScheduler (Kept)

/-- What the loop over the banks leaves alone. -/
theorem askBanks_frame (is : List Nat) (s : Dram cfg) :
    (askBanks is s).mrqq = s.mrqq ∧ (askBanks is s).next_req = s.next_req ∧
      (askBanks is s).rwq = s.rwq ∧ (askBanks is s).aborted = s.aborted ∧
      (askBanks is s).pushed = s.pushed := by
  induction is generalizing s with
  | nil => exact ⟨rfl, rfl, rfl, rfl, rfl⟩
  | cons i is ih =>
    simp only [askBanks]
    split_ifs
    · exact ih s
    · split
      · exact ih _
      · exact ⟨rfl, rfl, rfl, rfl, rfl⟩

theorem schedule_aborted {s : FrfcfsScheduler cfg} {bank curr_row : Nat}
    (hok : (s.schedule bank curr_row).2.aborted = false) : s.aborted = false := by
  simp only [FrfcfsScheduler.schedule] at hok
  split at hok
  · cases hok
  · exact hok
  · exact (Bool.or_eq_false_iff.mp hok).1

theorem askBanks_aborted (is : List Nat) (s : Dram cfg)
    (hok : (askBanks is s).m_frfcfs_scheduler.aborted = false) :
    s.m_frfcfs_scheduler.aborted = false := by
  induction is generalizing s with
  | nil => exact hok
  | cons i is ih =>
    simp only [askBanks] at hok
    split_ifs at hok
    · exact ih s hok
    · split at hok
      · exact schedule_aborted (ih _ hok)
      · exact schedule_aborted hok

theorem askBanks_keeps (is : List Nat) (s : Dram cfg) (hnbk : 0 < cfg.nbk)
    (h : Kept s.m_frfcfs_scheduler) :
    Kept (askBanks is s).m_frfcfs_scheduler ∧
      (askBanks is s).m_frfcfs_scheduler.added = s.m_frfcfs_scheduler.added := by
  induction is generalizing s with
  | nil => exact ⟨h, rfl⟩
  | cons i is ih =>
    simp only [askBanks]
    split_ifs
    · exact ih s h
    · have hschedule := h.schedule (Nat.mod_lt (i + s.prio) hnbk)
        (s.bk ((i + s.prio) % cfg.nbk)).curr_row
      split
      · obtain ⟨hkept, hadded⟩ := ih { s with m_frfcfs_scheduler := _ } hschedule.1
        exact ⟨hkept, hadded.trans hschedule.2.2.1⟩
      · exact ⟨hschedule.1, hschedule.2.2.1⟩

/-! ## The rest of a cycle -/

/-- A part of a cycle that leaves the requests of the scheduler alone. -/
structure SameQueues (s s' : Dram cfg) : Prop where
  sched : s'.m_frfcfs_scheduler = s.m_frfcfs_scheduler
  mrqq : s'.mrqq = s.mrqq
  next_req : s'.next_req = s.next_req
  aborted : s'.aborted = s.aborted
  pushed : s'.pushed = s.pushed

namespace SameQueues

theorem refl (s : Dram cfg) : SameQueues s s := ⟨rfl, rfl, rfl, rfl, rfl⟩

theorem trans {a b c : Dram cfg} (h : SameQueues a b) (h' : SameQueues b c) : SameQueues a c :=
  ⟨h'.sched.trans h.sched, h'.mrqq.trans h.mrqq, h'.next_req.trans h.next_req,
    h'.aborted.trans h.aborted, h'.pushed.trans h.pushed⟩

theorem returnData (s : Dram cfg) : SameQueues s (returnData s) := by
  simp only [dram_t.returnData]
  split_ifs
  · split
    · exact ⟨rfl, rfl, rfl, rfl, rfl⟩
    · split_ifs <;> exact ⟨rfl, rfl, rfl, rfl, rfl⟩
  · exact refl s

theorem transfer (s : Dram cfg) (j : Nat) (req : DramReq cfg.nbk) :
    SameQueues s (transfer s j req) := by
  simp only [dram_t.transfer]
  split_ifs <;> exact ⟨rfl, rfl, rfl, rfl, rfl⟩

theorem turnBus (s : Dram cfg) (rw : ReadWrite) (n : Nat) : SameQueues s (turnBus s rw n) := by
  simp only [dram_t.turnBus]
  split_ifs
  · exact refl s
  · exact ⟨rfl, rfl, rfl, rfl, rfl⟩

theorem read (s : Dram cfg) (j : Nat) (req : DramReq cfg.nbk) : SameQueues s (read s j req) :=
  ((turnBus s _ _).trans (transfer _ j req)).trans ⟨rfl, rfl, rfl, rfl, rfl⟩

theorem write (s : Dram cfg) (j : Nat) (req : DramReq cfg.nbk) : SameQueues s (write s j req) :=
  ((turnBus s _ _).trans (transfer _ j req)).trans ⟨rfl, rfl, rfl, rfl, rfl⟩

theorem issue_col_command (s : Dram cfg) (j : Nat) :
    SameQueues s (issue_col_command s j).2 := by
  simp only [dram_t.issue_col_command]
  split
  · exact refl s
  · split_ifs
    · exact read s j _
    · exact write s j _
    · exact refl s

theorem issue_row_command (s : Dram cfg) (j : Nat) :
    SameQueues s (issue_row_command s j).2 := by
  simp only [dram_t.issue_row_command]
  split
  · exact refl s
  · split_ifs
    · exact ⟨rfl, rfl, rfl, rfl, rfl⟩
    · exact ⟨rfl, rfl, rfl, rfl, rfl⟩
    · exact refl s

theorem issueCommands (s : Dram cfg) : SameQueues s (issueCommands s) :=
  issueCommands_rule refl (fun h h' => h.trans h') issue_col_command issue_row_command s

theorem countDown (s : Dram cfg) : SameQueues s (countDown s) := ⟨rfl, rfl, rfl, rfl, rfl⟩

/-- The commands of a cycle and the end of it. -/
theorem issued (s : Dram cfg) : SameQueues s (dram_t.countDown (dram_t.issueCommands s)) :=
  (issueCommands s).trans (countDown _)

end SameQueues

theorem scheduler_fifo_sched (s : Dram cfg) :
    (scheduler_fifo s).m_frfcfs_scheduler = s.m_frfcfs_scheduler := by
  simp only [scheduler_fifo]
  split
  · rfl
  · split_ifs <;> rfl

theorem scheduler_frfcfs_keeps (s : Dram cfg)
    (h : Kept (drainMrqq s).m_frfcfs_scheduler) :
    Kept (scheduler_frfcfs s).m_frfcfs_scheduler ∧
      (scheduler_frfcfs s).m_frfcfs_scheduler.added =
        s.m_frfcfs_scheduler.added ++ s.mrqq := by
  have hadded := FrfcfsScheduler.added_foldl s.mrqq s.m_frfcfs_scheduler
  rcases Nat.eq_zero_or_pos cfg.nbk with hnbk | hnbk
  · have hrange : List.range cfg.nbk = [] := by rw [hnbk, List.range_zero]
    rw [scheduler_frfcfs, hrange]
    exact ⟨h, hadded⟩
  · obtain ⟨hkept, hsame⟩ := askBanks_keeps (List.range cfg.nbk) (drainMrqq s) hnbk h
    exact ⟨hkept, hsame.trans hadded⟩

/-! ## Runs with room -/

/-- A push that the scheduler has room for: its queue has a size, or the request goes to the
write queue below its size. -/
def Fits (s : Dram cfg) : DramAction cfg → Prop
  | .push req => cfg.gpgpu_frfcfs_dram_sched_queue_size ≠ 0 ∨
      cfg.seperate_write_queue_enabled = true ∧ req.is_write = true ∧
        s.m_frfcfs_scheduler.m_num_write_pending < cfg.gpgpu_frfcfs_dram_write_queue_size
  | _ => True

/-- The channel between two steps: the scheduler is in order, and has room for the request
that was pushed since it ran. -/
structure Orderly (s : Dram cfg) : Prop where
  kept : Kept s.m_frfcfs_scheduler
  one : cfg.scheduler_type = .DRAM_FRFCFS → s.mrqq.length ≤ if s.pushed then 1 else 0
  room : cfg.scheduler_type = .DRAM_FRFCFS → ∀ req ∈ s.mrqq,
    s.m_frfcfs_scheduler.pending (queueOf cfg req) < queueSize cfg (queueOf cfg req)
  distinct : ((s.m_frfcfs_scheduler.added ++ s.mrqq).map DramReq.ptr).Nodup
  fresh : ∀ req ∈ s.m_frfcfs_scheduler.added ++ s.mrqq, req.ptr < s.next_req

theorem Orderly.start : Orderly ({} : Dram cfg) := by
  refine ⟨Kept.start, fun _ => Nat.zero_le _, ?_, List.nodup_nil, ?_⟩
  · intro _ req hreq
    cases hreq
  · intro req hreq
    cases hreq

theorem Orderly.sameQueues {s s' : Dram cfg} (h : Orderly s) (hsame : SameQueues s s') :
    Orderly s' := by
  refine ⟨?_, ?_, ?_, ?_, ?_⟩
  · rw [hsame.sched]
    exact h.kept
  · rw [hsame.mrqq, hsame.pushed]
    exact h.one
  · rw [hsame.mrqq, hsame.sched]
    exact h.room
  · rw [hsame.mrqq, hsame.sched]
    exact h.distinct
  · rw [hsame.mrqq, hsame.sched, hsame.next_req]
    exact h.fresh

/-- `full` lets a request in only when its queue has room, except where no limit is meant. -/
theorem room_of_fits {s : Dram cfg} {req : DramReq cfg.nbk}
    (htype : cfg.scheduler_type = .DRAM_FRFCFS) (hfull : full s req.is_write = false)
    (hfits : Fits s (.push req)) :
    s.m_frfcfs_scheduler.pending (queueOf cfg req) < queueSize cfg (queueOf cfg req) := by
  simp only [full, htype] at hfull
  by_cases hwrite : (cfg.seperate_write_queue_enabled && req.is_write) = true
  · rw [queueOf, if_pos hwrite]
    change s.m_frfcfs_scheduler.m_num_write_pending < cfg.gpgpu_frfcfs_dram_write_queue_size
    rcases hfits with hsize | ⟨-, -, hroom⟩
    · rw [if_neg hsize, if_pos hwrite, decide_eq_false_iff_not, Nat.not_le] at hfull
      exact hfull
    · exact hroom
  · rw [queueOf, if_neg hwrite]
    change s.m_frfcfs_scheduler.m_num_pending < cfg.gpgpu_frfcfs_dram_sched_queue_size
    rcases hfits with hsize | ⟨hsep, hreq, -⟩
    · rw [if_neg hsize, if_neg hwrite, decide_eq_false_iff_not, Nat.not_le] at hfull
      exact hfull
    · rw [hsep, hreq] at hwrite
      exact absurd rfl hwrite

theorem Orderly.push {s : Dram cfg} (h : Orderly s) {req : DramReq cfg.nbk}
    (hcan : canHappen s (.push req) = true) (hfits : Fits s (.push req)) :
    Orderly (push s req) := by
  simp only [canHappen, Bool.and_eq_true, Bool.not_eq_true'] at hcan
  obtain ⟨hpushed, hfull⟩ := hcan
  refine ⟨h.kept, ?_, ?_, ?_, ?_⟩
  · intro htype
    have hone := h.one htype
    rw [hpushed] at hone
    change (s.mrqq ++ [_]).length ≤ 1
    rw [List.length_append, List.length_singleton]
    simp only [Bool.false_eq_true, if_false] at hone
    omega
  · intro htype r hr
    rcases List.mem_append.mp hr with hr | hr
    · exact h.room htype r hr
    · have hroom := room_of_fits htype hfull hfits
      rw [List.mem_singleton.mp hr]
      exact hroom
  · change ((_ ++ (s.mrqq ++ [_])).map DramReq.ptr).Nodup
    rw [← List.append_assoc, List.map_append, List.nodup_append]
    refine ⟨h.distinct, List.nodup_singleton _, ?_⟩
    intro p hp p' hp'
    obtain ⟨r, hr, rfl⟩ := List.mem_map.mp hp
    have hlt := h.fresh r hr
    rw [List.map_singleton, List.mem_singleton] at hp'
    rw [hp']
    exact Nat.ne_of_lt hlt
  · intro r hr
    change r.ptr < s.next_req + 1
    change r ∈ _ ++ (s.mrqq ++ [_]) at hr
    rw [← List.append_assoc] at hr
    rcases List.mem_append.mp hr with hr | hr
    · exact Nat.lt_succ_of_lt (h.fresh r hr)
    · rw [List.mem_singleton.mp hr]
      exact Nat.lt_succ_self _

/-- The one request of `mrqq` is added without a failed assertion. -/
theorem Orderly.drained {s : Dram cfg} (h : Orderly s)
    (htype : cfg.scheduler_type = .DRAM_FRFCFS) : Kept (drainMrqq s).m_frfcfs_scheduler := by
  have hone : s.mrqq.length ≤ 1 := by
    have hone := h.one htype
    split_ifs at hone <;> omega
  change Kept (s.mrqq.foldl _ _)
  rcases hmrqq : s.mrqq with _ | ⟨req, rest⟩
  · exact h.kept
  · rw [hmrqq, List.length_cons] at hone
    obtain rfl : rest = [] := List.eq_nil_of_length_eq_zero (by omega)
    apply h.kept.add_req
    apply h.room htype
    rw [hmrqq]
    exact List.mem_cons_self

theorem Orderly.scheduler_frfcfs {s : Dram cfg} (h : Orderly s)
    (htype : cfg.scheduler_type = .DRAM_FRFCFS) :
    Orderly (scheduler_frfcfs s) ∧ (scheduler_frfcfs s).mrqq = [] := by
  obtain ⟨hmrqq, hnext, -, -, -⟩ := askBanks_frame (List.range cfg.nbk) (drainMrqq s)
  obtain ⟨hkept, hadded⟩ := scheduler_frfcfs_keeps s (h.drained htype)
  have hempty : (dram_t.scheduler_frfcfs s).mrqq = [] := hmrqq
  refine ⟨⟨hkept, ?_, ?_, ?_, ?_⟩, hempty⟩
  · intro _
    rw [hempty]
    exact Nat.zero_le _
  · intro _ req hreq
    rw [hempty] at hreq
    cases hreq
  · rw [hempty, List.append_nil, hadded]
    exact h.distinct
  · rw [hempty, List.append_nil, hadded]
    intro req hreq
    have hnext' : (dram_t.scheduler_frfcfs s).next_req = s.next_req := hnext
    rw [hnext']
    exact h.fresh req hreq

theorem Orderly.scheduler_fifo {s : Dram cfg} (h : Orderly s)
    (htype : cfg.scheduler_type = .DRAM_FIFO) : Orderly (scheduler_fifo s) := by
  have hfrfcfs : cfg.scheduler_type ≠ .DRAM_FRFCFS := by
    rw [htype]
    decide
  simp only [dram_t.scheduler_fifo]
  split
  · exact h
  · rename_i req rest hmrqq
    split_ifs
    · have hsub : (s.m_frfcfs_scheduler.added ++ rest).Sublist
          (s.m_frfcfs_scheduler.added ++ s.mrqq) := by
        rw [hmrqq]
        exact (List.Sublist.refl _).append (List.sublist_cons_self _ _)
      refine ⟨h.kept, fun hcon => absurd hcon hfrfcfs, fun hcon => absurd hcon hfrfcfs, ?_, ?_⟩
      · exact h.distinct.sublist (hsub.map _)
      · exact fun r hr => h.fresh r (hsub.subset hr)
    · exact h

theorem Orderly.cycle {s : Dram cfg} (h : Orderly s) : Orderly (cycle s) := by
  have hreturn := h.sameQueues (SameQueues.returnData s)
  cases htype : cfg.scheduler_type with
  | DRAM_FIFO =>
    have hfifo := (hreturn.scheduler_fifo htype).sameQueues (SameQueues.issued _)
    simp only [dram_t.cycle, htype]
    refine ⟨hfifo.kept, ?_, hfifo.room, hfifo.distinct, hfifo.fresh⟩
    intro hcon
    rw [htype] at hcon
    cases hcon
  | DRAM_FRFCFS =>
    obtain ⟨hsched, hmrqq⟩ := hreturn.scheduler_frfcfs htype
    have hempty := (SameQueues.issued (dram_t.scheduler_frfcfs (returnData s))).mrqq.trans hmrqq
    have hfrfcfs := hsched.sameQueues (SameQueues.issued _)
    simp only [dram_t.cycle, htype]
    refine ⟨hfrfcfs.kept, ?_, hfrfcfs.room, hfrfcfs.distinct, hfrfcfs.fresh⟩
    intro _
    exact Nat.le_of_eq (congrArg List.length hempty)

theorem Orderly.reach {s : Dram cfg} (hr : DramReach cfg Fits s) : Orderly s := by
  induction hr with
  | start => exact Orderly.start
  | step _ hnext ih =>
    obtain ⟨-, a, hcan, hfits, rfl⟩ := hnext
    cases a with
    | return_queue_pop => exact ih.sameQueues ⟨rfl, rfl, rfl, rfl, rfl⟩
    | cycle => exact ih.cycle
    | push req => exact ih.push hcan hfits

/-- While the pushes fit, the scheduler hands out each request once. -/
theorem scheduler_serves_each_once {s : Dram cfg} (hr : DramReach cfg Fits s) :
    ServesEachOnce s.m_frfcfs_scheduler := by
  have horderly := Orderly.reach hr
  apply horderly.kept.servesEachOnce
  have hdistinct := horderly.distinct
  rw [List.map_append, List.nodup_append] at hdistinct
  exact List.Nodup.of_map _ hdistinct.1

instance (s : Dram cfg) (a : DramAction cfg) : Decidable (Fits s a) := by
  cases a <;> unfold Fits <;> infer_instance

/-- Four banks in two groups, with a separate write queue and the delays that `init` makes
of a write latency of one cycle. -/
def smallChannel : MemoryConfig where
  scheduler_type := .DRAM_FRFCFS
  gpgpu_frfcfs_dram_sched_queue_size := 4
  gpgpu_dram_return_queue_size := 4
  seperate_write_queue_enabled := true
  gpgpu_frfcfs_dram_write_queue_size := 4
  write_high_watermark := 2
  write_low_watermark := 1
  dual_bus_interface := false
  nbk := 4
  nbkgrp := 2
  bk_tag_length := 1
  dram_bnkgrp_indexing_policy := .HIGHER_BITS
  dram_atom_size := 32
  BL := 2
  data_command_freq_ratio := 1
  CL := 2
  WL := 1
  tCCD := 1
  tCCDL := 2
  tRTPL := 2
  tRRD := 1
  tRCD := 3
  tRCDWR := 1
  tRAS := 3
  tRP := 2
  tRC := 5
  tRTW := 5
  tWTR := 4
  tWTP := 5

/-- A request of one burst. -/
def request {bank : Nat} (hbank : bank < cfg.nbk) (row : Nat) (is_write : Bool) :
    DramReq cfg.nbk where
  row := row
  bk := bank
  bk_lt := hbank
  nbytes := 32
  ptr := 0
  data :=
    { sub_partition_id := 0
      type := if is_write then .GLOBAL_ACC_W else .GLOBAL_ACC_R
      is_write := is_write }

theorem first_bank : 0 < 4 := by decide

theorem second_bank : 1 < 4 := by decide

/-- Two reads of a row and a write, of which the second read waits. -/
def threeRequests : List (DramAction smallChannel) :=
  [.push (request (by decide : 1 < 4) 5 false), .cycle,
    .push (request (by decide : 0 < 4) 1 true), .cycle,
    .push (request (by decide : 1 < 4) 5 false), .cycle]

theorem scheduler_serves_three_requests :
    ((threeRequests.foldl happens {}).m_frfcfs_scheduler.added.length = 3 ∧
      (threeRequests.foldl happens {}).m_frfcfs_scheduler.returned.length = 1) ∧
      ServesEachOnce (threeRequests.foldl happens {}).m_frfcfs_scheduler :=
  ⟨by decide +kernel, scheduler_serves_each_once (dramReach_run .start (by decide +kernel))⟩

/-- Without a limit the first request fails the assertion of `add_req`. -/
theorem unlimited_queue_takes_no_request :
    ¬ ∀ (cfg : MemoryConfig) (s : Dram cfg), cfg.scheduler_type = .DRAM_FRFCFS →
      DramReach cfg (fun _ _ => True) s → ServesEachOnce s.m_frfcfs_scheduler := by
  intro h
  let cfg : MemoryConfig := { smallChannel with gpgpu_frfcfs_dram_sched_queue_size := 0 }
  let run : List (DramAction cfg) := [.push (request (by decide : 1 < 4) 5 false), .cycle]
  have hserves := h cfg (run.foldl happens {}) rfl (dramReach_run .start (by decide +kernel))
  have haborted : (run.foldl happens ({} : Dram cfg)).m_frfcfs_scheduler.aborted = true := by
    decide +kernel
  rw [hserves.asserted] at haborted
  cases haborted

/-! ## Banks without a request -/

/-- The mode in which the `i`-th bank of a pass is asked, while none got a request: each call
of `schedule` moves it by the watermarks. -/
def askedMode (s : FrfcfsScheduler cfg) (i : Nat) : MemoryMode :=
  (switchMode cfg s.m_num_write_pending)^[i + 1] s.m_mode

/-- Some bank has a request after the call. -/
def Assigns (s : Dram cfg) : Prop := ∃ bank < cfg.nbk, ((scheduler_frfcfs s).bk bank).mrq ≠ none

theorem askBanks_assigns (is : List Nat) (s : Dram cfg) (h : Kept s.m_frfcfs_scheduler)
    (hnbk : 0 < cfg.nbk) (hfree : ∀ bank < cfg.nbk, (s.bk bank).mrq = none) :
    (∃ bank < cfg.nbk, ((askBanks is s).bk bank).mrq ≠ none) ↔
      ∃ k i, is[k]? = some i ∧ (s.m_frfcfs_scheduler.queues (askedMode s.m_frfcfs_scheduler k)
        ((i + s.prio) % cfg.nbk)).m_queue ≠ [] := by
  induction is generalizing s with
  | nil =>
    constructor
    · rintro ⟨bank, hbank, hmrq⟩
      exact absurd (hfree bank hbank) hmrq
    · rintro ⟨k, i, hi, -⟩
      rw [List.getElem?_nil] at hi
      cases hi
  | cons i is ih =>
    have hlt : (i + s.prio) % cfg.nbk < cfg.nbk := Nat.mod_lt _ hnbk
    have hnone : (s.bk ((i + s.prio) % cfg.nbk)).mrq.isSome = false := by
      rw [hfree _ hlt]
      rfl
    simp only [askBanks, hnone, Bool.false_eq_true, if_false]
    obtain ⟨hkept, hmode, -, hcase⟩ :=
      h.schedule hlt (s.bk ((i + s.prio) % cfg.nbk)).curr_row
    rcases hcase with ⟨hempty, hnull, hpending, hqueues⟩ | ⟨req, hreq, hqueue⟩
    · rw [hnull]
      -- the mode moved once, and the queues are those of the first bank
      rw [ih { s with m_frfcfs_scheduler := _ } hkept hfree]
      have hasked : ∀ k, askedMode
          (s.m_frfcfs_scheduler.schedule ((i + s.prio) % cfg.nbk)
            (s.bk ((i + s.prio) % cfg.nbk)).curr_row).2 k =
          askedMode s.m_frfcfs_scheduler (k + 1) := by
        intro k
        simp only [askedMode, FrfcfsScheduler.m_num_write_pending, hpending, hmode]
        rfl
      constructor
      · rintro ⟨k, j, hj, hqueue⟩
        rw [hqueues, hasked] at hqueue
        exact ⟨k + 1, j, hj, hqueue⟩
      · rintro ⟨k, j, hj, hqueue⟩
        cases k with
        | zero =>
          cases hj
          exact absurd hempty hqueue
        | succ k =>
          refine ⟨k, j, hj, ?_⟩
          rw [hqueues, hasked]
          exact hqueue
    · rw [hreq]
      refine iff_of_true ⟨_, hlt, ?_⟩ ⟨0, i, rfl, hqueue⟩
      simp only [Dram.setBank, Function.update_self]
      exact Option.some_ne_none req

/-- A pass that starts anywhere comes to every bank. -/
theorem exists_pass_iff {n : Nat} (start : Nat) (P : Nat → Prop) :
    (∃ i < n, P ((i + start) % n)) ↔ ∃ bank < n, P bank := by
  constructor
  · rintro ⟨i, hi, hp⟩
    exact ⟨_, Nat.mod_lt _ (Nat.zero_lt_of_lt hi), hp⟩
  · rintro ⟨bank, hbank, hp⟩
    have hpos : 0 < n := Nat.zero_lt_of_lt hbank
    have hstart : start % n < n := Nat.mod_lt _ hpos
    refine ⟨(bank + (n - start % n)) % n, Nat.mod_lt _ hpos, ?_⟩
    have hback : ((bank + (n - start % n)) % n + start) % n = bank := by
      rw [Nat.mod_add_mod, ← Nat.add_mod_mod]
      have hsum : bank + (n - start % n) + start % n = bank + n := by omega
      rw [hsum, Nat.add_mod_right, Nat.mod_eq_of_lt hbank]
    rw [hback]
    exact hp

theorem FrfcfsScheduler.Kept.pending_pos {s : FrfcfsScheduler cfg} (h : Kept s)
    (m : MemoryMode) :
    0 < s.pending m ↔ ∃ bank < cfg.nbk, (s.queues m bank).m_queue ≠ [] := by
  rw [h.pending, Finset.sum_pos_iff]
  constructor
  · rintro ⟨bank, hbank, hlength⟩
    exact ⟨bank, Finset.mem_range.mp hbank, List.length_pos_iff.mp hlength⟩
  · rintro ⟨bank, hbank, hqueue⟩
    exact ⟨bank, Finset.mem_range.mpr hbank, List.length_pos_iff.mpr hqueue⟩

/-- With ordinary watermarks the mode settles with the first bank. -/
theorem switchMode_idem (hmarks : cfg.write_low_watermark ≤ cfg.write_high_watermark) (n : Nat)
    (m : MemoryMode) : switchMode cfg n (switchMode cfg n m) = switchMode cfg n m := by
  by_cases hsep : cfg.seperate_write_queue_enabled = true
  · cases m with
    | READ_MODE =>
      by_cases hhigh : cfg.write_high_watermark ≤ n
      · have hlow : ¬n < cfg.write_low_watermark := by omega
        simp only [switchMode, if_pos hsep, if_pos hhigh, if_neg hlow]
      · simp only [switchMode, if_pos hsep, if_neg hhigh]
    | WRITE_MODE =>
      by_cases hlow : n < cfg.write_low_watermark
      · have hhigh : ¬cfg.write_high_watermark ≤ n := by omega
        simp only [switchMode, if_pos hsep, if_pos hlow, if_neg hhigh]
      · simp only [switchMode, if_pos hsep, if_neg hlow]
  · simp only [switchMode, if_neg hsep]

theorem askedMode_settled {s : FrfcfsScheduler cfg}
    (hidem : ∀ m, switchMode cfg s.m_num_write_pending (switchMode cfg s.m_num_write_pending m) =
      switchMode cfg s.m_num_write_pending m) (i : Nat) :
    askedMode s i = switchMode cfg s.m_num_write_pending s.m_mode := by
  induction i with
  | zero => rfl
  | succ i ih =>
    rw [askedMode, Function.iterate_succ_apply']
    rw [askedMode] at ih
    rw [ih, hidem]

theorem scheduler_frfcfs_assigns {s : Dram cfg} (h : Kept (drainMrqq s).m_frfcfs_scheduler)
    (hfree : ∀ bank < cfg.nbk, (s.bk bank).mrq = none) :
    Assigns s ↔ ∃ i < cfg.nbk, ((drainMrqq s).m_frfcfs_scheduler.queues
      (askedMode (drainMrqq s).m_frfcfs_scheduler i) ((i + s.prio) % cfg.nbk)).m_queue ≠ [] := by
  rcases Nat.eq_zero_or_pos cfg.nbk with hnbk | hnbk
  · constructor
    · rintro ⟨bank, hbank, -⟩
      omega
    · rintro ⟨i, hi, -⟩
      omega
  · have hask := askBanks_assigns (List.range cfg.nbk) (drainMrqq s) h hnbk hfree
    constructor
    · intro hassigns
      obtain ⟨k, i, hi, hqueue⟩ := hask.mp hassigns
      obtain ⟨hk, rfl⟩ := List.getElem?_eq_some_iff.mp hi
      rw [List.getElem_range] at hqueue
      rw [List.length_range] at hk
      exact ⟨k, hk, hqueue⟩
    · rintro ⟨i, hi, hqueue⟩
      exact hask.mpr ⟨i, i, List.getElem?_range hi, hqueue⟩

/-- A scheduler whose assertions hold keeps its queues, whatever was pushed. -/
theorem kept_of_reach {s : Dram cfg} {ok : Dram cfg → DramAction cfg → Prop}
    (hr : DramReach cfg ok s) (hok : s.m_frfcfs_scheduler.aborted = false) :
    Kept s.m_frfcfs_scheduler := by
  induction hr with
  | start => exact Kept.start
  | @step s s' _ hnext ih =>
    obtain ⟨hfailed, a, -, -, rfl⟩ := hnext
    have hkept := ih (Bool.or_eq_false_iff.mp hfailed).2
    cases a with
    | return_queue_pop => exact hkept
    | push req => exact hkept
    | cycle =>
      have hsched := (SameQueues.returnData s).sched
      cases htype : cfg.scheduler_type with
      | DRAM_FIFO =>
        have hsame : (cycle s).m_frfcfs_scheduler = s.m_frfcfs_scheduler := by
          simp only [cycle, htype]
          exact (SameQueues.issued _).sched.trans ((scheduler_fifo_sched _).trans hsched)
        rw [happens, hsame]
        exact hkept
      | DRAM_FRFCFS =>
        have hsame : (cycle s).m_frfcfs_scheduler =
            (scheduler_frfcfs (returnData s)).m_frfcfs_scheduler := by
          simp only [cycle, htype]
          exact (SameQueues.issued _).sched
        rw [happens, hsame] at hok ⊢
        have hdrained := askBanks_aborted _ _ hok
        apply (scheduler_frfcfs_keeps _ _).1
        change Kept ((returnData s).mrqq.foldl _ _)
        rw [hsched]
        apply hkept.addAll
        rw [← hsched]
        exact hdrained

theorem pending_foldl (reqs : List (DramReq cfg.nbk)) (s : FrfcfsScheduler cfg) (m : MemoryMode) :
    s.pending m ≤ (reqs.foldl FrfcfsScheduler.add_req s).pending m := by
  induction reqs generalizing s with
  | nil => exact le_refl _
  | cons req reqs ih =>
    refine le_trans ?_ (ih _)
    change s.pending m ≤ Function.update s.pending (queueOf cfg req) _ m
    by_cases hm : m = queueOf cfg req
    · subst hm
      rw [Function.update_self]
      exact Nat.le_succ _
    · rw [Function.update_of_ne hm]

theorem foldl_mode (reqs : List (DramReq cfg.nbk)) (s : FrfcfsScheduler cfg) :
    (reqs.foldl FrfcfsScheduler.add_req s).m_mode = s.m_mode := by
  induction reqs generalizing s with
  | nil => rfl
  | cons req reqs ih => exact ih (s.add_req req)

/-- Where the mode is the same for all banks, a request is assigned exactly when one waits
in that mode. -/
theorem assigns_iff_pending {s : Dram cfg} {m : MemoryMode}
    (h : Kept (drainMrqq s).m_frfcfs_scheduler)
    (hfree : ∀ bank < cfg.nbk, (s.bk bank).mrq = none)
    (hmode : ∀ i, askedMode (drainMrqq s).m_frfcfs_scheduler i = m) :
    Assigns s ↔ 0 < (drainMrqq s).m_frfcfs_scheduler.pending m := by
  rw [scheduler_frfcfs_assigns h hfree, h.pending_pos]
  simp only [hmode]
  exact exists_pass_iff s.prio fun bank =>
    ((drainMrqq s).m_frfcfs_scheduler.queues m bank).m_queue ≠ []

/-- When all banks are free, a pass that holds its assertions assigns a request exactly when
some bank has one in the mode in which it is asked. Without the separate write queue that is
so whenever a request waits, and with ordinary watermarks whenever one waits in the mode that
they select. -/
theorem scheduler_frfcfs_assigns_in_its_mode {s : Dram cfg}
    (hr : DramReach cfg (fun _ _ => True) s)
    (hfree : ∀ bank < cfg.nbk, (s.bk bank).mrq = none)
    (hok : (scheduler_frfcfs s).m_frfcfs_scheduler.aborted = false) :
    (Assigns s ↔ ∃ i < cfg.nbk, ((drainMrqq s).m_frfcfs_scheduler.queues
        (askedMode (drainMrqq s).m_frfcfs_scheduler i) ((i + s.prio) % cfg.nbk)).m_queue ≠ []) ∧
      (cfg.seperate_write_queue_enabled = false →
        0 < s.m_frfcfs_scheduler.m_num_pending + s.m_frfcfs_scheduler.m_num_write_pending →
          Assigns s) ∧
      (cfg.write_low_watermark ≤ cfg.write_high_watermark →
        (Assigns s ↔ 0 < (drainMrqq s).m_frfcfs_scheduler.pending
          (switchMode cfg (drainMrqq s).m_frfcfs_scheduler.m_num_write_pending
            s.m_frfcfs_scheduler.m_mode))) := by
  have hdrained : (s.mrqq.foldl FrfcfsScheduler.add_req s.m_frfcfs_scheduler).aborted = false :=
    askBanks_aborted _ _ hok
  have hkept := kept_of_reach hr (FrfcfsScheduler.aborted_foldl _ _ hdrained)
  have hall : Kept (drainMrqq s).m_frfcfs_scheduler := hkept.addAll _ hdrained
  have hmode : (drainMrqq s).m_frfcfs_scheduler.m_mode = s.m_frfcfs_scheduler.m_mode :=
    foldl_mode s.mrqq s.m_frfcfs_scheduler
  refine ⟨scheduler_frfcfs_assigns hall hfree, ?_, ?_⟩
  · intro hsep hwaiting
    have hwrites : s.m_frfcfs_scheduler.m_num_write_pending = 0 := by
      by_contra hne
      obtain ⟨bank, -, hqueue⟩ := (hkept.pending_pos .WRITE_MODE).mp (Nat.pos_of_ne_zero hne)
      obtain ⟨node, hnode⟩ := List.exists_mem_of_ne_nil _ hqueue
      have hhome := (hkept.home _ _ node hnode).1
      simp only [queueOf, hsep, Bool.false_and, Bool.false_eq_true, if_false] at hhome
      cases hhome
    have hswitch : ∀ n m, switchMode cfg n m = m := by
      intro n m
      simp only [switchMode, hsep, Bool.false_eq_true, if_false]
    have hread : ∀ i, askedMode (drainMrqq s).m_frfcfs_scheduler i = .READ_MODE := by
      intro i
      rw [askedMode_settled fun m => hswitch _ _, hswitch]
      exact hall.mode hsep
    rw [assigns_iff_pending hall hfree hread]
    have hgrows : s.m_frfcfs_scheduler.m_num_pending ≤ _ :=
      pending_foldl s.mrqq s.m_frfcfs_scheduler .READ_MODE
    change 0 < (s.mrqq.foldl FrfcfsScheduler.add_req s.m_frfcfs_scheduler).pending .READ_MODE
    omega
  · intro hmarks
    rw [← hmode]
    exact assigns_iff_pending hall hfree fun i =>
      askedMode_settled (fun m => switchMode_idem hmarks _ m) i

/-- A write that is left below the high watermark, and a read. -/
def readBehindWrite : List (DramAction smallChannel) :=
  [.push (request (by decide : 0 < 4) 1 true), .cycle,
    .push (request (by decide : 1 < 4) 5 false)]

theorem scheduler_frfcfs_assigns_the_read :
    Assigns (readBehindWrite.foldl happens {}) := by
  have hassigns := scheduler_frfcfs_assigns_in_its_mode
    (s := readBehindWrite.foldl happens {}) (dramReach_run .start (by decide +kernel))
    (by decide +kernel) (by decide +kernel)
  exact (hassigns.2.2 (by decide)).mpr (by decide +kernel)

/-- A write alone is left in its queue below the high watermark. -/
theorem a_left_over_write_is_not_assigned :
    ¬ ∀ (cfg : MemoryConfig) (s : Dram cfg), cfg.scheduler_type = .DRAM_FRFCFS →
      DramReach cfg (fun _ _ => True) s → (∀ bank < cfg.nbk, (s.bk bank).mrq = none) →
        0 < s.m_frfcfs_scheduler.m_num_pending + s.m_frfcfs_scheduler.m_num_write_pending →
          Assigns s := by
  intro h
  let run : List (DramAction smallChannel) := [.push (request (by decide : 0 < 4) 1 true), .cycle]
  obtain ⟨bank, hbank, hmrq⟩ := h smallChannel (run.foldl happens {}) rfl
    (dramReach_run .start (by decide +kernel)) (by decide +kernel) (by decide +kernel)
  revert bank
  decide +kernel

end gpgpu_sim_uvm.dram_t
