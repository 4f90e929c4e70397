-- The first-ready, first-come scheduler of a DRAM channel (dram_sched.cc): requests wait
-- in one list for each bank, and in one bin for each row that holds iterators into that
-- list.
import GpgpuSimUvm.StdMap
import GpgpuSimUvm.Arbitration
import Mathlib.Data.List.Perm.Basic
import Mathlib.Algebra.BigOperators.Intervals

namespace gpgpu_sim_uvm.dram_t

open memory_partition_unit (MemFetch)

/-! ## Requests -/

/-- `dram_req_t`, of a channel with `nbk` banks. The address decoder gives the bank. -/
structure DramReq (nbk : Nat) where
  row : Nat
  bk : Nat
  bk_lt : bk < nbk
  nbytes : Nat
  /-- The object, which the counts of its bursts belong to. -/
  ptr : Nat
  data : MemFetch
  deriving DecidableEq

variable {nbk : Nat}

/-- Also `rw == WRITE`. -/
def DramReq.is_write (req : DramReq nbk) : Bool := req.data.is_write

/-! ## The queue of a bank -/

/-- `m_queue`, `m_bins` and `m_last_row` of one bank, or `m_write_queue`, `m_write_bins`
and `m_last_write_row`. A node of the list goes by its address, an iterator is the address
of a node, and the pointer to a bin is the row of the bin. -/
structure BankQueue (nbk : Nat) where
  m_queue : List (Nat × DramReq nbk) := []
  m_bins : StdMap Nat (List Nat) := .empty
  m_last_row : Option Nat := none

namespace BankQueue

/-- The two `push_front`s of `add_req`. -/
def add (q : BankQueue nbk) (node : Nat) (req : DramReq nbk) : BankQueue nbk :=
  { q with
    m_queue := (node, req) :: q.m_queue
    m_bins := q.m_bins.alter req.row [] (node :: ·) }

/-- What `schedule` finds in `m_last_row`, or puts there. No row is a return of `NULL`,
and the outer `none` is the assertion "where did the request go". -/
def rowToServe (q : BankQueue nbk) (curr_row : Nat) : Option (Option Nat) :=
  match q.m_last_row with
  | some row => some (some row)
  | none =>
    match q.m_queue.getLast? with
    | none => some none
    | some oldest =>
      if q.m_bins.contains curr_row then some (some curr_row)
      else if q.m_bins.contains oldest.2.row then some (some oldest.2.row)
      else none

/-- The request `req` at the back of the bin of a row, taken out of the bin and, by its
iterator, out of the list. -/
def unlink (q : BankQueue nbk) (row : Nat) (bin : List Nat) (next : Nat) (req : DramReq nbk) :
    BankQueue nbk :=
  let q :=
    { q with
      m_bins := q.m_bins.alter row [] fun _ => bin.dropLast
      m_queue := q.m_queue.filter fun n => n.1 ≠ next
      m_last_row := some row }
  if bin.dropLast = [] then { q with m_bins := q.m_bins.erase req.row, m_last_row := none } else q

/-- The request at the back of the bin. `none` is a pointer to no bin, or an iterator to no
node. -/
def serve (q : BankQueue nbk) (row : Nat) : Option (DramReq nbk × BankQueue nbk) := do
  let bin ← q.m_bins.find row
  let next ← bin.getLast?
  let node ← q.m_queue.find? fun n => n.1 = next
  some (node.2, q.unlink row bin next node.2)

/-- `schedule` on the structures of one bank. The outer `none` is an assertion that fails
or a pointer that dangles, the inner one `NULL`. -/
def schedule (q : BankQueue nbk) (curr_row : Nat) : Option (Option (DramReq nbk × BankQueue nbk)) :=
  match q.rowToServe curr_row with
  | none => none
  | some none => some none
  | some (some row) => (q.serve row).map some

/-- The waiting nodes of a row, newest first. -/
def ofRow (q : BankQueue nbk) (row : Nat) : List (Nat × DramReq nbk) :=
  q.m_queue.filter fun n => n.2.row = row

/-- Each bin holds the iterators of its row, in the order of the list, and is there only
when it holds one. The cached pointer is to a bin. -/
structure Sound (q : BankQueue nbk) : Prop where
  nodup : (q.m_queue.map Prod.fst).Nodup
  bins : ∀ row, q.m_bins.find row =
    if q.ofRow row = [] then none else some ((q.ofRow row).map Prod.fst)
  last : ∀ row, q.m_last_row = some row → q.ofRow row ≠ []

theorem Sound.empty : Sound ({} : BankQueue nbk) := by
  refine ⟨List.nodup_nil, fun _ => rfl, ?_⟩
  intro row h
  cases h

/-! ## An addition -/

theorem ofRow_add (q : BankQueue nbk) (node : Nat) (req : DramReq nbk) (row : Nat) :
    (q.add node req).ofRow row =
      if req.row = row then (node, req) :: q.ofRow row else q.ofRow row := by
  simp only [ofRow, add, List.filter_cons, decide_eq_true_eq]

variable {q : BankQueue nbk}

theorem Sound.add (h : Sound q) {node : Nat} (req : DramReq nbk)
    (hfresh : node ∉ q.m_queue.map Prod.fst) : Sound (q.add node req) := by
  refine ⟨List.nodup_cons.mpr ⟨hfresh, h.nodup⟩, ?_, ?_⟩
  · intro row
    rw [ofRow_add]
    by_cases hrow : req.row = row
    · subst hrow
      simp only [BankQueue.add, StdMap.find_alter_self, StdMap.findD, h.bins, if_true]
      by_cases hnone : q.ofRow req.row = []
      · simp [hnone]
      · simp [hnone]
    · simp only [BankQueue.add, if_neg hrow]
      rw [StdMap.find_alter_ne _ _ _ (Ne.symm hrow), h.bins]
  · intro row hlast
    rw [ofRow_add]
    by_cases hrow : req.row = row
    · rw [if_pos hrow]
      exact List.cons_ne_nil _ _
    · rw [if_neg hrow]
      exact h.last row hlast

/-! ## The service of a request -/

/-- The node of a row that waits longest is gone, and nothing else. -/
structure Takes (q : BankQueue nbk) (node : Nat × DramReq nbk) (q' : BankQueue nbk) : Prop where
  oldest : q.ofRow node.2.row = q'.ofRow node.2.row ++ [node]
  others : ∀ row ≠ node.2.row, q'.ofRow row = q.ofRow row
  perm : q.m_queue.Perm (node :: q'.m_queue)
  sublist : q'.m_queue.Sublist q.m_queue

theorem mem_ofRow {row : Nat} {node : Nat × DramReq nbk} :
    node ∈ q.ofRow row ↔ node ∈ q.m_queue ∧ node.2.row = row := by
  rw [ofRow, List.mem_filter, decide_eq_true_eq]

/-- Two nodes of one address are one node. -/
theorem Sound.node_eq (h : Sound q) {m n : Nat × DramReq nbk} (hm : m ∈ q.m_queue)
    (hn : n ∈ q.m_queue) (haddr : m.1 = n.1) : m = n :=
  List.inj_on_of_nodup_map h.nodup hm hn haddr

theorem Sound.find_node (h : Sound q) {node : Nat × DramReq nbk} (hnode : node ∈ q.m_queue) :
    q.m_queue.find? (fun n => n.1 = node.1) = some node := by
  have hsome : (q.m_queue.find? fun n => n.1 = node.1).isSome := by
    rw [List.find?_isSome]
    exact ⟨node, hnode, by simp⟩
  obtain ⟨found, hfound⟩ := Option.isSome_iff_exists.mp hsome
  have haddr := List.find?_some hfound
  rw [hfound, h.node_eq (List.mem_of_find?_eq_some hfound) hnode (by simpa using haddr)]

/-- The list without the node of an iterator. -/
theorem Sound.perm_without (h : Sound q) {node : Nat × DramReq nbk} (hnode : node ∈ q.m_queue) :
    q.m_queue.Perm (node :: q.m_queue.filter fun n => n.1 ≠ node.1) := by
  have herase : q.m_queue.filter (fun n => n.1 ≠ node.1) = q.m_queue.erase node := by
    rw [(List.Nodup.of_map _ h.nodup).erase_eq_filter]
    apply List.filter_congr
    intro n hn
    by_cases heq : n = node
    · simp [heq]
    · have hne : n.1 ≠ node.1 := fun haddr => heq (h.node_eq hn hnode haddr)
      simp [heq, hne]
  rw [herase]
  exact List.perm_cons_erase hnode

/-- The rows of the list without the last node of one of them. -/
theorem Sound.without (h : Sound q) {row : Nat} {rest : List (Nat × DramReq nbk)}
    {node : Nat × DramReq nbk} (hrow : q.ofRow row = rest ++ [node]) (r : Nat) :
    (q.ofRow r).filter (fun n => n.1 ≠ node.1) = if r = row then rest else q.ofRow r := by
  have hnode : node ∈ q.ofRow row := by
    rw [hrow]
    exact List.mem_append_right _ List.mem_cons_self
  by_cases hr : r = row
  · rw [if_pos hr, hr]
    have hnodup : ((q.ofRow row).map Prod.fst).Nodup :=
      h.nodup.sublist (List.filter_sublist.map _)
    rw [hrow, List.map_append, List.nodup_append] at hnodup
    rw [hrow, List.filter_append]
    have hlast : List.filter (fun n => n.1 ≠ node.1) [node] = [] := by simp
    rw [hlast, List.append_nil, List.filter_eq_self]
    intro n hn
    exact decide_eq_true (hnodup.2.2 n.1 (List.mem_map_of_mem hn) node.1 (by simp))
  · rw [if_neg hr, List.filter_eq_self]
    intro n hn
    apply decide_eq_true
    intro haddr
    have heq := h.node_eq (mem_ofRow.mp hn).1 (mem_ofRow.mp hnode).1 haddr
    rw [heq] at hn
    exact hr ((mem_ofRow.mp hn).2.symm.trans (mem_ofRow.mp hnode).2)

theorem unlink_m_queue (row : Nat) (bin : List Nat) (next : Nat) (req : DramReq nbk) :
    (q.unlink row bin next req).m_queue = q.m_queue.filter fun n => n.1 ≠ next := by
  simp only [unlink]
  split_ifs <;> rfl

theorem ofRow_unlink (row : Nat) (bin : List Nat) (next : Nat) (req : DramReq nbk) (r : Nat) :
    (q.unlink row bin next req).ofRow r = (q.ofRow r).filter fun n => n.1 ≠ next := by
  simp only [ofRow, unlink_m_queue]
  rw [List.filter_comm]

theorem find_unlink {row : Nat} {req : DramReq nbk} (hreq : req.row = row) (bin : List Nat)
    (next r : Nat) :
    (q.unlink row bin next req).m_bins.find r =
      if r = row then if bin.dropLast = [] then none else some bin.dropLast
      else q.m_bins.find r := by
  subst hreq
  simp only [unlink]
  by_cases hr : r = req.row
  · subst hr
    rw [if_pos rfl]
    split_ifs
    · exact StdMap.find_erase_self _ _
    · exact StdMap.find_alter_self _ _ _ _
  · rw [if_neg hr]
    split_ifs
    · rw [StdMap.find_erase_ne _ hr, StdMap.find_alter_ne _ _ _ hr]
    · exact StdMap.find_alter_ne _ _ _ hr

theorem unlink_m_last_row (row : Nat) (bin : List Nat) (next : Nat) (req : DramReq nbk) :
    (q.unlink row bin next req).m_last_row = if bin.dropLast = [] then none else some row := by
  simp only [unlink]
  split_ifs <;> rfl

theorem Sound.serve (h : Sound q) {row : Nat} (hrow : q.ofRow row ≠ []) :
    ∃ node q', q.serve row = some (node.2, q') ∧ node.2.row = row ∧ Takes q node q' ∧
      Sound q' := by
  obtain ⟨rest, node, hsplit⟩ : ∃ rest node, q.ofRow row = rest ++ [node] :=
    ⟨_, _, (List.dropLast_append_getLast hrow).symm⟩
  have hnode : node ∈ q.m_queue ∧ node.2.row = row := by
    rw [← mem_ofRow, hsplit]
    exact List.mem_append_right _ List.mem_cons_self
  obtain ⟨hmem, rfl⟩ := hnode
  have hbin : q.m_bins.find node.2.row = some ((rest ++ [node]).map Prod.fst) := by
    rw [h.bins, if_neg hrow, hsplit]
  have hlast : ((rest ++ [node]).map Prod.fst).getLast? = some node.1 := by simp
  have hdrop : ((rest ++ [node]).map Prod.fst).dropLast = rest.map Prod.fst := by simp
  refine ⟨node, q.unlink node.2.row ((rest ++ [node]).map Prod.fst) node.1 node.2, ?_, rfl,
    ?_, ?_⟩
  · simp only [BankQueue.serve, hbin, Option.bind_eq_bind, Option.bind_some, hlast,
      h.find_node hmem]
  · refine ⟨?_, ?_, ?_, ?_⟩
    · rw [ofRow_unlink, h.without hsplit, if_pos rfl, hsplit]
    · intro r hr
      rw [ofRow_unlink, h.without hsplit, if_neg hr]
    · rw [unlink_m_queue]
      exact h.perm_without hmem
    · rw [unlink_m_queue]
      exact List.filter_sublist
  · refine ⟨?_, ?_, ?_⟩
    · rw [unlink_m_queue]
      exact h.nodup.sublist (List.filter_sublist.map _)
    · intro r
      rw [ofRow_unlink, h.without hsplit, find_unlink rfl, hdrop]
      by_cases hr : r = node.2.row
      · simp only [if_pos hr, List.map_eq_nil_iff]
      · rw [if_neg hr, if_neg hr]
        exact h.bins r
    · intro r hr
      rw [unlink_m_last_row, hdrop] at hr
      split_ifs at hr with hrest
      cases hr
      rw [ofRow_unlink, h.without hsplit, if_pos rfl]
      intro hnil
      exact hrest (List.map_eq_nil_iff.mpr hnil)

/-- The row that `schedule` serves has a request, and there is one as long as any waits. -/
theorem Sound.rowToServe (h : Sound q) (curr_row : Nat) :
    (q.m_queue = [] ∧ q.rowToServe curr_row = some none) ∨
      ∃ row, q.rowToServe curr_row = some (some row) ∧ q.ofRow row ≠ [] := by
  have hcontains : ∀ row, q.ofRow row ≠ [] → q.m_bins.contains row = true := by
    intro row hrow
    rw [StdMap.contains, h.bins, if_neg hrow]
    rfl
  cases hlast : q.m_last_row with
  | some row =>
    right
    refine ⟨row, ?_, h.last row hlast⟩
    simp only [BankQueue.rowToServe, hlast]
  | none =>
    cases hold : q.m_queue.getLast? with
    | none =>
      left
      refine ⟨List.getLast?_eq_none_iff.mp hold, ?_⟩
      simp only [BankQueue.rowToServe, hlast, hold]
    | some oldest =>
      right
      have holdest : q.ofRow oldest.2.row ≠ [] :=
        List.ne_nil_of_mem (mem_ofRow.mpr ⟨List.mem_of_getLast? hold, rfl⟩)
      by_cases hcurr : q.m_bins.contains curr_row = true
      · refine ⟨curr_row, ?_, ?_⟩
        · simp only [BankQueue.rowToServe, hlast, hold, hcurr, if_true]
        · intro hnil
          rw [StdMap.contains, h.bins, if_pos hnil] at hcurr
          cases hcurr
      · refine ⟨oldest.2.row, ?_, holdest⟩
        simp only [BankQueue.rowToServe, hlast, hold, if_neg hcurr, hcontains _ holdest, if_true]

/-- A bank without requests gives none, and every other bank gives the one of some row that
waits longest. -/
theorem Sound.schedule (h : Sound q) (curr_row : Nat) :
    (q.m_queue = [] ∧ q.schedule curr_row = some none) ∨
      ∃ node q', q.schedule curr_row = some (some (node.2, q')) ∧ Takes q node q' ∧ Sound q' := by
  rcases h.rowToServe curr_row with ⟨hempty, hnull⟩ | ⟨row, hserve, hrow⟩
  · left
    refine ⟨hempty, ?_⟩
    simp only [BankQueue.schedule, hnull]
  · right
    obtain ⟨node, q', hq', -, htakes, hsound⟩ := h.serve hrow
    refine ⟨node, q', ?_, htakes, hsound⟩
    simp only [BankQueue.schedule, hserve, hq', Option.map_some]

end BankQueue

/-! ## The scheduler -/

inductive DramCtrl
  | DRAM_FIFO | DRAM_FRFCFS
  deriving DecidableEq, Repr

inductive BankGrpBitsPosition
  | HIGHER_BITS | LOWER_BITS
  deriving DecidableEq, Repr

/-- What `dram_t` reads of `memory_config`. -/
structure MemoryConfig where
  scheduler_type : DramCtrl
  gpgpu_frfcfs_dram_sched_queue_size : Nat
  gpgpu_dram_return_queue_size : Nat
  seperate_write_queue_enabled : Bool
  gpgpu_frfcfs_dram_write_queue_size : Nat
  write_high_watermark : Nat
  write_low_watermark : Nat
  dual_bus_interface : Bool
  nbk : Nat
  nbkgrp : Nat
  bk_tag_length : Nat
  dram_bnkgrp_indexing_policy : BankGrpBitsPosition
  dram_atom_size : Nat
  BL : Nat
  data_command_freq_ratio : Nat
  CL : Nat
  WL : Nat
  tCCD : Nat
  tCCDL : Nat
  tRTPL : Nat
  tRRD : Nat
  tRCD : Nat
  tRCDWR : Nat
  tRAS : Nat
  tRP : Nat
  tRC : Nat
  tRTW : Nat
  tWTR : Nat
  tWTP : Nat

inductive MemoryMode
  | READ_MODE | WRITE_MODE
  deriving DecidableEq, Repr

structure FrfcfsScheduler (cfg : MemoryConfig) where
  /-- The structures of each bank that are used in a mode: `m_queue`, `m_bins` and
  `m_last_row`, or those of the separate write queue. -/
  queues : MemoryMode → Nat → BankQueue cfg.nbk := fun _ _ => {}
  /-- `m_num_pending` and `m_num_write_pending`. -/
  pending : MemoryMode → Nat := fun _ => 0
  m_mode : MemoryMode := .READ_MODE
  /-- The address of the next node. -/
  next_node : Nat := 0
  /-- The requests of all calls of `add_req`, and all that `schedule` returned. -/
  added : List (DramReq cfg.nbk) := []
  returned : List (DramReq cfg.nbk) := []
  /-- An assertion failed, or a dangling pointer was read. -/
  aborted : Bool := false

variable (cfg : MemoryConfig)

/-- The mode whose structures keep a request. -/
def queueOf (req : DramReq cfg.nbk) : MemoryMode :=
  if cfg.seperate_write_queue_enabled && req.is_write then .WRITE_MODE else .READ_MODE

def queueSize : MemoryMode → Nat
  | .READ_MODE => cfg.gpgpu_frfcfs_dram_sched_queue_size
  | .WRITE_MODE => cfg.gpgpu_frfcfs_dram_write_queue_size

/-- The change of mode in `schedule`. -/
def switchMode (num_write_pending : Nat) (mode : MemoryMode) : MemoryMode :=
  if cfg.seperate_write_queue_enabled then
    match mode with
    | .READ_MODE => if cfg.write_high_watermark ≤ num_write_pending then .WRITE_MODE else .READ_MODE
    | .WRITE_MODE => if num_write_pending < cfg.write_low_watermark then .READ_MODE else .WRITE_MODE
  else mode

namespace FrfcfsScheduler

variable {cfg : MemoryConfig}

def m_num_pending (s : FrfcfsScheduler cfg) : Nat := s.pending .READ_MODE

def m_num_write_pending (s : FrfcfsScheduler cfg) : Nat := s.pending .WRITE_MODE

/-- The structures of one bank, changed. -/
def setQueue (s : FrfcfsScheduler cfg) (m : MemoryMode) (bank : Nat) (q : BankQueue cfg.nbk) :
    FrfcfsScheduler cfg :=
  { s with queues := Function.update s.queues m (Function.update (s.queues m) bank q) }

def add_req (s : FrfcfsScheduler cfg) (req : DramReq cfg.nbk) : FrfcfsScheduler cfg :=
  let m := queueOf cfg req
  { s.setQueue m req.bk ((s.queues m req.bk).add s.next_node req) with
    aborted := s.aborted || !decide (s.pending m < queueSize cfg m)
    pending := Function.update s.pending m (s.pending m + 1)
    next_node := s.next_node + 1
    added := s.added ++ [req] }

def schedule (s : FrfcfsScheduler cfg) (bank curr_row : Nat) :
    Option (DramReq cfg.nbk) × FrfcfsScheduler cfg :=
  let m := switchMode cfg s.m_num_write_pending s.m_mode
  let s := { s with m_mode := m }
  match (s.queues m bank).schedule curr_row with
  | none => (none, { s with aborted := true })
  | some none => (none, s)
  | some (some (req, q)) =>
    let k := queueOf cfg req
    (some req,
      { s.setQueue m bank q with
        aborted := s.aborted || decide (s.pending k = 0)
        pending := Function.update s.pending k (s.pending k - 1)
        returned := s.returned ++ [req] })

/-! ## What the scheduler keeps -/

/-- A request of one bank, row and queue. -/
def isOf (cfg : MemoryConfig) (m : MemoryMode) (bank row : Nat) (req : DramReq cfg.nbk) : Bool :=
  decide (queueOf cfg req = m ∧ req.bk = bank ∧ req.row = row)

/-- The waiting requests of one bank, row and queue, oldest first. -/
def waiting (s : FrfcfsScheduler cfg) (m : MemoryMode) (bank row : Nat) : List (DramReq cfg.nbk) :=
  (((s.queues m bank).ofRow row).map Prod.snd).reverse

structure Kept (s : FrfcfsScheduler cfg) : Prop where
  aborted : s.aborted = false
  sound : ∀ m bank, (s.queues m bank).Sound
  fresh : ∀ m bank, ∀ node ∈ (s.queues m bank).m_queue, node.1 < s.next_node
  home : ∀ m bank, ∀ node ∈ (s.queues m bank).m_queue,
    queueOf cfg node.2 = m ∧ node.2.bk = bank
  mode : cfg.seperate_write_queue_enabled = false → s.m_mode = .READ_MODE
  pending : ∀ m, s.pending m = ∑ bank ∈ Finset.range cfg.nbk, (s.queues m bank).m_queue.length
  history : ∀ m bank row, s.added.filter (isOf cfg m bank row) =
    s.returned.filter (isOf cfg m bank row) ++ s.waiting m bank row

theorem Kept.start : Kept ({} : FrfcfsScheduler cfg) := by
  refine ⟨rfl, fun _ _ => BankQueue.Sound.empty, ?_, ?_, fun _ => rfl, ?_, fun _ _ _ => rfl⟩
  · intro m bank node hnode
    cases hnode
  · intro m bank node hnode
    cases hnode
  · intro m
    exact (Finset.sum_eq_zero fun _ _ => rfl).symm

variable {s : FrfcfsScheduler cfg}

theorem setQueue_queues (m : MemoryMode) (bank : Nat) (q : BankQueue cfg.nbk) (k : MemoryMode)
    (b : Nat) : (s.setQueue m bank q).queues k b = if k = m ∧ b = bank then q else s.queues k b := by
  simp only [setQueue]
  by_cases hk : k = m
  · subst hk
    rw [Function.update_self]
    by_cases hb : b = bank
    · subst hb
      rw [Function.update_self, if_pos ⟨rfl, rfl⟩]
    · rw [Function.update_of_ne hb, if_neg fun h => hb h.2]
  · rw [Function.update_of_ne hk, if_neg fun h => hk h.1]

/-- The number of the nodes of all banks, when those of one bank change. -/
theorem sum_setQueue {m : MemoryMode} {bank : Nat} (hbank : bank < cfg.nbk)
    (q : BankQueue cfg.nbk) (k : MemoryMode) :
    ∑ b ∈ Finset.range cfg.nbk, ((s.setQueue m bank q).queues k b).m_queue.length +
        (if k = m then (s.queues m bank).m_queue.length else 0) =
      ∑ b ∈ Finset.range cfg.nbk, (s.queues k b).m_queue.length +
        if k = m then q.m_queue.length else 0 := by
  by_cases hk : k = m
  · subst hk
    have hmem : bank ∈ Finset.range cfg.nbk := Finset.mem_range.mpr hbank
    have hrest : ∀ b ∈ (Finset.range cfg.nbk).erase bank,
        ((s.setQueue k bank q).queues k b).m_queue.length = (s.queues k b).m_queue.length := by
      intro b hb
      rw [setQueue_queues, if_neg fun h => Finset.ne_of_mem_erase hb h.2]
    rw [if_pos rfl, if_pos rfl, ← Finset.sum_erase_add _ _ hmem,
      ← Finset.sum_erase_add _ (fun b => (s.queues k b).m_queue.length) hmem,
      Finset.sum_congr rfl hrest, setQueue_queues, if_pos ⟨rfl, rfl⟩]
    omega
  · rw [if_neg hk, if_neg hk]
    congr 1
    apply Finset.sum_congr rfl
    intro b _
    rw [setQueue_queues, if_neg fun h => hk h.1]

theorem setQueue_same (m : MemoryMode) (bank : Nat) (q : BankQueue cfg.nbk) :
    (s.setQueue m bank q).queues m bank = q := by
  rw [setQueue_queues, if_pos ⟨rfl, rfl⟩]

theorem isOf_iff {m : MemoryMode} {bank row : Nat} {req : DramReq cfg.nbk} :
    isOf cfg m bank row req = true ↔ queueOf cfg req = m ∧ req.bk = bank ∧ req.row = row :=
  decide_eq_true_iff

/-- A request is added while its queue has room. -/
theorem Kept.add_req (h : Kept s) (req : DramReq cfg.nbk)
    (hroom : s.pending (queueOf cfg req) < queueSize cfg (queueOf cfg req)) :
    Kept (s.add_req req) := by
  have hqueues : ∀ k b, (s.add_req req).queues k b =
      if k = queueOf cfg req ∧ b = req.bk then
        (s.queues (queueOf cfg req) req.bk).add s.next_node req
      else s.queues k b := setQueue_queues _ _ _
  have hnew : s.next_node ∉ (s.queues (queueOf cfg req) req.bk).m_queue.map Prod.fst := by
    intro hmem
    obtain ⟨node, hnode, haddr⟩ := List.mem_map.mp hmem
    have hlt := h.fresh _ _ node hnode
    omega
  refine ⟨?_, ?_, ?_, ?_, h.mode, ?_, ?_⟩
  · change (s.aborted || !decide (_ < _)) = false
    rw [h.aborted, decide_eq_true hroom]
    rfl
  · intro k b
    rw [hqueues]
    split_ifs with hk
    · exact (h.sound _ _).add req hnew
    · exact h.sound k b
  · intro k b node hnode
    change node.1 < s.next_node + 1
    rw [hqueues] at hnode
    split_ifs at hnode with hk
    · rcases List.mem_cons.mp hnode with rfl | hnode
      · exact Nat.lt_succ_self _
      · exact Nat.lt_succ_of_lt (h.fresh _ _ node hnode)
    · exact Nat.lt_succ_of_lt (h.fresh _ _ node hnode)
  · intro k b node hnode
    rw [hqueues] at hnode
    split_ifs at hnode with hk
    · rw [hk.1, hk.2]
      rcases List.mem_cons.mp hnode with rfl | hnode
      · exact ⟨rfl, rfl⟩
      · exact h.home _ _ node hnode
    · exact h.home _ _ node hnode
  · intro k
    have hsum := sum_setQueue (s := s) (m := queueOf cfg req) req.bk_lt
      ((s.queues (queueOf cfg req) req.bk).add s.next_node req) k
    have hlength : ((s.queues (queueOf cfg req) req.bk).add s.next_node req).m_queue.length =
        (s.queues (queueOf cfg req) req.bk).m_queue.length + 1 := rfl
    have hpending := h.pending k
    change Function.update s.pending (queueOf cfg req) _ k = ∑ b ∈ Finset.range cfg.nbk,
      ((s.setQueue (queueOf cfg req) req.bk _).queues k b).m_queue.length
    rw [hlength] at hsum
    by_cases hk : k = queueOf cfg req
    · subst hk
      rw [Function.update_self]
      rw [if_pos rfl, if_pos rfl] at hsum
      omega
    · rw [Function.update_of_ne hk]
      rw [if_neg hk, if_neg hk] at hsum
      omega
  · intro k b row
    change (s.added ++ [req]).filter _ = _ ++ _
    rw [List.filter_append, h.history, List.append_assoc]
    congr 1
    simp only [waiting, hqueues]
    by_cases hof : isOf cfg k b row req = true
    · obtain ⟨rfl, rfl, rfl⟩ := isOf_iff.mp hof
      rw [List.filter_cons_of_pos hof, List.filter_nil, if_pos ⟨rfl, rfl⟩, BankQueue.ofRow_add,
        if_pos rfl, List.map_cons, List.reverse_cons]
    · rw [List.filter_cons_of_neg hof, List.filter_nil, List.append_nil]
      split_ifs with hk
      · obtain ⟨rfl, rfl⟩ := hk
        have hrow : req.row ≠ row := fun hrow => hof (isOf_iff.mpr ⟨rfl, rfl, hrow⟩)
        rw [BankQueue.ofRow_add, if_neg hrow]
      · rfl

/-- The state in which the structures of a bank are asked. -/
theorem Kept.switched (h : Kept s) :
    Kept { s with m_mode := switchMode cfg s.m_num_write_pending s.m_mode } := by
  refine ⟨h.aborted, h.sound, h.fresh, h.home, ?_, h.pending, h.history⟩
  intro hwrite
  change switchMode cfg _ _ = _
  simp only [switchMode, hwrite, Bool.false_eq_true, if_false]
  exact h.mode hwrite

/-- `schedule` returns nothing for a bank that has no request in the mode, and takes a
request out otherwise. -/
theorem Kept.schedule (h : Kept s) {bank : Nat} (hbank : bank < cfg.nbk) (curr_row : Nat) :
    Kept (s.schedule bank curr_row).2 ∧
      (s.schedule bank curr_row).2.m_mode = switchMode cfg s.m_num_write_pending s.m_mode ∧
      (s.schedule bank curr_row).2.added = s.added ∧
      (((s.queues (switchMode cfg s.m_num_write_pending s.m_mode) bank).m_queue = [] ∧
          (s.schedule bank curr_row).1 = none ∧
          (s.schedule bank curr_row).2.pending = s.pending ∧
          (s.schedule bank curr_row).2.queues = s.queues) ∨
        ∃ req, (s.schedule bank curr_row).1 = some req ∧
          (s.queues (switchMode cfg s.m_num_write_pending s.m_mode) bank).m_queue ≠ []) := by
  have hswitched := h.switched
  generalize hm : switchMode cfg s.m_num_write_pending s.m_mode = m at hswitched ⊢
  rcases (h.sound m bank).schedule curr_row with ⟨hempty, hnull⟩ | ⟨node, q, hq, htakes, hsound⟩
  · have hschedule : s.schedule bank curr_row = (none, { s with m_mode := m }) := by
      simp only [FrfcfsScheduler.schedule, hm, hnull]
    rw [hschedule]
    exact ⟨hswitched, rfl, rfl, Or.inl ⟨hempty, rfl, rfl, rfl⟩⟩
  · have hnode : node ∈ (s.queues m bank).m_queue := htakes.perm.mem_iff.mpr List.mem_cons_self
    have hhome := h.home m bank node hnode
    have hschedule : s.schedule bank curr_row =
        (some node.2,
          { ({ s with m_mode := m } : FrfcfsScheduler cfg).setQueue m bank q with
            aborted := s.aborted || decide (s.pending m = 0)
            pending := Function.update s.pending m (s.pending m - 1)
            returned := s.returned ++ [node.2] }) := by
      simp only [FrfcfsScheduler.schedule, hm, hq, hhome.1]
    have hqueues := setQueue_queues (s := { s with m_mode := m }) m bank q
    have hlength := htakes.perm.length_eq
    rw [List.length_cons] at hlength
    have hsum := fun k => sum_setQueue (s := { s with m_mode := m }) (m := m) hbank q k
    have hpos : s.pending m ≠ 0 := by
      have hle := Finset.single_le_sum (f := fun b => (s.queues m b).m_queue.length)
        (fun _ _ => Nat.zero_le _) (Finset.mem_range.mpr hbank)
      have hpending := h.pending m
      have hlt : 0 < (s.queues m bank).m_queue.length := by omega
      have hle' : (s.queues m bank).m_queue.length ≤ s.pending m := hpending ▸ hle
      omega
    rw [hschedule]
    refine ⟨⟨?_, ?_, ?_, ?_, hswitched.mode, ?_, ?_⟩, rfl, rfl,
      Or.inr ⟨node.2, rfl, List.ne_nil_of_mem hnode⟩⟩
    · change (s.aborted || decide _) = false
      rw [h.aborted, decide_eq_false hpos]
      rfl
    · intro k b
      change ((setQueue _ m bank q).queues k b).Sound
      rw [hqueues]
      split_ifs with hk
      · exact hsound
      · exact h.sound k b
    · intro k b n hn
      change n ∈ ((setQueue _ m bank q).queues k b).m_queue at hn
      rw [hqueues] at hn
      split_ifs at hn with hk
      · exact h.fresh _ _ n (htakes.sublist.subset hn)
      · exact h.fresh _ _ n hn
    · intro k b n hn
      change n ∈ ((setQueue _ m bank q).queues k b).m_queue at hn
      rw [hqueues] at hn
      split_ifs at hn with hk
      · rw [hk.1, hk.2]
        exact h.home _ _ n (htakes.sublist.subset hn)
      · exact h.home _ _ n hn
    · intro k
      have hk := hsum k
      have hpending := h.pending k
      change Function.update s.pending m (s.pending m - 1) k =
        ∑ b ∈ Finset.range cfg.nbk, ((setQueue _ m bank q).queues k b).m_queue.length
      change _ + (if k = m then (s.queues m bank).m_queue.length else 0) =
        ∑ b ∈ Finset.range cfg.nbk, (s.queues k b).m_queue.length + _ at hk
      by_cases hkm : k = m
      · subst hkm
        rw [Function.update_self]
        rw [if_pos rfl, if_pos rfl] at hk
        omega
      · rw [Function.update_of_ne hkm]
        rw [if_neg hkm, if_neg hkm] at hk
        omega
    · intro k b row
      change s.added.filter _ = (s.returned ++ [node.2]).filter _ ++
        ((((setQueue _ m bank q).queues k b).ofRow row).map Prod.snd).reverse
      rw [List.filter_append, h.history, List.append_assoc]
      congr 1
      simp only [waiting, hqueues]
      by_cases hof : isOf cfg k b row node.2 = true
      · obtain ⟨hk, hb, rfl⟩ := isOf_iff.mp hof
        obtain rfl : k = m := hk.symm.trans hhome.1
        obtain rfl : b = bank := hb.symm.trans hhome.2
        rw [List.filter_cons_of_pos hof, List.filter_nil, if_pos ⟨rfl, rfl⟩, htakes.oldest,
          List.map_append, List.reverse_append]
        rfl
      · rw [List.filter_cons_of_neg hof, List.filter_nil, List.nil_append]
        split_ifs with hk
        · obtain ⟨rfl, rfl⟩ := hk
          have hrow : row ≠ node.2.row := by
            intro hrow
            exact hof (isOf_iff.mpr ⟨hhome.1, hhome.2, hrow.symm⟩)
          rw [htakes.others row hrow]
        · rfl

end FrfcfsScheduler

end gpgpu_sim_uvm.dram_t
