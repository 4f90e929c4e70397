-- The records of the accesses (shader.cc): each call of `access_cycle` walks over the
-- queue of the instruction and counts the accesses that it has not met, all under the page
-- of the access in front. They are counted once, and under their own page exactly if the
-- instruction stays on one page.
import GpgpuSimUvm.System

namespace gpgpu_sim_uvm

namespace access_records

/-! ## The code -/

/-- `access_info` -/
structure AccessInfo where
  page_no : Nat
  mem_addr : Nat
  size : Nat
  cycle : Nat
  is_read : Bool
  sm_id : Nat
  warp_id : Nat
  deriving DecidableEq

/-- The statistics that `access_cycle` writes. -/
structure AccessStats where
  ma_latency : Nat → StdMap Nat (Bool × Nat) := fun _ => .empty
  tlb_hit : Nat → Nat := fun _ => 0
  tlb_miss : Nat → Nat := fun _ => 0
  page_tlb_hit_times : Nat → Nat := fun _ => 0
  page_tlb_miss_times : Nat → Nat := fun _ => 0
  page_access_times : Nat → Nat → Nat := fun _ _ => 0
  time_and_page_access : List AccessInfo := []
  page_rw_times : Nat → Nat × Nat := fun _ => (0, 0)

/-- One call: the unit and its instruction, what `is_page_managed` and the TLB say at the
time, the queue and the statistics that it finds. -/
structure Call where
  sid : Nat
  warp_id : Nat
  cycle : Nat
  empty : Bool := false
  active_count : Nat
  managed : MemAccess → Bool
  tlb : List Nat
  queue : List MemAccess
  stats : AccessStats

/-- `f[k]` changed, the other entries as they were. -/
def change {B : Type} (f : Nat → B) (k : Nat) (g : B → B) : Nat → B :=
  fun j => if j = k then g (f j) else f j

def isRead (b : MemAccess) : Bool := decide (b.type = .GLOBAL_ACC_R)

/-- The record of an access under a page. -/
def Call.info (c : Call) (page_no : Nat) (b : MemAccess) : AccessInfo :=
  ⟨page_no, b.addr, b.size, c.cycle, isRead b, c.sid, c.warp_id⟩

/-- The counters of one access. -/
def Call.count (c : Call) (page_no : Nat) (st : AccessStats) (b : MemAccess) : AccessStats :=
  let hit := c.managed b && decide (page_no ∈ c.tlb)
  let miss := c.managed b && !decide (page_no ∈ c.tlb)
  { ma_latency := change st.ma_latency c.sid fun m =>
      m.alter b.uid (false, 0) fun _ => (false, c.cycle)
    tlb_hit := if hit then change st.tlb_hit c.sid (· + 1) else st.tlb_hit
    tlb_miss := if miss then change st.tlb_miss c.sid (· + 1) else st.tlb_miss
    page_tlb_hit_times :=
      if hit then change st.page_tlb_hit_times page_no (· + 1) else st.page_tlb_hit_times
    page_tlb_miss_times :=
      if miss then change st.page_tlb_miss_times page_no (· + 1) else st.page_tlb_miss_times
    page_access_times := change st.page_access_times c.sid fun times => change times page_no (· + 1)
    time_and_page_access := st.time_and_page_access ++ [c.info page_no b]
    page_rw_times := change st.page_rw_times page_no fun n =>
      if isRead b then (n.1 + 1, n.2) else (n.1, n.2 + 1) }

/-- A global access that is not in `ma_latency`. -/
def unmet (st : AccessStats) (sid : Nat) (b : MemAccess) : Bool :=
  b.isGlobal && !(st.ma_latency sid).contains b.uid

/-- The body of the loop. -/
def Call.meet (c : Call) (page_no : Nat) (st : AccessStats) (b : MemAccess) : AccessStats :=
  if unmet st c.sid b then c.count page_no st b else st

/-- The loop: the access in front is met and goes to the back. -/
def Call.turns (c : Call) (page_no : Nat) :
    Nat → List MemAccess × AccessStats → List MemAccess × AccessStats
  | 0, s => s
  | _ + 1, ([], st) => ([], st)
  | n + 1, (b :: rest, st) => c.turns page_no n (rest ++ [b], c.meet page_no st b)

variable (cfg : Config)

/-- `access_cycle` up to the end of the first loop: the queue and the statistics. -/
def Call.run (c : Call) : List MemAccess × AccessStats :=
  if c.empty || c.queue.isEmpty || decide (c.active_count = 0) then (c.queue, c.stats)
  else
    let page_no := (c.queue.head?.map fun front => cfg.get_page_num front.addr).getD 0
    c.turns page_no c.queue.length (c.queue, c.stats)

/-! ## What the calls add -/

/-- What a call adds to a counter. -/
def Call.added (c : Call) (counter : AccessStats → Nat) : Nat :=
  counter (c.run cfg).2 - counter c.stats

/-- What all calls add to a counter. -/
def total (calls : List Call) (counter : AccessStats → Nat) : Nat :=
  (calls.map fun c => c.added cfg counter).sum

/-- The page of an access. -/
def ownPage (b : MemAccess) : Nat := cfg.get_page_num b.addr

/-- The next call for an instruction. The statistics may have changed in between, but no key
leaves `ma_latency`, and accesses only leave the queue. -/
structure NextCall (c d : Call) : Prop where
  sid : d.sid = c.sid
  queue : d.queue.Sublist c.queue
  kept : ∀ uid, ((c.run cfg).2.ma_latency c.sid).contains uid = true →
    (d.stats.ma_latency c.sid).contains uid = true

/-- The calls for an instruction while it waits. Its accesses have numbers of their own, and
at the first call none of them was met. -/
structure Waits (first : Call) (later : List Call) : Prop where
  chained : (first :: later).IsChain (NextCall cfg)
  issued : first.empty = false
  active : 0 < first.active_count
  distinct : (first.queue.map MemAccess.uid).Nodup
  fresh : ∀ b ∈ first.queue, (first.stats.ma_latency first.sid).contains b.uid = false

theorem change_self {B : Type} (f : Nat → B) (k : Nat) (g : B → B) : change f k g k = g (f k) :=
  if_pos rfl

theorem change_ne {B : Type} (f : Nat → B) {j k : Nat} (g : B → B) (h : j ≠ k) :
    change f k g j = f j :=
  if_neg h

/-- After `n` turns the first `n` accesses were met and are at the back. -/
theorem turns_eq (c : Call) (p : Nat) {n : Nat} {q : List MemAccess} (st : AccessStats)
    (h : n ≤ q.length) :
    c.turns p n (q, st) = (q.drop n ++ q.take n, (q.take n).foldl (c.meet p) st) := by
  induction n generalizing q st with
  | zero => simp [Call.turns]
  | succ n ih =>
    cases q with
    | nil => simp at h
    | cons b rest =>
      have hle : n ≤ rest.length := by simpa using h
      rw [Call.turns, ih _ (by simp; omega), List.drop_append_of_le_length hle,
        List.take_append_of_le_length hle]
      simp

/-- The page of the access in front. -/
def Call.frontPage (c : Call) : Nat := (c.queue.head?.map (ownPage cfg)).getD 0

/-- The loop goes once over the queue and leaves it in order. -/
theorem run_eq {c : Call} (hempty : c.empty = false) (hactive : 0 < c.active_count) :
    c.run cfg = (c.queue, c.queue.foldl (c.meet (c.frontPage cfg)) c.stats) := by
  unfold Call.run
  by_cases hq : c.queue = []
  · simp [hq]
  · rw [if_neg (by simp [hempty, hq, hactive.ne'])]
    rw [turns_eq c _ _ le_rfl, List.drop_length, List.take_length, List.nil_append]
    rfl

variable {cfg : Config} {first : Call} {later : List Call}

/-- The counters that both models keep. -/
structure Agrees (st : AccessStats) (ns : NewStats) : Prop where
  met : ∀ sid uid, (st.ma_latency sid).contains uid = true ↔ (sid, uid) ∈ ns.ma_latency
  accesses : st.page_access_times = ns.page_access_times
  hits : st.page_tlb_hit_times = ns.page_tlb_hit_times
  misses : st.page_tlb_miss_times = ns.page_tlb_miss_times

theorem Agrees.count {st : AccessStats} {ns : NewStats} (h : Agrees st ns) (c : Call) (p : Nat)
    (b : MemAccess) : Agrees (c.count p st b)
      (ns.countAccess c.sid b.uid p (c.managed b) (decide (p ∈ c.tlb))) := by
  refine ⟨fun sid uid => ?_, ?_, ?_, ?_⟩
  · by_cases hs : sid = c.sid
    · subst hs
      simp [Call.count, NewStats.countAccess, change_self, StdMap.contains_alter, ← h.met]
    · simp [Call.count, NewStats.countAccess, change_ne _ _ hs, ← h.met, hs]
  · simp only [Call.count, NewStats.countAccess, ← h.accesses]
    rfl
  · simp only [Call.count, NewStats.countAccess, ← h.hits]
    rfl
  · simp only [Call.count, NewStats.countAccess, ← h.misses]
    rfl

/-- A call counts what the walk over the queue counts in the model of the unit. -/
theorem Agrees.run {c : Call} {g : Gpu} (h : Agrees c.stats g.new_stats) {front : MemAccess}
    {rest : List MemAccess} (hqueue : c.queue = front :: rest) (hempty : c.empty = false)
    (hactive : 0 < c.active_count) (hmanaged : c.managed = isManaged cfg g)
    (htlb : c.tlb = (g.ldst c.sid).tlb) :
    Agrees (c.run cfg).2 (meetAccesses cfg g c.sid front rest).new_stats := by
  rw [run_eq cfg hempty hactive, hqueue, Call.frontPage, hqueue]
  simp only [meetAccesses, touchAccesses, countAccesses, List.head?_cons, Option.map_some,
    Option.getD_some]
  generalize hp : ownPage cfg front = p
  have hpage : cfg.get_page_num front.addr = p := hp
  rw [hpage]
  generalize front :: rest = q
  have hfold : ∀ st ns, Agrees st ns → Agrees (q.foldl (c.meet p) st) (q.foldl (fun st b =>
      if b.isGlobal && !decide ((c.sid, b.uid) ∈ st.ma_latency) then
        st.countAccess c.sid b.uid p (isManaged cfg g b) (decide (p ∈ (g.ldst c.sid).tlb))
      else st) ns) := by
    induction q with
    | nil => exact fun st ns h => h
    | cons b q ih =>
      intro st ns hagrees
      refine ih _ _ ?_
      have hmet : (st.ma_latency c.sid).contains b.uid =
          decide ((c.sid, b.uid) ∈ ns.ma_latency) := by
        rw [Bool.eq_iff_iff, decide_eq_true_eq]
        exact hagrees.met c.sid b.uid
      rw [Call.meet, unmet, hmet]
      beta_reduce
      split
      · have hcount := hagrees.count c p b
        rwa [hmanaged, htlb] at hcount
      · exact hagrees
  exact hfold _ _ h

/-! ## Two loads -/

def readOf (addr uid : Nat) (h : addr % 4096 + 32 ≤ 4096) : MemAccess where
  addr := addr
  size := 32
  type := .GLOBAL_ACC_R
  uid := uid
  size_pos := sector_size_pos
  in_page := h

/-- A call for two loads, the second of them at `addr`. -/
def twoLoads (addr : Nat) (h : addr % 4096 + 32 ≤ 4096) : Call where
  sid := 0
  warp_id := 3
  cycle := 10
  active_count := 2
  managed := fun _ => true
  tlb := []
  queue := [readOf 0 1 (by decide), readOf addr 2 h]
  stats := {}

end access_records

end gpgpu_sim_uvm
