-- The invariant of the streams: the history of each stream leads to its queue, each grid with an
-- entry is the kernel in front of the stream of its entry, and each prefetch that waits has its
-- request. Here the calls of the host keep it, and operations that leave their stream.
import GpgpuSimUvm.Streams

namespace gpgpu_sim_uvm.stream_manager

/-! ## The books of the streams -/

/-- The stream as a queue with the operation in front in hand while it is pending. -/
def CUstream.queue (st : CUstream) : in_order.Queue Nat :=
  ⟨st.m_operations.map StreamOperation.number, st.m_pending, st.m_pending⟩

def StreamOperation.isPrefetch (addr cnt : Nat) (op : StreamOperation) : Bool :=
  decide (op.m_type = .stream_prefetch_host_to_device addr cnt)

/-- What a prefetch is asked for. -/
def StreamOperation.range (op : StreamOperation) : Option (Nat × Nat) :=
  match op.m_type with
  | .stream_prefetch_host_to_device addr cnt => some (addr, cnt)
  | _ => none

namespace Streams

/-- What happened to the operations of one stream. -/
def book (m : Streams) (s : Nat) : List (in_order.Event Nat) :=
  m.events.filterMap fun e => if e.1 = s then some e.2 else none

/-- The history of each stream is orderly, and ends with the queue of the stream. -/
def Booked (m : Streams) : Prop := ∀ s, in_order.run {} (m.book s) = some (m.stream s).queue

theorem Booked.same {m m' : Streams} (h : Booked m) (hs : m'.stream = m.stream)
    (he : m'.events = m.events) : Booked m' := by
  intro s
  rw [book, he, hs]
  exact h s

/-- Events of one stream that lead to its new queue. -/
theorem Booked.update {m m' : Streams} (h : Booked m) {s : Nat} {st : CUstream}
    {es : List (in_order.Event Nat)} (hrun : in_order.run (m.stream s).queue es = some st.queue)
    (hs : m'.stream = Function.update m.stream s st)
    (he : m'.events = m.events ++ es.map fun e => (s, e)) : Booked m' := by
  intro t
  have hbook : m'.book t = m.book t ++ if t = s then es else [] := by
    rw [book, he, List.filterMap_append, List.filterMap_map]
    congr 1
    split_ifs with hts
    · subst hts
      simp
    · simp [Ne.symm hts]
  rw [hbook, hs, in_order.run_append, h t]
  by_cases hts : t = s
  · subst hts
    simp [hrun]
  · simp [hts, in_order.run]

/-- A pending stream has an operation. -/
theorem Booked.pending {m : Streams} (h : Booked m) {s : Nat} (hs : m.busy s = true) :
    m.empty s = false := by
  have hsound := (in_order.accounts_of_run (h s)).sound
  have hne := hsound.front hs
  rw [empty, List.isEmpty_eq_false_iff]
  intro hnil
  rw [CUstream.queue, hnil] at hne
  exact hne rfl

/-- A stream without operations is as it was created. -/
theorem Booked.idle {m : Streams} (h : Booked m) {s : Nat} (hs : m.empty s = true) :
    m.stream s = {} := by
  have hbusy : m.busy s = false := by
    by_contra hyes
    rw [Bool.not_eq_false] at hyes
    rw [h.pending hyes] at hs
    cases hs
  have hnil := List.isEmpty_iff.mp hs
  cases hst : m.stream s with
  | mk ops pending =>
    rw [hst] at hnil
    rw [busy, hst] at hbusy
    simp only at hnil hbusy
    rw [hnil, hbusy]

/-! ## The registry of the streams -/

/-- The streams that exist: the default one and those of the manager. -/
def Live (m : Streams) (s : Nat) : Prop := s = 0 ∨ s ∈ m.m_streams

structure Registered (m : Streams) : Prop where
  positive : 0 < m.sm_next_stream_uid
  once : m.m_streams.Nodup
  known : ∀ s ∈ m.m_streams, 0 < s ∧ s < m.sm_next_stream_uid
  unused : ∀ s, ¬ m.Live s → m.stream s = {}
  last : ∀ l, m.m_last_stream = some l → l ∈ m.m_streams
  ctas : (m.m_cta_streams.map Prod.snd).Nodup
  owned : ∀ c ∈ m.m_cta_streams, c.2 ∈ m.m_streams

namespace Registered

variable {m m' : Streams}

/-- A step that makes and destroys no stream. -/
theorem keep (h : Registered m) (hstreams : m'.m_streams = m.m_streams)
    (hnext : m'.sm_next_stream_uid = m.sm_next_stream_uid)
    (hctas : m'.m_cta_streams = m.m_cta_streams)
    (hlast : ∀ l, m'.m_last_stream = some l → l ∈ m.m_streams)
    (hunused : ∀ s, ¬ m.Live s → m'.stream s = m.stream s) : Registered m' := by
  refine ⟨?_, ?_, ?_, ?_, ?_, ?_, ?_⟩
  · rw [hnext]
    exact h.positive
  · rw [hstreams]
    exact h.once
  · rw [hstreams, hnext]
    exact h.known
  · intro s hs
    rw [Live, hstreams] at hs
    rw [hunused s hs]
    exact h.unused s hs
  · rw [hstreams]
    exact hlast
  · rw [hctas]
    exact h.ctas
  · rw [hctas, hstreams]
    exact h.owned

theorem zero_not_device (h : Registered m) : m.deviceStream 0 = false := by
  rw [deviceStream, decide_eq_false_iff_not]
  intro hmem
  obtain ⟨c, hc, heq⟩ := List.mem_map.mp hmem
  have hpos := (h.known c.2 (h.owned c hc)).1
  omega

end Registered

/-! ## The kernels -/

/-- The grids among the operations of a stream. -/
def gridsIn (m : Streams) (s : Nat) : List Nat :=
  (m.stream s).m_operations.filterMap StreamOperation.grid

/-- The grids that are not pushed yet. -/
def gridsAhead (m : Streams) : List Nat :=
  m.coming.filterMap StreamOperation.grid ++ m.g_cuda_device_launch_op.map Prod.fst

/-- The grids that wait or run. -/
def grids (m : Streams) : List Nat := (0 :: m.m_streams).flatMap m.gridsIn ++ m.gridsAhead

/-- The grids that were launched and whose end was not registered yet. -/
def launched (m : Streams) : List Nat :=
  m.m_finished_kernel ++ m.m_running_kernels.filterMap id ++ m.m_functional_sim_kernel.toList

/-- The kernel in front of a stream. -/
def frontGrid (m : Streams) (s : Nat) : Option Nat := (m.head s).bind StreamOperation.grid

structure Gridded (m : Streams) : Prop where
  numbered : 0 < m.kernel_info_m_next_uid
  entries : ∀ uid s, m.m_grid_id_to_stream uid = some s →
    m.busy s = true ∧ m.frontGrid s = some uid
  noted : ∀ uid ∈ m.launched, (m.m_grid_id_to_stream uid).isSome
  apart : m.launched.Nodup
  roots : ∀ uid ∈ m.launched, (m.kernel uid).m_parent_kernel = none
  once : m.grids.Nodup
  below : ∀ uid ∈ m.grids, uid < m.kernel_info_m_next_uid
  parentless : m.gpuFree = true → ∀ s, m.Live s → ∀ uid ∈ m.gridsIn s,
    (m.kernel uid).m_parent_kernel = none
  hosted : ∀ c ∈ m.calls, c.phase ≠ .waiting → c.device = false → ∀ uid, c.op.grid = some uid →
    (m.kernel uid).m_parent_kernel = none

/-! ## The prefetches -/

/-- The operations of a stream that are not started, in the queue and in the calls. -/
def awaiting (m : Streams) (s : Nat) : List StreamOperation :=
  (if m.busy s then (m.stream s).m_operations.tail else (m.stream s).m_operations) ++
    m.coming.filter fun op => decide (m.target op = s)

/-- The prefetch that a stream has in hand. -/
def prefetching (m : Streams) (s : Nat) : List (Nat × Nat) :=
  if m.busy s then ((m.head s).bind StreamOperation.range).toList else []

theorem prefetching_of_stream {m m' : Streams} {s : Nat} (hs : m'.stream s = m.stream s) :
    m'.prefetching s = m.prefetching s := by
  have hbusy : m'.busy s = m.busy s := congrArg CUstream.m_pending hs
  have hhead : m'.head s = m.head s := congrArg (fun st => st.m_operations.head?) hs
  rw [prefetching, hbusy, hhead]
  rfl

structure Prefetching (m : Streams) : Prop where
  active : ∀ s, (m.prefetch_req_buffer.filter fun q => q.active && decide (q.m_stream = s)).map
    (fun q => (q.start_addr, q.size)) = m.prefetching s
  awaited : ∀ addr cnt s, (m.awaiting s).countP (StreamOperation.isPrefetch addr cnt) ≤
    m.prefetch_req_buffer.countP fun q => !q.active && isRequest addr cnt s q
  fresh : ∀ q ∈ m.prefetch_req_buffer, q.active = false → q.cur_addr = q.start_addr

/-! ## The calls -/

structure Called (m : Streams) : Prop where
  made : ∀ c ∈ m.m_cta_streams, c.1 < m.kernel_info_m_next_uid
  live : ∀ c ∈ m.calls, c.phase ≠ .waiting → ∀ s, c.op.m_stream = some s →
    s ∈ m.m_streams ∧ (c.device = false → m.deviceStream s = false)
  grids : ∀ c ∈ m.calls, c.device = true → c.op.grid.isSome
  launches : ∀ l ∈ m.g_cuda_device_launch_op, ∃ p, (p, l.2) ∈ m.m_cta_streams ∧
    l.1 ∈ (m.kernel p).m_child_kernels
  idle : m.gpuFree = true → ∀ s, m.deviceStream s = true → m.empty s = true

/-- The invariant of the streams. -/
structure Sound (m : Streams) : Prop where
  runs : m.aborted = false
  booked : Booked m
  homes : ∀ s, ∀ op ∈ (m.stream s).m_operations, op.m_stream = some s
  registered : Registered m
  gridded : Gridded m
  prefetching : Prefetching m
  called : Called m

/-! ## The calls of the host -/

section

variable {m : Streams} (h : Sound m)
include h

omit h in
theorem coming_beginPush (op : StreamOperation) (device : Bool) :
    (m.beginPush op device).coming = m.coming ++ [op] := by
  simp only [coming, beginPush, List.filter_append, List.map_append]
  congr 1
  simp only [List.filter_cons]
  split_ifs <;> simp_all

omit h in
theorem gpuFree_beginPush (op : StreamOperation) (device : Bool) :
    (m.beginPush op device).gpuFree = (m.gpuFree && !device) := by
  simp [gpuFree, beginPush]

theorem Sound.beginPush {op : StreamOperation} {device : Bool}
    (hgrid : ∀ uid, op.grid = some uid → uid ∉ m.grids ∧ uid < m.kernel_info_m_next_uid ∧
      (device = false → (m.kernel uid).m_parent_kernel = none))
    (hlive : ∀ s, op.m_stream = some s →
      s ∈ m.m_streams ∧ (device = false → m.deviceStream s = false))
    (hdevice : device = true → op.grid.isSome)
    (hasked : ∀ addr cnt, op.isPrefetch addr cnt = true →
      (m.awaiting (m.target op)).countP (StreamOperation.isPrefetch addr cnt) <
        m.prefetch_req_buffer.countP fun q => !q.active && isRequest addr cnt (m.target op) q) :
    Sound (m.beginPush op device) := by
  have hcoming := coming_beginPush (m := m) op device
  have hfree := gpuFree_beginPush (m := m) op device
  have hgrids : (m.beginPush op device).grids.Perm (op.grid.toList ++ m.grids) := by
    have hahead : (m.beginPush op device).gridsAhead =
        m.coming.filterMap StreamOperation.grid ++ (op.grid.toList ++
          m.g_cuda_device_launch_op.map Prod.fst) := by
      rw [gridsAhead, hcoming, List.filterMap_append, List.append_assoc]
      cases hg : op.grid <;> simp [hg] <;> rfl
    rw [grids, hahead, grids, gridsAhead]
    exact (List.perm_append_comm_assoc _ _ _).append_left _ |>.trans
      (List.perm_append_comm_assoc _ _ _)
  refine ⟨h.runs, h.booked.same rfl rfl, h.homes, ?_, ?_, ?_, ?_⟩
  · exact h.registered.keep rfl rfl rfl h.registered.last fun _ _ => rfl
  · refine ⟨h.gridded.numbered, h.gridded.entries, h.gridded.noted, h.gridded.apart,
      h.gridded.roots, ?_, ?_, ?_, ?_⟩
    · rw [hgrids.nodup_iff]
      cases hg : op.grid with
      | none => exact h.gridded.once
      | some uid => exact List.nodup_cons.mpr ⟨(hgrid uid hg).1, h.gridded.once⟩
    · intro uid huid
      rcases List.mem_append.mp (hgrids.mem_iff.mp huid) with hnew | hold
      · exact (hgrid uid (Option.mem_toList.mp hnew)).2.1
      · exact h.gridded.below uid hold
    · intro hboth
      rw [hfree, Bool.and_eq_true] at hboth
      exact h.gridded.parentless hboth.1
    · intro c hc hphase hhost uid huid
      rcases List.mem_append.mp hc with hc | hc
      · exact h.gridded.hosted c hc hphase hhost uid huid
      · rw [List.mem_singleton] at hc
        subst hc
        exact (hgrid uid huid).2.2 hhost
  · refine ⟨h.prefetching.active, ?_, h.prefetching.fresh⟩
    intro addr cnt s
    have hawaiting : (m.beginPush op device).awaiting s =
        m.awaiting s ++ if m.target op = s then [op] else [] := by
      simp only [awaiting, hcoming, List.filter_append, List.append_assoc]
      congr 2
      simp only [List.filter_cons, List.filter_nil, target, Streams.beginPush]
      split_ifs <;> simp_all
    rw [hawaiting, List.countP_append]
    have hold := h.prefetching.awaited addr cnt s
    by_cases hask : op.isPrefetch addr cnt = true ∧ m.target op = s
    · obtain ⟨hask, rfl⟩ := hask
      have hmore := hasked addr cnt hask
      simp only [if_pos, List.countP_singleton, hask]
      exact hmore
    · have hnone : (if m.target op = s then [op] else []).countP
          (StreamOperation.isPrefetch addr cnt) = 0 := by
        split_ifs with hs
        · rw [List.countP_singleton, if_neg fun hp => hask ⟨hp, hs⟩]
        · rfl
      rw [hnone]
      exact hold
  · refine ⟨h.called.made, ?_, ?_, h.called.launches, ?_⟩
    · intro c hc hphase s hs
      rcases List.mem_append.mp hc with hc | hc
      · exact h.called.live c hc hphase s hs
      · rw [List.mem_singleton] at hc
        subst hc
        exact hlive s hs
    · intro c hc hdev
      rcases List.mem_append.mp hc with hc | hc
      · exact h.called.grids c hc hdev
      · rw [List.mem_singleton] at hc
        subst hc
        exact hdevice hdev
    · intro hboth
      rw [hfree, Bool.and_eq_true] at hboth
      exact h.called.idle hboth.1

theorem Sound.newKernel (latency : Nat) : Sound (m.newKernel latency none) := by
  have hnew : ∀ uid, uid < m.kernel_info_m_next_uid →
      (m.newKernel latency none).kernel uid = m.kernel uid := by
    intro uid huid
    simp only [Streams.newKernel]
    exact Function.update_of_ne (Nat.ne_of_lt huid) _ _
  have hparent : ∀ uid, (m.kernel uid).m_parent_kernel = none →
      ((m.newKernel latency none).kernel uid).m_parent_kernel = none := by
    intro uid huid
    simp only [Streams.newKernel, Function.update_apply]
    split_ifs
    · rfl
    · exact huid
  refine ⟨h.runs, h.booked.same rfl rfl, h.homes, ?_, ?_, ?_, ?_⟩
  · exact h.registered.keep rfl rfl rfl h.registered.last fun _ _ => rfl
  · refine ⟨Nat.succ_pos _, h.gridded.entries, h.gridded.noted, h.gridded.apart, ?_,
      h.gridded.once, ?_, ?_, ?_⟩
    · exact fun uid huid => hparent uid (h.gridded.roots uid huid)
    · exact fun uid huid => Nat.lt_succ_of_lt (h.gridded.below uid huid)
    · exact fun hfree s hs uid huid => hparent uid (h.gridded.parentless hfree s hs uid huid)
    · intro c hc hphase hhost uid huid
      exact hparent uid (h.gridded.hosted c hc hphase hhost uid huid)
  · exact ⟨h.prefetching.active, h.prefetching.awaited, h.prefetching.fresh⟩
  · refine ⟨?_, h.called.live, h.called.grids, ?_, h.called.idle⟩
    · exact fun c hc => Nat.lt_succ_of_lt (h.called.made c hc)
    · intro l hl
      obtain ⟨p, hp, hchild⟩ := h.called.launches l hl
      refine ⟨p, hp, ?_⟩
      rwa [hnew p (h.called.made (p, l.2) hp)]

theorem Sound.register_prefetch (addr allocation cnt : Nat) (s : Option Nat) :
    Sound (m.register_prefetch addr allocation cnt s) := by
  refine ⟨h.runs, h.booked.same rfl rfl, h.homes, ?_, ?_, ?_, ?_⟩
  · exact h.registered.keep rfl rfl rfl h.registered.last fun _ _ => rfl
  · exact ⟨h.gridded.numbered, h.gridded.entries, h.gridded.noted, h.gridded.apart, h.gridded.roots,
      h.gridded.once, h.gridded.below, h.gridded.parentless, h.gridded.hosted⟩
  · refine ⟨?_, ?_, ?_⟩
    · intro t
      simp only [Streams.register_prefetch, List.filter_append, List.map_append]
      rw [h.prefetching.active t]
      exact List.append_nil _
    · intro a n t
      simp only [Streams.register_prefetch, List.countP_append]
      exact Nat.le_trans (h.prefetching.awaited a n t) (Nat.le_add_right _ _)
    · intro q hq hidle
      rcases List.mem_append.mp hq with hq | hq
      · exact h.prefetching.fresh q hq hidle
      · rw [List.mem_singleton] at hq
        subst hq
        rfl
  · exact ⟨h.called.made, h.called.live, h.called.grids, h.called.launches, h.called.idle⟩

/-- An event that is issued once more. -/
theorem Sound.issue (issued : Nat → Nat) : Sound { m with num_issued := issued } := by
  refine ⟨h.runs, h.booked.same rfl rfl, h.homes, ?_, ?_, ?_, ?_⟩
  · exact h.registered.keep rfl rfl rfl h.registered.last fun _ _ => rfl
  · exact ⟨h.gridded.numbered, h.gridded.entries, h.gridded.noted, h.gridded.apart, h.gridded.roots,
      h.gridded.once, h.gridded.below, h.gridded.parentless, h.gridded.hosted⟩
  · exact ⟨h.prefetching.active, h.prefetching.awaited, h.prefetching.fresh⟩
  · exact ⟨h.called.made, h.called.live, h.called.grids, h.called.launches, h.called.idle⟩

omit h in
theorem calls_split {i : Nat} {c : PushCall} (hi : m.calls[i]? = some c) :
    ∃ pre post, m.calls = pre ++ c :: post ∧ pre.length = i := by
  obtain ⟨hlt, hget⟩ := List.getElem?_eq_some_iff.mp hi
  refine ⟨m.calls.take i, m.calls.drop (i + 1), ?_, List.length_take_of_le (Nat.le_of_lt hlt)⟩
  rw [← hget, List.getElem_cons_drop, List.take_append_drop]

omit h in
theorem coming_split {pre post : List PushCall} {c : PushCall} (hc : m.calls = pre ++ c :: post) :
    m.coming = ((pre.filter fun c => decide (c.phase ≠ .waiting)).map PushCall.op) ++
      (if c.phase ≠ .waiting then [c.op] else []) ++
        ((post.filter fun c => decide (c.phase ≠ .waiting)).map PushCall.op) := by
  rw [coming, hc, List.filter_append, List.map_append, List.append_assoc]
  congr 1
  rw [List.filter_cons]
  split_ifs <;> simp_all

/-- A call that changes its phase, or is over, and pushes nothing. -/
theorem Sound.recall {pre post new : List PushCall} {c : PushCall}
    (hc : m.calls = pre ++ c :: post)
    (hcoming : ({ m with calls := pre ++ new ++ post } : Streams).coming.Sublist m.coming)
    (hnew : ∀ d ∈ new, d.op = c.op ∧ d.device = c.device ∧
      (d.phase ≠ .waiting → c.phase ≠ .waiting))
    (hfree : ({ m with calls := pre ++ new ++ post } : Streams).gpuFree = true →
      m.gpuFree = true ∨ m.all_empty = true) :
    Sound { m with calls := pre ++ new ++ post } := by
  have hmem : ∀ d ∈ pre ++ new ++ post, d ∈ m.calls ∨ d ∈ new := by
    intro d hd
    rw [hc]
    rcases List.mem_append.mp hd with hd | hd
    · rcases List.mem_append.mp hd with hd | hd
      · exact Or.inl (List.mem_append_left _ hd)
      · exact Or.inr hd
    · exact Or.inl (List.mem_append_right _ (List.mem_cons_of_mem _ hd))
  have hcall : c ∈ m.calls := by
    rw [hc]
    exact List.mem_append_right _ List.mem_cons_self
  have hall : m.all_empty = true → ∀ s, m.Live s → m.empty s = true := by
    intro hempty s hs
    rw [all_empty, Bool.and_eq_true, concurrent_streams_empty, List.all_eq_true] at hempty
    rcases hs with rfl | hs
    · exact hempty.2
    · exact hempty.1 s hs
  have hgrids : ({ m with calls := pre ++ new ++ post } : Streams).grids.Sublist m.grids :=
    ((hcoming.filterMap _).append_right _).append_left _
  refine ⟨h.runs, h.booked.same rfl rfl, h.homes, ?_, ?_, ?_, ?_⟩
  · exact h.registered.keep rfl rfl rfl h.registered.last fun _ _ => rfl
  · refine ⟨h.gridded.numbered, h.gridded.entries, h.gridded.noted, h.gridded.apart,
      h.gridded.roots, ?_, ?_, ?_, ?_⟩
    · exact h.gridded.once.sublist hgrids
    · exact fun uid huid => h.gridded.below uid (hgrids.subset huid)
    · intro hnow s hs uid huid
      rcases hfree hnow with hbefore | hempty
      · exact h.gridded.parentless hbefore s hs uid huid
      · have hnil := List.isEmpty_iff.mp (hall hempty s hs)
        rw [gridsIn, hnil] at huid
        cases huid
    · intro d hd hphase hhost uid huid
      rcases hmem d hd with hd | hd
      · exact h.gridded.hosted d hd hphase hhost uid huid
      · obtain ⟨hop, hdev, hbefore⟩ := hnew d hd
        rw [hop] at huid
        rw [hdev] at hhost
        exact h.gridded.hosted c hcall (hbefore hphase) hhost uid huid
  · refine ⟨h.prefetching.active, ?_, h.prefetching.fresh⟩
    intro addr cnt s
    refine Nat.le_trans (List.Sublist.countP_le ?_) (h.prefetching.awaited addr cnt s)
    exact (hcoming.filter _).append_left _
  · refine ⟨h.called.made, ?_, ?_, h.called.launches, ?_⟩
    · intro d hd hphase s hs
      rcases hmem d hd with hd | hd
      · exact h.called.live d hd hphase s hs
      · obtain ⟨hop, hdev, hbefore⟩ := hnew d hd
        rw [hop] at hs
        obtain ⟨hin, hhost⟩ := h.called.live c hcall (hbefore hphase) s hs
        exact ⟨hin, fun hd => hhost (hdev ▸ hd)⟩
    · intro d hd hdev
      rcases hmem d hd with hd | hd
      · exact h.called.grids d hd hdev
      · obtain ⟨hop, hsame, -⟩ := hnew d hd
        rw [hop]
        exact h.called.grids c hcall (hsame ▸ hdev)
    · intro hnow s hs
      rcases hfree hnow with hbefore | hempty
      · exact h.called.idle hbefore s hs
      · apply hall hempty s
        obtain ⟨e, he, heq⟩ := List.mem_map.mp (of_decide_eq_true hs)
        rw [← heq]
        exact Or.inr (h.registered.owned e he)

end

/-! ## The push -/

/-- One list of a family grows at its end. -/
theorem flatMap_perm_update {A B : Type} {l : List A} (hl : l.Nodup) {t : A} (ht : t ∈ l)
    {f g : A → List B} {x : List B} (hothers : ∀ s ∈ l, s ≠ t → g s = f s) (hgrown : g t = f t ++ x) :
    (l.flatMap g).Perm (x ++ l.flatMap f) := by
  induction l with
  | nil => cases ht
  | cons a l ih =>
    obtain ⟨hnot, hnodup⟩ := List.nodup_cons.mp hl
    rw [List.flatMap_cons, List.flatMap_cons]
    by_cases hat : a = t
    · subst hat
      have hrest : l.flatMap g = l.flatMap f := by
        apply List.flatMap_congr
        intro s hs
        apply hothers s (List.mem_cons_of_mem _ hs)
        rintro rfl
        exact hnot hs
      rw [hgrown, hrest, List.append_assoc]
      exact List.perm_append_comm_assoc _ _ _
    · have htl : t ∈ l := (List.mem_cons.mp ht).resolve_left (Ne.symm hat)
      rw [hothers a List.mem_cons_self hat]
      exact ((ih hnodup htl fun s hs => hothers s (List.mem_cons_of_mem _ hs)).append_left _).trans
        (List.perm_append_comm_assoc _ _ _)

theorem live_iff (m : Streams) (s : Nat) : m.Live s ↔ s ∈ 0 :: m.m_streams := List.mem_cons.symm

theorem Registered.nodup {m : Streams} (h : Registered m) : (0 :: m.m_streams).Nodup := by
  refine List.nodup_cons.mpr ⟨fun hmem => ?_, h.once⟩
  exact absurd (h.known 0 hmem).1 (lt_irrefl 0)

section

variable {m : Streams} (h : Sound m)
include h

omit h in
theorem stream_pushOperation (op : StreamOperation) (s : Nat) :
    (m.pushOperation op).stream s = if s = m.target op then
      { m.stream s with m_operations := (m.stream s).m_operations ++
          [{ op with m_stream := some s, number := m.pushes }] }
    else m.stream s := by
  simp only [Streams.pushOperation, setStream, note, Function.update_apply]
  split_ifs with hs
  · rw [hs]
  · rfl

/-- A pushed operation does not change what a stream has in hand. -/
theorem inHand_pushOperation (op : StreamOperation) {s : Nat} (hs : m.busy s = true) :
    (m.pushOperation op).head s = m.head s := by
  have hne := h.booked.pending hs
  rw [empty, List.isEmpty_eq_false_iff] at hne
  rw [head, stream_pushOperation]
  split_ifs with ht
  · exact List.head?_append_of_ne_nil _ hne
  · rfl

omit h in
theorem busy_pushOperation (op : StreamOperation) (s : Nat) :
    (m.pushOperation op).busy s = m.busy s := by
  rw [busy, stream_pushOperation]
  split_ifs <;> rfl

theorem count_awaiting_pushOperation (op : StreamOperation) (addr cnt s : Nat) :
    ((m.pushOperation op).awaiting s).countP (StreamOperation.isPrefetch addr cnt) =
      (m.awaiting s).countP (StreamOperation.isPrefetch addr cnt) +
        if s = m.target op ∧ op.isPrefetch addr cnt = true then 1 else 0 := by
  have hcoming : (m.pushOperation op).coming = m.coming := rfl
  have htarget : (m.pushOperation op).target = m.target := rfl
  simp only [awaiting, busy_pushOperation, stream_pushOperation, hcoming, htarget,
    List.countP_append]
  by_cases hs : s = m.target op
  · rw [if_pos hs]
    have hmany : ∀ ops : List StreamOperation,
        (ops ++ [{ op with m_stream := some s, number := m.pushes }]).countP
          (StreamOperation.isPrefetch addr cnt) =
            ops.countP (StreamOperation.isPrefetch addr cnt) +
              if op.isPrefetch addr cnt = true then 1 else 0 := by
      intro ops
      rw [List.countP_append, List.countP_singleton]
      rfl
    by_cases hbusy : m.busy s = true
    · have hne := h.booked.pending hbusy
      rw [empty, List.isEmpty_eq_false_iff] at hne
      rw [if_pos hbusy, if_pos hbusy, List.tail_append_of_ne_nil hne, hmany]
      simp only [hs, true_and]
      omega
    · rw [if_neg hbusy, if_neg hbusy, hmany]
      simp only [hs, true_and]
      omega
  · simp [hs]

theorem Sound.pushOperation {op : StreamOperation} (hlive : m.Live (m.target op))
    (hgrid : ∀ uid, op.grid = some uid → uid ∉ m.grids ∧ uid < m.kernel_info_m_next_uid ∧
      (m.gpuFree = true → (m.kernel uid).m_parent_kernel = none))
    (hhost : m.gpuFree = true → m.deviceStream (m.target op) = false)
    (hasked : ∀ addr cnt, op.isPrefetch addr cnt = true →
      (m.awaiting (m.target op)).countP (StreamOperation.isPrefetch addr cnt) <
        m.prefetch_req_buffer.countP fun q => !q.active && isRequest addr cnt (m.target op) q) :
    Sound (m.pushOperation op) := by
  have hgrids : (m.pushOperation op).grids.Perm (op.grid.toList ++ m.grids) := by
    have hqueues : ((0 :: m.m_streams).flatMap (m.pushOperation op).gridsIn).Perm
        (op.grid.toList ++ (0 :: m.m_streams).flatMap m.gridsIn) := by
      apply flatMap_perm_update h.registered.nodup ((live_iff m _).mp hlive)
      · intro s _ hs
        rw [gridsIn, stream_pushOperation, if_neg hs, gridsIn]
      · rw [gridsIn, stream_pushOperation, if_pos rfl, List.filterMap_append]
        congr 1
    rw [grids, grids, ← List.append_assoc]
    exact hqueues.append_right _
  refine ⟨h.runs, ?_, ?_, ?_, ?_, ?_, ?_⟩
  · have hrun : in_order.run (m.stream (m.target op)).queue [.pushed m.pushes] =
        some (((m.pushOperation op).stream (m.target op)).queue) := by
      rw [stream_pushOperation, if_pos rfl]
      simp [in_order.run, in_order.Queue.next, CUstream.queue]
    exact h.booked.update hrun (by rw [stream_pushOperation, if_pos rfl]; rfl) rfl
  · intro s o ho
    rw [stream_pushOperation] at ho
    split_ifs at ho with hs
    · rcases List.mem_append.mp ho with ho | ho
      · exact h.homes s o ho
      · rw [List.mem_singleton] at ho
        rw [ho]
    · exact h.homes s o ho
  · refine h.registered.keep rfl rfl rfl h.registered.last fun s hs => ?_
    rw [stream_pushOperation, if_neg]
    rintro rfl
    exact hs hlive
  · refine ⟨h.gridded.numbered, ?_, h.gridded.noted, h.gridded.apart, h.gridded.roots, ?_, ?_, ?_,
      h.gridded.hosted⟩
    · intro uid s hs
      obtain ⟨hbusy, hfront⟩ := h.gridded.entries uid s hs
      refine ⟨by rwa [busy_pushOperation], ?_⟩
      rw [frontGrid, inHand_pushOperation h op hbusy]
      exact hfront
    · rw [hgrids.nodup_iff]
      cases hg : op.grid with
      | none => exact h.gridded.once
      | some uid => exact List.nodup_cons.mpr ⟨(hgrid uid hg).1, h.gridded.once⟩
    · intro uid huid
      rcases List.mem_append.mp (hgrids.mem_iff.mp huid) with hnew | hold
      · exact (hgrid uid (Option.mem_toList.mp hnew)).2.1
      · exact h.gridded.below uid hold
    · intro hfree s hs uid huid
      obtain ⟨o, ho, hog⟩ := List.mem_filterMap.mp huid
      rw [stream_pushOperation] at ho
      split_ifs at ho with ht
      · rcases List.mem_append.mp ho with ho | ho
        · exact h.gridded.parentless hfree s hs uid (List.mem_filterMap.mpr ⟨o, ho, hog⟩)
        · rw [List.mem_singleton] at ho
          subst ho
          exact (hgrid uid hog).2.2 hfree
      · exact h.gridded.parentless hfree s hs uid (List.mem_filterMap.mpr ⟨o, ho, hog⟩)
  · refine ⟨?_, ?_, h.prefetching.fresh⟩
    · intro s
      have hhand : (m.pushOperation op).prefetching s = m.prefetching s := by
        simp only [Streams.prefetching, busy_pushOperation]
        split_ifs with hbusy
        · rw [inHand_pushOperation h op hbusy]
        · rfl
      rw [hhand]
      exact h.prefetching.active s
    · intro addr cnt s
      have hold := h.prefetching.awaited addr cnt s
      rw [count_awaiting_pushOperation h]
      split_ifs with hask
      · obtain ⟨rfl, hask⟩ := hask
        exact hasked addr cnt hask
      · exact hold
  · refine ⟨h.called.made, h.called.live, h.called.grids, h.called.launches, ?_⟩
    intro hfree s hs
    rw [empty, stream_pushOperation, if_neg]
    · exact h.called.idle hfree s hs
    · rintro rfl
      have hnot := hhost hfree
      rw [show m.deviceStream (m.target op) = true from hs] at hnot
      cases hnot

omit h in
theorem gpuFree_iff : m.gpuFree = true ↔ ∀ c ∈ m.calls, c.device = false := by
  rw [gpuFree, List.all_eq_true]
  simp

/-- A call that pushes, or is turned away when a maximum count was hit. -/
theorem Sound.finishPush {i : Nat} {c : PushCall} (hi : m.calls[i]? = some c)
    (hready : c.phase = .ready) (max_hit : Bool) : Sound (m.finishPush i c max_hit) := by
  obtain ⟨pre, post, hc, hlen⟩ := calls_split hi
  have hphase : c.phase ≠ .waiting := by
    rw [hready]
    exact fun heq => nomatch heq
  have hcall : c ∈ m.calls := by
    rw [hc]
    exact List.mem_append_right _ List.mem_cons_self
  let new : List PushCall := if m.waitsForAll c.op then [{ c with phase := .waiting }] else []
  let m1 : Streams := { m with calls := pre ++ new ++ post }
  have hcalls : (if m.waitsForAll c.op then m.calls.set i { c with phase := .waiting }
      else m.calls.eraseIdx i) = pre ++ new ++ post := by
    subst hlen
    simp only [new, hc]
    split_ifs
    · simp
    · simp [List.eraseIdx_append_of_length_le]
  -- the call is not among those to come any more
  have hbefore := coming_split hc
  rw [if_pos hphase] at hbefore
  have hafter : m1.coming = ((pre.filter fun c => decide (c.phase ≠ .waiting)).map PushCall.op) ++
      ((post.filter fun c => decide (c.phase ≠ .waiting)).map PushCall.op) := by
    have hnone : new.filter (fun c => decide (c.phase ≠ .waiting)) = [] := by
      simp only [new]
      split_ifs <;> simp
    simp only [coming, m1, List.filter_append, List.map_append, hnone]
    simp
  have hperm : m.coming.Perm (c.op :: m1.coming) := by
    rw [hbefore, hafter, List.append_assoc]
    exact List.perm_middle
  have hhost : m1.gpuFree = true → c.device = false := by
    intro hfree
    rw [gpuFree_iff] at hfree
    by_contra hdev
    rw [Bool.not_eq_false] at hdev
    have hwaits : m.waitsForAll c.op = true := by
      rw [waitsForAll, h.called.grids c hcall hdev, Bool.or_true]
    have hin : ({ c with phase := .waiting } : PushCall) ∈ m1.calls := by
      simp only [m1, new, if_pos hwaits]
      exact List.mem_append_left _ (List.mem_append_right _ (List.mem_singleton_self _))
    have hno := hfree _ hin
    rw [show c.device = false from hno] at hdev
    cases hdev
  have h1 : Sound m1 := by
    apply h.recall hc
    · change m1.coming.Sublist m.coming
      rw [hbefore, hafter]
      exact (List.sublist_append_left _ _).append_right _
    · intro d hd
      simp only [new] at hd
      split_ifs at hd
      · rw [List.mem_singleton] at hd
        subst hd
        exact ⟨rfl, rfl, fun hw => absurd rfl hw⟩
      · cases hd
    · intro hfree
      left
      have hc0 := hhost hfree
      rw [gpuFree_iff] at hfree ⊢
      intro d hd
      rw [hc] at hd
      rcases List.mem_append.mp hd with hd | hd
      · exact hfree d (List.mem_append_left _ (List.mem_append_left _ hd))
      · rcases List.mem_cons.mp hd with rfl | hd
        · exact hc0
        · exact hfree d (List.mem_append_right _ hd)
  cases max_hit with
  | true =>
    have heq : m.finishPush i c true = m1 := by
      simp only [Streams.finishPush, if_true, hcalls]
      rfl
    rw [heq]
    exact h1
  | false =>
    have heq : m.finishPush i c false = m1.pushOperation c.op := by
      simp only [Streams.finishPush, hcalls]
      rfl
    rw [heq]
    have hgrids : m.grids.Perm (c.op.grid.toList ++ m1.grids) := by
      have hahead : m.gridsAhead.Perm (c.op.grid.toList ++ m1.gridsAhead) := by
        rw [gridsAhead, gridsAhead, ← List.append_assoc]
        refine List.Perm.append_right _ ((hperm.filterMap _).trans (List.Perm.of_eq ?_))
        rw [List.filterMap_cons]
        cases c.op.grid <;> rfl
      exact (hahead.append_left _).trans (List.perm_append_comm_assoc _ _ _)
    have hstream : ∀ s, c.op.m_stream = some s → m.target c.op = s ∨ m.target c.op = 0 := by
      intro s hs
      rw [target, hs]
      split_ifs <;> simp
    apply h1.pushOperation
    · change m.Live (m.target c.op)
      cases hs : c.op.m_stream with
      | none =>
        left
        simp [target, hs]
      | some s =>
        rcases hstream s hs with heq | heq
        · rw [heq]
          exact Or.inr (h.called.live c hcall hphase s hs).1
        · exact Or.inl heq
    · intro uid huid
      rw [huid] at hgrids
      have hnodup := hgrids.nodup_iff.mp h.gridded.once
      refine ⟨(List.nodup_cons.mp hnodup).1, ?_, ?_⟩
      · exact h.gridded.below uid (hgrids.mem_iff.mpr List.mem_cons_self)
      · exact fun hfree => h.gridded.hosted c hcall hphase (hhost hfree) uid huid
    · intro hfree
      have hdefault := h.registered.zero_not_device
      cases hs : c.op.m_stream with
      | none =>
        have hzero : m1.target c.op = 0 := by simp [target, hs, m1]
        rw [hzero]
        exact hdefault
      | some s =>
        rcases hstream s hs with heq | heq
        · rw [show m1.target c.op = s from heq]
          exact (h.called.live c hcall hphase s hs).2 (hhost hfree)
        · rw [show m1.target c.op = 0 from heq]
          exact hdefault
    · intro addr cnt hask
      have hold := h.prefetching.awaited addr cnt (m.target c.op)
      refine Nat.lt_of_lt_of_le ?_ hold
      -- among the operations before is the one that is pushed
      have hmore : (m.awaiting (m.target c.op)).Perm (c.op :: m1.awaiting (m.target c.op)) := by
        have hfilter := hperm.filter fun op => decide (m.target op = m.target c.op)
        rw [List.filter_cons_of_pos (by simp)] at hfilter
        exact (hfilter.append_left _).trans List.perm_middle
      rw [hmore.countP_eq, List.countP_cons_of_pos hask]
      exact Nat.lt_succ_self _

end

/-! ## Streams that come and go -/

section

variable {m : Streams} (h : Sound m)
include h

theorem Sound.new_unused : ¬ m.Live m.sm_next_stream_uid := by
  intro hlive
  have hpos := h.registered.positive
  rcases hlive with hzero | hmem
  · omega
  · exact absurd (h.registered.known _ hmem).2 (lt_irrefl _)

theorem stream_add_stream : m.add_stream.stream = m.stream := by
  have hnew := h.registered.unused _ h.new_unused
  simp only [Streams.add_stream]
  rw [← hnew, Function.update_eq_self]

theorem Sound.add_stream : Sound m.add_stream := by
  have hsame := stream_add_stream h
  have hlive : ∀ s, m.Live s → m.add_stream.Live s := by
    intro s hs
    rcases hs with hs | hs
    · exact Or.inl hs
    · exact Or.inr (List.mem_append_left _ hs)
  have hnil : m.gridsIn m.sm_next_stream_uid = [] := by
    rw [gridsIn, h.registered.unused _ h.new_unused]
    rfl
  have hgridsIn : m.add_stream.gridsIn = m.gridsIn := by
    funext s
    rw [gridsIn, hsame, gridsIn]
  have hgrids : m.add_stream.grids = m.grids := by
    have hqueues : (0 :: m.add_stream.m_streams).flatMap m.add_stream.gridsIn =
        (0 :: m.m_streams).flatMap m.gridsIn := by
      rw [hgridsIn]
      change (0 :: (m.m_streams ++ [m.sm_next_stream_uid])).flatMap m.gridsIn = _
      rw [← List.cons_append, List.flatMap_append, List.flatMap_singleton, hnil, List.append_nil]
    exact congrArg (· ++ m.gridsAhead) hqueues
  have hempty : m.add_stream.empty = m.empty := by
    funext s
    rw [empty, hsame, empty]
  refine ⟨h.runs, h.booked.same hsame rfl, ?_, ?_, ?_, ?_, ?_⟩
  · rw [hsame]
    exact h.homes
  · refine ⟨Nat.succ_pos _, ?_, ?_, ?_, ?_, h.registered.ctas, ?_⟩
    · refine List.nodup_append.mpr ⟨h.registered.once, List.nodup_singleton _, ?_⟩
      intro a ha b hb heq
      rw [List.mem_singleton.mp hb] at heq
      exact h.new_unused (Or.inr (heq ▸ ha))
    · intro s hs
      rcases List.mem_append.mp hs with hs | hs
      · exact ⟨(h.registered.known s hs).1, Nat.lt_succ_of_lt (h.registered.known s hs).2⟩
      · rw [List.mem_singleton.mp hs]
        exact ⟨h.registered.positive, Nat.lt_succ_self _⟩
    · intro s hs
      rw [hsame]
      exact h.registered.unused s fun hold => hs (hlive s hold)
    · exact fun l hl => List.mem_append_left _ (h.registered.last l hl)
    · exact fun c hc => List.mem_append_left _ (h.registered.owned c hc)
  · refine ⟨h.gridded.numbered, ?_, h.gridded.noted, h.gridded.apart, h.gridded.roots, ?_, ?_, ?_,
      h.gridded.hosted⟩
    · intro uid s hs
      rw [busy, frontGrid, head, hsame]
      exact h.gridded.entries uid s hs
    · rw [hgrids]
      exact h.gridded.once
    · rw [hgrids]
      exact h.gridded.below
    · intro hfree s hs uid huid
      rw [hgridsIn] at huid
      by_cases hold : m.Live s
      · exact h.gridded.parentless hfree s hold uid huid
      · rw [gridsIn, h.registered.unused s hold] at huid
        cases huid
  · have hprefetching : m.add_stream.prefetching = m.prefetching := by
      funext s
      exact prefetching_of_stream (congrFun hsame s)
    have hawaiting : m.add_stream.awaiting = m.awaiting := by
      funext s
      rw [awaiting, busy, hsame]
      rfl
    refine ⟨?_, ?_, h.prefetching.fresh⟩
    · rw [hprefetching]
      exact h.prefetching.active
    · rw [hawaiting]
      exact h.prefetching.awaited
  · refine ⟨h.called.made, ?_, h.called.grids, h.called.launches, ?_⟩
    · intro c hc hphase s hs
      obtain ⟨hin, hhost⟩ := h.called.live c hc hphase s hs
      exact ⟨List.mem_append_left _ hin, hhost⟩
    · rw [hempty]
      exact h.called.idle

theorem Sound.live_of_busy {s : Nat} (hs : m.busy s = true) : m.Live s := by
  by_contra hnot
  rw [busy, h.registered.unused s hnot] at hs
  cases hs

/-- A launched grid is in front of its stream. -/
theorem Sound.launched_front {uid : Nat} (huid : uid ∈ m.launched) :
    ∃ s, m.m_grid_id_to_stream uid = some s ∧ m.Live s ∧ m.busy s = true ∧
      m.frontGrid s = some uid := by
  obtain ⟨s, hs⟩ := Option.isSome_iff_exists.mp (h.gridded.noted uid huid)
  obtain ⟨hbusy, hfront⟩ := h.gridded.entries uid s hs
  exact ⟨s, hs, h.live_of_busy hbusy, hbusy, hfront⟩

omit h in
theorem mem_gridsIn_of_front {uid s : Nat} (hs : m.frontGrid s = some uid) : uid ∈ m.gridsIn s := by
  obtain ⟨op, hop, hgrid⟩ := Option.bind_eq_some_iff.mp hs
  exact List.mem_filterMap.mpr ⟨op, List.mem_of_head? hop, hgrid⟩

omit h in
theorem mem_grids_of_mem_gridsIn {uid s : Nat} (hs : m.Live s) (huid : uid ∈ m.gridsIn s) :
    uid ∈ m.grids :=
  List.mem_append_left _ (List.mem_flatMap.mpr ⟨s, (live_iff m s).mp hs, huid⟩)

omit h in
theorem mem_grids_of_call {c : PushCall} (hc : c ∈ m.calls) (hphase : c.phase ≠ .waiting)
    {uid : Nat} (huid : c.op.grid = some uid) : uid ∈ m.grids := by
  refine List.mem_append_right _ (List.mem_append_left _ (List.mem_filterMap.mpr ⟨c.op, ?_, huid⟩))
  exact List.mem_map_of_mem (List.mem_filter.mpr ⟨hc, decide_eq_true hphase⟩)

theorem Sound.launched_lt {uid : Nat} (huid : uid ∈ m.launched) : uid < m.kernel_info_m_next_uid := by
  obtain ⟨s, -, hlive, -, hfront⟩ := h.launched_front huid
  exact h.gridded.below uid (mem_grids_of_mem_gridsIn hlive (mem_gridsIn_of_front hfront))

omit h in
theorem mem_launched_of_runs {uid : Nat} (huid : m.runs uid = true) : uid ∈ m.launched := by
  rw [launched, List.mem_append, List.mem_append]
  rcases of_decide_eq_true huid with hrunning | hfunctional
  · exact Or.inl (Or.inr (List.mem_filterMap.mpr ⟨some uid, hrunning, rfl⟩))
  · exact Or.inr (Option.mem_toList.mpr hfunctional)

theorem Sound.create_stream_cta {uid : Nat} (huid : m.runs uid = true) :
    Sound { m.add_stream with m_cta_streams := m.m_cta_streams ++ [(uid, m.sm_next_stream_uid)] } := by
  have hadd := h.add_stream
  have hold : ∀ c ∈ m.m_cta_streams, c.2 ≠ m.sm_next_stream_uid := by
    intro c hc heq
    exact h.new_unused (Or.inr (heq ▸ h.registered.owned c hc))
  have hdevice : ∀ s, decide (s ∈ (m.m_cta_streams ++ [(uid, m.sm_next_stream_uid)]).map Prod.snd) =
      (m.deviceStream s || decide (s = m.sm_next_stream_uid)) := by
    intro s
    simp [deviceStream, ← Bool.decide_or]
  refine ⟨hadd.runs, hadd.booked.same rfl rfl, hadd.homes, ?_, ?_, ?_, ?_⟩
  · refine ⟨hadd.registered.positive, hadd.registered.once, hadd.registered.known,
      hadd.registered.unused, hadd.registered.last, ?_, ?_⟩
    · rw [List.map_append]
      refine List.nodup_append.mpr ⟨h.registered.ctas, List.nodup_singleton _, ?_⟩
      intro a ha b hb heq
      obtain ⟨c, hc, rfl⟩ := List.mem_map.mp ha
      exact hold c hc (heq.trans (List.mem_singleton.mp hb))
    · intro c hc
      rcases List.mem_append.mp hc with hc | hc
      · exact hadd.registered.owned c hc
      · rw [List.mem_singleton.mp hc]
        exact List.mem_append_right _ (List.mem_singleton_self _)
  · exact ⟨hadd.gridded.numbered, hadd.gridded.entries, hadd.gridded.noted, hadd.gridded.apart,
      hadd.gridded.roots, hadd.gridded.once, hadd.gridded.below, hadd.gridded.parentless,
      hadd.gridded.hosted⟩
  · exact ⟨hadd.prefetching.active, hadd.prefetching.awaited, hadd.prefetching.fresh⟩
  · refine ⟨?_, ?_, hadd.called.grids, ?_, ?_⟩
    · intro c hc
      rcases List.mem_append.mp hc with hc | hc
      · exact h.called.made c hc
      · rw [List.mem_singleton.mp hc]
        exact h.launched_lt (mem_launched_of_runs huid)
    · intro c hc hphase s hs
      obtain ⟨hin, hhost⟩ := h.called.live c hc hphase s hs
      refine ⟨List.mem_append_left _ hin, fun hdev => ?_⟩
      refine (hdevice s).trans ?_
      rw [hhost hdev, Bool.false_or, decide_eq_false_iff_not]
      rintro rfl
      exact h.new_unused (Or.inr hin)
    · intro l hl
      obtain ⟨p, hp, hchild⟩ := h.called.launches l hl
      exact ⟨p, List.mem_append_left _ hp, hchild⟩
    · intro hfree s hs
      rcases Bool.or_eq_true_iff.mp ((hdevice s).symm.trans hs) with hs | hs
      · exact hadd.called.idle hfree s hs
      · rw [of_decide_eq_true hs]
        change m.add_stream.empty m.sm_next_stream_uid = true
        rw [empty, stream_add_stream h, h.registered.unused _ h.new_unused]
        rfl

theorem Sound.destroy_stream {s : Nat} (hmem : s ∈ m.m_streams) (hempty : m.empty s = true)
    (hdevice : m.deviceStream s = false)
    (hcalls : ∀ c ∈ m.calls, c.phase ≠ .waiting → c.op.m_stream ≠ some s) :
    Sound (m.destroy_stream s) ∧ (m.destroy_stream s).stream = m.stream := by
  have hidle := h.booked.idle hempty
  have hsame : (m.destroy_stream s).stream = m.stream := by
    simp only [Streams.destroy_stream]
    rw [← hidle, Function.update_eq_self]
  have hlive : ∀ t, (m.destroy_stream s).Live t → m.Live t := by
    intro t ht
    rcases ht with ht | ht
    · exact Or.inl ht
    · exact Or.inr (List.mem_of_mem_erase ht)
  have hgridsIn : (m.destroy_stream s).gridsIn = m.gridsIn := by
    funext t
    rw [gridsIn, hsame, gridsIn]
  have hgrids : (m.destroy_stream s).grids.Sublist m.grids := by
    rw [grids, grids, hgridsIn]
    refine List.Sublist.append_right ?_ _
    exact ((List.erase_sublist).cons_cons 0).flatMap _
  refine ⟨⟨?_, h.booked.same hsame rfl, ?_, ?_, ?_, ?_, ?_⟩, hsame⟩
  · simp [Streams.destroy_stream, h.runs, hmem, hempty]
  · rw [hsame]
    exact h.homes
  · refine ⟨h.registered.positive, h.registered.once.erase s, ?_, ?_, ?_, h.registered.ctas, ?_⟩
    · exact fun t ht => h.registered.known t (List.mem_of_mem_erase ht)
    · intro t ht
      rw [hsame]
      by_cases hts : t = s
      · rw [hts]
        exact hidle
      · apply h.registered.unused t
        rintro (hz | hin)
        · exact ht (Or.inl hz)
        · exact ht (Or.inr ((List.mem_erase_of_ne hts).mpr hin))
    · exact fun l hl => List.mem_of_head? hl
    · intro c hc
      refine (List.mem_erase_of_ne ?_).mpr (h.registered.owned c hc)
      rintro rfl
      exact of_decide_eq_false hdevice (List.mem_map_of_mem hc)
  · refine ⟨h.gridded.numbered, ?_, h.gridded.noted, h.gridded.apart, h.gridded.roots, ?_, ?_, ?_,
      h.gridded.hosted⟩
    · intro uid t ht
      rw [busy, frontGrid, head, hsame]
      exact h.gridded.entries uid t ht
    · exact h.gridded.once.sublist hgrids
    · exact fun uid huid => h.gridded.below uid (hgrids.subset huid)
    · intro hfree t ht uid huid
      rw [hgridsIn] at huid
      exact h.gridded.parentless hfree t (hlive t ht) uid huid
  · have hprefetching : (m.destroy_stream s).prefetching = m.prefetching := by
      funext t
      exact prefetching_of_stream (congrFun hsame t)
    have hawaiting : (m.destroy_stream s).awaiting = m.awaiting := by
      funext t
      rw [awaiting, busy, hsame]
      rfl
    refine ⟨?_, ?_, h.prefetching.fresh⟩
    · rw [hprefetching]
      exact h.prefetching.active
    · rw [hawaiting]
      exact h.prefetching.awaited
  · refine ⟨h.called.made, ?_, h.called.grids, h.called.launches, ?_⟩
    · intro c hc hphase t ht
      obtain ⟨hin, hhost⟩ := h.called.live c hc hphase t ht
      refine ⟨(List.mem_erase_of_ne ?_).mpr hin, hhost⟩
      rintro rfl
      exact hcalls c hc hphase ht
    · intro hfree t ht
      rw [empty, hsame]
      exact h.called.idle hfree t ht

end

/-! ## Operations that are over -/

section

variable {m m' : Streams} (h : Sound m)
include h

/-- The operation in front of a stream leaves it. -/
theorem Sound.pop {s : Nat} (hs : m.Live s) {es : List (in_order.Event Nat)}
    (hrun : in_order.run (m.stream s).queue es =
      some (CUstream.queue { m_operations := (m.stream s).m_operations.tail }))
    (hstream : m'.stream =
      Function.update m.stream s { m_operations := (m.stream s).m_operations.tail })
    (hevents : m'.events = m.events ++ es.map fun e => (s, e))
    (hframe : m' = { m with
      stream := m'.stream, events := m'.events, m_grid_id_to_stream := m'.m_grid_id_to_stream,
      m_finished_kernel := m'.m_finished_kernel,
      m_functional_sim_kernel := m'.m_functional_sim_kernel,
      num_updates := m'.num_updates, prefetch_req_buffer := m'.prefetch_req_buffer })
    (hentries : ∀ uid t, m'.m_grid_id_to_stream uid = some t →
      t ≠ s ∧ m.m_grid_id_to_stream uid = some t)
    (hlaunched : m'.launched.Sublist m.launched)
    (hnoted : ∀ uid ∈ m'.launched, (m'.m_grid_id_to_stream uid).isSome)
    (hactive : ∀ t, (m'.prefetch_req_buffer.filter fun q => q.active && decide (q.m_stream = t)).map
      (fun q => (q.start_addr, q.size)) = if t = s then [] else m.prefetching t)
    (hbuffer : ∀ addr cnt t, m.prefetch_req_buffer.countP
      (fun q => !q.active && isRequest addr cnt t q) ≤
        m'.prefetch_req_buffer.countP fun q => !q.active && isRequest addr cnt t q)
    (hfresh : ∀ q ∈ m'.prefetch_req_buffer, q ∈ m.prefetch_req_buffer) : Sound m' := by
  have hat : m'.stream s = { m_operations := (m.stream s).m_operations.tail } := by
    rw [hstream, Function.update_self]
  have hother : ∀ t, t ≠ s → m'.stream t = m.stream t := by
    intro t ht
    rw [hstream, Function.update_of_ne ht]
  have hops : ∀ t, (m'.stream t).m_operations.Sublist (m.stream t).m_operations := by
    intro t
    by_cases ht : t = s
    · rw [ht, hat]
      exact List.tail_sublist _
    · rw [hother t ht]
  have hcoming : m'.coming = m.coming := by rw [hframe]; rfl
  have htarget : m'.target = m.target := by rw [hframe]; rfl
  have hlive : ∀ t, m'.Live t ↔ m.Live t := by
    intro t
    rw [hframe]
    rfl
  have hgridsIn : ∀ t, (m'.gridsIn t).Sublist (m.gridsIn t) := fun t => (hops t).filterMap _
  have hgrids : m'.grids.Sublist m.grids := by
    have hahead : m'.gridsAhead = m.gridsAhead := by rw [hframe]; rfl
    have hstreams : m'.m_streams = m.m_streams := by rw [hframe]
    rw [grids, grids, hahead, hstreams]
    exact (List.Sublist.flatMap_right _ fun t _ => hgridsIn t).append_right _
  have hkernel : m'.kernel = m.kernel := by rw [hframe]
  have hfree : m'.gpuFree = m.gpuFree := by rw [hframe]; rfl
  have hcalls : m'.calls = m.calls := by rw [hframe]
  refine ⟨?_, h.booked.update hrun (by rw [hstream]) hevents, ?_, ?_, ?_, ?_, ?_⟩
  · rw [hframe]
    exact h.runs
  · exact fun t op hop => h.homes t op ((hops t).subset hop)
  · apply h.registered.keep
    · rw [hframe]
    · rw [hframe]
    · rw [hframe]
    · rw [hframe]
      exact h.registered.last
    · intro t ht
      apply hother
      rintro rfl
      exact ht hs
  · refine ⟨?_, ?_, hnoted, h.gridded.apart.sublist hlaunched, ?_, h.gridded.once.sublist hgrids,
      ?_, ?_, ?_⟩
    · rw [hframe]
      exact h.gridded.numbered
    · intro uid t ht
      obtain ⟨hne, hold⟩ := hentries uid t ht
      rw [busy, frontGrid, head, hother t hne]
      exact h.gridded.entries uid t hold
    · intro uid huid
      rw [hkernel]
      exact h.gridded.roots uid (hlaunched.subset huid)
    · intro uid huid
      have hnext : m'.kernel_info_m_next_uid = m.kernel_info_m_next_uid := by rw [hframe]
      rw [hnext]
      exact h.gridded.below uid (hgrids.subset huid)
    · intro hnow t ht uid huid
      rw [hkernel]
      rw [hfree] at hnow
      exact h.gridded.parentless hnow t ((hlive t).mp ht) uid ((hgridsIn t).subset huid)
    · rw [hcalls, hkernel]
      exact h.gridded.hosted
  · refine ⟨?_, ?_, ?_⟩
    · intro t
      rw [hactive t]
      split_ifs with ht
      · rw [Streams.prefetching, ht, busy, hat]
        rfl
      · exact (prefetching_of_stream (hother t ht)).symm
    · intro addr cnt t
      refine Nat.le_trans ?_ (Nat.le_trans (h.prefetching.awaited addr cnt t) (hbuffer addr cnt t))
      apply List.Sublist.countP_le
      rw [awaiting, awaiting, hcoming, htarget]
      refine List.Sublist.append_right ?_ _
      by_cases ht : t = s
      · subst ht
        rw [busy, hat, if_neg Bool.false_ne_true]
        split_ifs
        · exact List.Sublist.refl _
        · exact List.tail_sublist _
      · rw [busy, hother t ht]
        exact List.Sublist.refl _
    · exact fun q hq => h.prefetching.fresh q (hfresh q hq)
  · refine ⟨?_, ?_, ?_, ?_, ?_⟩
    · rw [hframe]
      exact h.called.made
    · rw [hframe]
      exact h.called.live
    · rw [hframe]
      exact h.called.grids
    · rw [hframe]
      exact h.called.launches
    · intro hnow t ht
      rw [hfree] at hnow
      have hdevice : m.deviceStream t = true := by
        rw [hframe] at ht
        exact ht
      have hold := List.isEmpty_iff.mp (h.called.idle hnow t hdevice)
      have hsub := hops t
      rw [hold] at hsub
      rw [empty, List.sublist_nil.mp hsub]
      rfl

end

end Streams

end gpgpu_sim_uvm.stream_manager
