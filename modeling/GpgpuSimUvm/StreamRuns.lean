-- The manager over the streams: what the trial of an operation makes of the invariant, and so
-- every run. A prefetch that launch blocking moves to another stream is the exception.
import GpgpuSimUvm.StreamEnds

namespace gpgpu_sim_uvm.stream_manager

namespace Streams

/-! ## The operations -/

section

variable {m : Streams} (h : Sound m) {s : Nat} {op : StreamOperation} (hs : m.Live s)
  (hidle : m.busy s = false) (hop : m.head s = some op)
include h hs hidle hop

omit h hs hidle in
theorem operations_eq : (m.stream s).m_operations = op :: (m.stream s).m_operations.tail := by
  obtain ⟨rest, hrest⟩ := List.head?_eq_some_iff.mp hop
  rw [hrest]
  rfl

/-- A grid that is not started has no entry. -/
theorem Sound.no_entry {uid : Nat} (hgrid : op.grid = some uid) :
    m.m_grid_id_to_stream uid = none := by
  by_contra hsome
  obtain ⟨t, ht⟩ := Option.ne_none_iff_exists'.mp hsome
  obtain ⟨hbusy, hfront⟩ := h.gridded.entries uid t ht
  have hne : t ≠ s := by
    rintro rfl
    rw [hidle] at hbusy
    cases hbusy
  have hqueues := (List.nodup_append.mp h.gridded.once).1
  have hapart := (List.nodup_flatMap.mp hqueues).2
  have hsymm : Std.Symm (Function.onFun List.Disjoint m.gridsIn) := ⟨fun _ _ hd => hd.symm⟩
  have hdisjoint := hapart.forall
    ((live_iff m t).mp (h.live_of_busy hbusy)) ((live_iff m s).mp hs) hne
  refine hdisjoint (mem_gridsIn_of_front hfront) (mem_gridsIn_of_front ?_)
  rw [frontGrid, hop]
  exact hgrid

/-- An operation that takes effect and stays in front of its stream. -/
theorem Sound.hold {m' : Streams} (hfree : m.gpuFree = true)
    (hstream : m'.stream = Function.update m.stream s { m.stream s with m_pending := true })
    (hevents : m'.events = m.events ++
      [in_order.Event.started op.number, .performed op.number].map fun e => (s, e))
    (hframe : m' = { m with
      stream := m'.stream, events := m'.events, m_grid_id_to_stream := m'.m_grid_id_to_stream,
      m_running_kernels := m'.m_running_kernels,
      m_functional_sim_kernel := m'.m_functional_sim_kernel,
      prefetch_req_buffer := m'.prefetch_req_buffer })
    (hentries : ∀ uid, m'.m_grid_id_to_stream uid =
      if op.grid = some uid then some s else m.m_grid_id_to_stream uid)
    (hlaunched : m'.launched.Perm (op.grid.toList ++ m.launched))
    (hactive : ∀ t, (m'.prefetch_req_buffer.filter fun q => q.active && decide (q.m_stream = t)).map
      (fun q => (q.start_addr, q.size)) = if t = s then op.range.toList else m.prefetching t)
    (hbuffer : ∀ addr cnt t, m.prefetch_req_buffer.countP
      (fun q => !q.active && isRequest addr cnt t q) ≤
        (m'.prefetch_req_buffer.countP fun q => !q.active && isRequest addr cnt t q) +
          if t = s ∧ op.isPrefetch addr cnt = true then 1 else 0)
    (hfresh : ∀ q ∈ m'.prefetch_req_buffer, q.active = false → q ∈ m.prefetch_req_buffer) :
    Sound m' := by
  have hat : m'.stream s = { m.stream s with m_pending := true } := by
    rw [hstream, Function.update_self]
  have hother : ∀ t, t ≠ s → m'.stream t = m.stream t := by
    intro t ht
    rw [hstream, Function.update_of_ne ht]
  have hops : ∀ t, (m'.stream t).m_operations = (m.stream t).m_operations := by
    intro t
    by_cases ht : t = s
    · rw [ht, hat]
    · rw [hother t ht]
  have hcalls : m'.calls = m.calls := by rw [hframe]
  have hcoming : m'.coming = m.coming := by rw [hframe]; rfl
  have htarget : m'.target = m.target := by rw [hframe]; rfl
  have hlive : ∀ t, m'.Live t ↔ m.Live t := by
    intro t
    rw [hframe]
    rfl
  have hgridsIn : m'.gridsIn = m.gridsIn := by
    funext t
    rw [gridsIn, hops, gridsIn]
  have hgrids : m'.grids = m.grids := by
    have hahead : m'.gridsAhead = m.gridsAhead := by rw [hframe]; rfl
    have hstreams : m'.m_streams = m.m_streams := by rw [hframe]
    rw [grids, grids, hahead, hstreams, hgridsIn]
  have hkernel : m'.kernel = m.kernel := by rw [hframe]
  have hnext : m'.kernel_info_m_next_uid = m.kernel_info_m_next_uid := by rw [hframe]
  have hgpu : m'.gpuFree = m.gpuFree := by rw [hframe]; rfl
  have hfront : ∀ t, m'.frontGrid t = m.frontGrid t := by
    intro t
    rw [frontGrid, head, hops, frontGrid, head]
  have hsame : m.frontGrid s = op.grid := by
    rw [frontGrid, hop]
    rfl
  refine ⟨?_, ?_, ?_, ?_, ?_, ?_, ?_⟩
  · rw [hframe]
    exact h.runs
  · have hrun : in_order.run (m.stream s).queue [.started op.number, .performed op.number] =
        some (CUstream.queue { m.stream s with m_pending := true }) := by
      have hcons := operations_eq hop
      rw [busy] at hidle
      rw [CUstream.queue, CUstream.queue, hcons, hidle]
      simp [in_order.run, in_order.Queue.next]
    exact h.booked.update hrun hstream hevents
  · intro t o ho
    rw [hops] at ho
    exact h.homes t o ho
  · apply h.registered.keep
    · rw [hframe]
    · rw [hframe]
    · rw [hframe]
    · rw [hframe]
      exact h.registered.last
    · intro t ht
      apply hother
      rintro rfl
      exact ht hs
  · refine ⟨?_, ?_, ?_, ?_, ?_, ?_, ?_, ?_, ?_⟩
    · rw [hnext]
      exact h.gridded.numbered
    · intro uid t ht
      rw [hentries] at ht
      rw [hfront]
      split_ifs at ht with hg
      · cases ht
        refine ⟨?_, hsame.trans hg⟩
        rw [busy, hat]
      · obtain ⟨hbusy, hgrid⟩ := h.gridded.entries uid t ht
        refine ⟨?_, hgrid⟩
        rw [busy, hother t]
        · exact hbusy
        · rintro rfl
          rw [hidle] at hbusy
          cases hbusy
    · intro uid huid
      rw [hentries]
      split_ifs with hg
      · rfl
      · rcases List.mem_append.mp (hlaunched.mem_iff.mp huid) with huid | huid
        · exact absurd (Option.mem_toList.mp huid) hg
        · exact h.gridded.noted uid huid
    · rw [hlaunched.nodup_iff]
      cases hg : op.grid with
      | none => exact h.gridded.apart
      | some uid =>
        refine List.nodup_cons.mpr ⟨fun hin => ?_, h.gridded.apart⟩
        have hnoted := h.gridded.noted uid hin
        rw [h.no_entry hs hidle hop hg] at hnoted
        cases hnoted
    · intro uid huid
      rw [hkernel]
      rcases List.mem_append.mp (hlaunched.mem_iff.mp huid) with huid | huid
      · refine h.gridded.parentless hfree s hs uid (mem_gridsIn_of_front ?_)
        exact hsame.trans (Option.mem_toList.mp huid)
      · exact h.gridded.roots uid huid
    · rw [hgrids]
      exact h.gridded.once
    · rw [hgrids, hnext]
      exact h.gridded.below
    · intro hnow t ht uid huid
      rw [hgridsIn] at huid
      rw [hkernel]
      exact h.gridded.parentless hfree t ((hlive t).mp ht) uid huid
    · rw [hcalls, hkernel]
      exact h.gridded.hosted
  · refine ⟨?_, ?_, ?_⟩
    · intro t
      rw [hactive t]
      split_ifs with ht
      · have hhead : m'.head t = some op := by
          rw [head, hops, ht]
          exact hop
        have hbusy : m'.busy t = true := by rw [busy, ht, hat]
        rw [Streams.prefetching, if_pos hbusy, hhead]
        rfl
      · exact (prefetching_of_stream (hother t ht)).symm
    · intro addr cnt t
      have hold := h.prefetching.awaited addr cnt t
      have hmore := hbuffer addr cnt t
      simp only [awaiting, hcoming, htarget, List.countP_append] at hold ⊢
      by_cases ht : t = s
      · subst ht
        have hbusy : m'.busy t = true := by rw [busy, hat]
        rw [if_pos hbusy, hops]
        rw [if_neg (by rw [hidle]; exact Bool.false_ne_true), operations_eq hop,
          List.countP_cons] at hold
        simp only [true_and] at hmore
        omega
      · rw [if_neg fun hboth => ht hboth.1] at hmore
        rw [busy, hother t ht]
        exact Nat.le_trans hold hmore
    · exact fun q hq hq' => h.prefetching.fresh q (hfresh q hq hq') hq'
  · refine ⟨?_, ?_, ?_, ?_, ?_⟩
    · rw [hframe]
      exact h.called.made
    · rw [hframe]
      exact h.called.live
    · rw [hframe]
      exact h.called.grids
    · rw [hframe]
      exact h.called.launches
    · intro _ t ht
      have hdevice : m.deviceStream t = true := by
        rw [hframe] at ht
        exact ht
      rw [empty, hops]
      exact h.called.idle hfree t hdevice

/-- An operation that is done at once leaves its stream. -/
theorem Sound.complete {m' : Streams} {updates : Nat → Nat} (hgrid : op.grid = none)
    (hm : m' = { (m.startNext s op).note s (.performed op.number) with num_updates := updates }) :
    Sound (m'.record_next_done s) := by
  have hstream : m'.stream = Function.update m.stream s { m.stream s with m_pending := true } := by
    rw [hm]
    rfl
  have hhead : m'.head s = some op := by
    rw [head, hstream, Function.update_self]
    exact hop
  have hbusy : m'.busy s = true := by rw [busy, hstream, Function.update_self]
  rw [record_next_done_eq hhead hbusy, hm]
  have hrun : in_order.run (m.stream s).queue
      [.started op.number, .performed op.number, .finished op.number] =
        some (CUstream.queue { m_operations := (m.stream s).m_operations.tail }) := by
    have hcons := operations_eq hop
    rw [busy] at hidle
    rw [CUstream.queue, hcons, hidle]
    simp [in_order.run, in_order.Queue.next, CUstream.queue]
  refine h.pop hs hrun ?_ ?_ rfl ?_ ?_ ?_ ?_ ?_ ?_
  · simp [startNext, setStream, note]
  · simp [startNext, setStream, note]
  · intro uid t ht
    simp only [startNext, setStream, note, hgrid] at ht
    refine ⟨?_, ht⟩
    rintro rfl
    rw [(h.gridded.entries uid t ht).1] at hidle
    cases hidle
  · exact List.Sublist.refl _
  · intro uid huid
    simp only [startNext, setStream, note, hgrid]
    exact h.gridded.noted uid huid
  · intro t
    refine (h.prefetching.active t).trans ?_
    split_ifs with ht
    · rw [ht, Streams.prefetching, hidle]
      rfl
    · rfl
  · exact fun _ _ _ => Nat.le_refl _
  · exact fun _ hq => hq

omit hs in
/-- An operation that could not be done is in front of its stream again. -/
theorem Sound.cancel {m' : Streams} {kernel : Nat → KernelInfo}
    (hkernel : ∀ uid, (kernel uid).m_parent_kernel = (m.kernel uid).m_parent_kernel ∧
      (kernel uid).m_child_kernels = (m.kernel uid).m_child_kernels)
    (hm : m' = { m.startNext s op with
      m_grid_id_to_stream := m.m_grid_id_to_stream, kernel := kernel }) :
    Sound (m'.cancel_front s) := by
  have hstream : m'.stream = Function.update m.stream s { m.stream s with m_pending := true } := by
    rw [hm]
    rfl
  have hhead : m'.head s = some op := by
    rw [head, hstream, Function.update_self]
    exact hop
  have hbusy : m'.busy s = true := by rw [busy, hstream, Function.update_self]
  have hback : Function.update m.stream s { m.stream s with m_pending := false } = m.stream := by
    rw [busy] at hidle
    rw [← hidle]
    exact Function.update_eq_self s m.stream
  have hnoted : Sound { m with
      events := m.events ++ [(s, .started op.number), (s, .cancelled op.number)] } := by
    refine ⟨h.runs, ?_, h.homes, ?_, ?_, ?_, ?_⟩
    · have hrun : in_order.run (m.stream s).queue [.started op.number, .cancelled op.number] =
          some (m.stream s).queue := by
        have hcons := operations_eq hop
        rw [busy] at hidle
        rw [CUstream.queue, hcons, hidle]
        simp [in_order.run, in_order.Queue.next]
      exact h.booked.update hrun (Function.update_eq_self s m.stream).symm rfl
    · exact h.registered.keep rfl rfl rfl h.registered.last fun _ _ => rfl
    · exact ⟨h.gridded.numbered, h.gridded.entries, h.gridded.noted, h.gridded.apart,
        h.gridded.roots, h.gridded.once, h.gridded.below, h.gridded.parentless, h.gridded.hosted⟩
    · exact ⟨h.prefetching.active, h.prefetching.awaited, h.prefetching.fresh⟩
    · exact ⟨h.called.made, h.called.live, h.called.grids, h.called.launches, h.called.idle⟩
  have hcancelled : m'.cancel_front s = { m with
      events := m.events ++ [(s, .started op.number), (s, .cancelled op.number)],
      kernel := kernel } := by
    rw [cancel_front_eq hhead hbusy, hm]
    simp [startNext, setStream, note, hback]
  rw [hcancelled]
  exact hnoted.rekernel rfl (fun uid => (hkernel uid).1) fun uid => (hkernel uid).2

omit hs in
/-- The request that a prefetch activates: the first one of its range, which is still inactive. -/
theorem Sound.activated {addr cnt : Nat} (hask : op.isPrefetch addr cnt = true) :
    ∃ pre q post, m.prefetch_req_buffer = pre ++ q :: post ∧ q.active = false ∧
      q.cur_addr = q.start_addr ∧ isRequest addr cnt s q = true ∧
      m.prefetch_req_buffer.find? (isRequest addr cnt s) = some q ∧
      activateFirst addr cnt s m.prefetch_req_buffer = pre ++ { q with active := true } :: post := by
  have hawaited := h.prefetching.awaited addr cnt s
  have hnone := h.prefetching.active s
  rw [Streams.prefetching, hidle, if_neg Bool.false_ne_true, List.map_eq_nil_iff,
    List.filter_eq_nil_iff] at hnone
  -- the operation in front is one of those that await a request
  have hpos : 0 < m.prefetch_req_buffer.countP fun q => !q.active && isRequest addr cnt s q := by
    refine Nat.lt_of_lt_of_le ?_ hawaited
    rw [awaiting, hidle, if_neg Bool.false_ne_true, operations_eq hop, List.cons_append,
      List.countP_cons_of_pos hask]
    exact Nat.succ_pos _
  obtain ⟨r, hr, hmatch⟩ := List.countP_pos_iff.mp hpos
  simp only [Bool.and_eq_true] at hmatch
  have hfresh := h.prefetching.fresh
  generalize m.prefetch_req_buffer = qs at hnone hr hfresh
  induction qs with
  | nil => cases hr
  | cons q qs ih =>
    by_cases hq : isRequest addr cnt s q = true
    · have hstream : q.m_stream = s := (of_decide_eq_true hq).2.2
      have hidle : q.active = false := by
        have hnot := hnone q List.mem_cons_self
        simpa [hstream] using hnot
      refine ⟨[], q, qs, rfl, hidle, hfresh q List.mem_cons_self hidle, hq, ?_, ?_⟩
      · rw [List.find?_cons_of_pos hq]
      · rw [activateFirst, if_pos (of_decide_eq_true hq)]
        rfl
    · have hrest : r ∈ qs := by
        refine (List.mem_cons.mp hr).resolve_left ?_
        rintro rfl
        exact hq hmatch.2
      obtain ⟨pre, q', post, heq, hactive, hcur, hrequest, hfind, hfirst⟩ := ih
        (fun q' hq' => hnone q' (List.mem_cons_of_mem _ hq')) hrest
        fun q' hq' => hfresh q' (List.mem_cons_of_mem _ hq')
      refine ⟨q :: pre, q', post, by rw [heq]; rfl, hactive, hcur, hrequest, ?_, ?_⟩
      · rw [List.find?_cons_of_neg hq, hfind]
      · rw [activateFirst, if_neg (of_decide_eq_false (Bool.eq_false_iff.mpr hq)), hfirst]
        rfl

omit h hs hidle hop in
theorem fillSlot_perm {ks : List (Option Nat)} (hfree : none ∈ ks) (uid : Nat) :
    ((fillSlot uid ks).filterMap id).Perm (uid :: ks.filterMap id) := by
  induction ks with
  | nil => cases hfree
  | cons k ks ih =>
    cases k with
    | none => exact List.Perm.refl _
    | some v =>
      have hrest : none ∈ ks := (List.mem_cons.mp hfree).resolve_left fun heq => nomatch heq
      exact ((ih hrest).cons v).trans (List.Perm.swap _ _ _)

theorem Sound.tryKernel {uid : Nat} {m_sim_mode : Bool} (hcycles : m.gpuCycles = true)
    (htype : op.m_type = .stream_kernel_launch uid m_sim_mode) : Sound (m.tryOperation s op) := by
  rw [gpuCycles, Bool.and_eq_true, Option.isNone_iff_eq_none] at hcycles
  obtain ⟨hfree, hnone⟩ := hcycles
  have hhome : op.m_stream = some s := h.homes s op (List.mem_of_head? hop)
  have hgrid : op.grid = some uid := by simp [StreamOperation.grid, htype]
  have hrange : op.range = none := by simp [StreamOperation.range, htype]
  have hquiet : ∀ t, (m.prefetch_req_buffer.filter fun q => q.active && decide (q.m_stream = t)).map
      (fun q => (q.start_addr, q.size)) = if t = s then op.range.toList else m.prefetching t := by
    intro t
    refine (h.prefetching.active t).trans ?_
    split_ifs with ht
    · rw [ht, Streams.prefetching, hidle, hrange]
      rfl
    · rfl
  have hentries : ∀ k, (m.startNext s op).m_grid_id_to_stream k =
      if op.grid = some k then some s else m.m_grid_id_to_stream k := by
    intro k
    simp [startNext, hgrid, Function.update_apply, eq_comm]
  have hevents : ((m.startNext s op).note s (.performed op.number)).events = m.events ++
      [in_order.Event.started op.number, .performed op.number].map fun e => (s, e) := by
    simp [startNext, setStream, note]
  simp only [Streams.tryOperation, do_operation, hhome, assert_true, Option.isSome_some,
    Option.getD_some, htype, hgrid]
  by_cases hmode : m_sim_mode = true
  · simp only [if_pos hmode]
    refine h.hold hs hidle hop hfree rfl hevents rfl hentries ?_ hquiet ?_ fun _ hq _ => hq
    · rw [hgrid, launched, launched, hnone]
      simp only [Option.toList_none, List.append_nil]
      exact List.perm_append_singleton _ _
    · exact fun _ _ _ => Nat.le_add_right _ _
  · simp only [if_neg hmode]
    by_cases hstart : (m.startNext s op).can_start_kernel = true ∧
        ((m.startNext s op).kernel uid).m_launch_latency = 0
    · simp only [if_pos hstart, if_true]
      have hslot : none ∈ m.m_running_kernels := of_decide_eq_true hstart.1
      have hlaunch : ((m.startNext s op).note s (.performed op.number)).launch uid =
          { (m.startNext s op).note s (.performed op.number) with
            m_running_kernels := fillSlot uid m.m_running_kernels } := by
        have hcan : ((m.startNext s op).note s (.performed op.number)).can_start_kernel = true :=
          hstart.1
        simp only [Streams.launch, hcan, Bool.not_true, Bool.or_false]
        rfl
      rw [hlaunch]
      refine h.hold hs hidle hop hfree rfl hevents rfl hentries ?_ hquiet ?_ fun _ hq _ => hq
      · rw [hgrid]
        refine (((fillSlot_perm hslot uid).append_left _).append_right _).trans ?_
        exact (List.perm_middle.append_right _).trans (List.Perm.refl _)
      · exact fun _ _ _ => Nat.le_add_right _ _
    · simp only [if_neg hstart, if_neg Bool.false_ne_true]
      have hback : Function.update (m.startNext s op).m_grid_id_to_stream uid none =
          m.m_grid_id_to_stream := by
        have hold := h.no_entry hs hidle hop hgrid
        simp only [startNext, hgrid, Function.update_idem, ← hold, Function.update_eq_self]
      have hkept : ∀ k, (Function.update m.kernel uid { m.kernel uid with
            m_launch_latency := (m.kernel uid).m_launch_latency - 1 } k).m_parent_kernel =
              (m.kernel k).m_parent_kernel ∧
          (Function.update m.kernel uid { m.kernel uid with
            m_launch_latency := (m.kernel uid).m_launch_latency - 1 } k).m_child_kernels =
              (m.kernel k).m_child_kernels := by
        intro k
        by_cases hk : k = uid
        · subst hk
          simp
        · simp [hk]
      refine h.cancel hidle hop hkept ?_
      simp only [eraseGrid, hback]
      rfl

theorem Sound.tryPrefetch {addr cnt : Nat} (hcycles : m.gpuCycles = true)
    (htype : op.m_type = .stream_prefetch_host_to_device addr cnt) :
    Sound (m.tryOperation s op) := by
  rw [gpuCycles, Bool.and_eq_true] at hcycles
  have hhome : op.m_stream = some s := h.homes s op (List.mem_of_head? hop)
  have hgrid : op.grid = none := by simp [StreamOperation.grid, htype]
  have hask : op.isPrefetch addr cnt = true := by simp [StreamOperation.isPrefetch, htype]
  obtain ⟨pre, q, post, hbuffer, hq, hcur, hrequest, hfind, hfirst⟩ := h.activated hidle hop hask
  obtain ⟨haddr, hcnt, hstream⟩ := of_decide_eq_true hrequest
  have hany : m.prefetch_req_buffer.any (isRequest addr cnt s) = true := by
    rw [hbuffer, List.any_append, List.any_cons, hrequest]
    simp
  have hperformed : ((m.startNext s op).note s (.performed op.number)).activate_prefetch addr cnt s =
      { (m.startNext s op).note s (.performed op.number) with
        prefetch_req_buffer := pre ++ { q with active := true } :: post } := by
    have hcheck : ((m.prefetch_req_buffer.find? (isRequest addr cnt s)).any fun q =>
        decide (q.cur_addr ≠ addr)) = false := by
      rw [hfind, Option.any_some, hcur, haddr]
      simp
    simp only [Streams.activate_prefetch, startNext, setStream, note, hcheck, hfirst,
      Bool.or_false]
  have htry : m.tryOperation s op =
      { (m.startNext s op).note s (.performed op.number) with
        prefetch_req_buffer := pre ++ { q with active := true } :: post } := by
    simp only [Streams.tryOperation, do_operation, hhome, assert_true, Option.isSome_some,
      Option.getD_some, htype]
    rw [if_pos (show (m.startNext s op).prefetch_req_buffer.any (isRequest addr cnt s) = true
      from hany)]
    simp only [if_true]
    exact hperformed
  rw [htry]
  refine h.hold hs hidle hop hcycles.1 rfl ?_ rfl ?_ ?_ ?_ ?_ ?_
  · simp [startNext, setStream, note]
  · intro k
    simp [startNext, setStream, note, hgrid]
  · rw [hgrid]
    exact List.Perm.refl _
  · intro t
    have hold := h.prefetching.active t
    rw [hbuffer, List.filter_append, List.filter_cons_of_neg (by simp [hq]), List.map_append]
      at hold
    rw [List.filter_append, List.map_append]
    by_cases ht : t = s
    · rw [ht, Streams.prefetching, hidle, if_neg Bool.false_ne_true, List.append_eq_nil_iff] at hold
      rw [if_pos ht, ht, hold.1, List.filter_cons_of_pos (by simp [hstream]), List.map_cons, hold.2]
      simp [StreamOperation.range, htype, haddr, hcnt]
    · rw [if_neg ht, List.filter_cons_of_neg (by simp [hstream, Ne.symm ht])]
      exact hold
  · intro a n t
    rw [hbuffer, List.countP_append, List.countP_append, List.countP_cons, List.countP_cons]
    by_cases hmatch : isRequest a n t q = true
    · obtain ⟨rfl, rfl, rfl⟩ := of_decide_eq_true hmatch
      rw [haddr, hcnt, hstream, if_pos (⟨rfl, hask⟩ : s = s ∧ op.isPrefetch addr cnt = true)]
      simp only [Bool.not_true, Bool.false_and, if_neg Bool.false_ne_true]
      split_ifs <;> omega
    · simp only [hmatch, Bool.and_false, if_neg Bool.false_ne_true]
      omega
  · intro r hr hr'
    rw [hbuffer]
    rcases List.mem_append.mp hr with hr | hr
    · exact List.mem_append_left _ hr
    · rcases List.mem_cons.mp hr with rfl | hr
      · cases hr'
      · exact List.mem_append_right _ (List.mem_cons_of_mem _ hr)

theorem Sound.tryOperation (hcycles : m.gpuCycles = true) : Sound (m.tryOperation s op) := by
  have hhome : op.m_stream = some s := h.homes s op (List.mem_of_head? hop)
  cases htype : op.m_type with
  | stream_memcpy type =>
    have hgrid : op.grid = none := by simp [StreamOperation.grid, htype]
    simp only [Streams.tryOperation, do_operation, hhome, assert_true, Option.isSome_some,
      Option.getD_some, htype, if_true]
    exact h.complete hs hidle hop hgrid rfl
  | stream_prefetch_host_to_device addr cnt => exact h.tryPrefetch hs hidle hop hcycles htype
  | stream_kernel_launch uid m_sim_mode => exact h.tryKernel hs hidle hop hcycles htype
  | stream_event event =>
    have hgrid : op.grid = none := by simp [StreamOperation.grid, htype]
    simp only [Streams.tryOperation, do_operation, hhome, assert_true, Option.isSome_some,
      Option.getD_some, htype, if_true]
    exact h.complete hs hidle hop hgrid rfl
  | stream_wait_event event cnt =>
    have hgrid : op.grid = none := by simp [StreamOperation.grid, htype]
    simp only [Streams.tryOperation, do_operation, hhome, assert_true, Option.isSome_some,
      Option.getD_some, htype, hgrid]
    by_cases hupdates : (m.startNext s op).num_updates event ≥ cnt
    · simp only [if_pos hupdates, if_true]
      exact h.complete hs hidle hop hgrid rfl
    · simp only [if_neg hupdates, if_neg Bool.false_ne_true]
      have hkept : ∀ uid, (m.kernel uid).m_parent_kernel = (m.kernel uid).m_parent_kernel ∧
          (m.kernel uid).m_child_kernels = (m.kernel uid).m_child_kernels := fun _ => ⟨rfl, rfl⟩
      refine h.cancel hidle hop hkept ?_
      simp only [startNext, hgrid]
      rfl

end

/-! ## The manager -/

section

variable {m : Streams} (h : Sound m)
include h

omit h in
theorem mem_visits {s : Nat} (hs : s ∈ m.visits) : s ∈ m.m_streams := by
  rw [visits] at hs
  split at hs
  · exact hs
  · rcases List.mem_append.mp hs with hs | hs
    · rcases List.mem_append.mp hs with hs | hs
      · exact (List.dropWhile_sublist _).subset (List.mem_of_mem_tail hs)
      · exact (List.takeWhile_sublist _).subset hs
    · exact (List.dropWhile_sublist _).subset (List.mem_of_mem_take hs)

theorem Sound.turnRound : Sound m.turnRound := by
  have hkeep : ∀ (zero : Bool) (last : Option Nat), (∀ l, last = some l → l ∈ m.m_streams) →
      Sound { m with m_service_stream_zero := zero, m_last_stream := last } := by
    intro zero last hlast
    refine ⟨h.runs, h.booked.same rfl rfl, h.homes, ?_, ?_, ?_, ?_⟩
    · exact h.registered.keep rfl rfl rfl hlast fun _ _ => rfl
    · exact ⟨h.gridded.numbered, h.gridded.entries, h.gridded.noted, h.gridded.apart,
        h.gridded.roots, h.gridded.once, h.gridded.below, h.gridded.parentless, h.gridded.hosted⟩
    · exact ⟨h.prefetching.active, h.prefetching.awaited, h.prefetching.fresh⟩
    · exact ⟨h.called.made, h.called.live, h.called.grids, h.called.launches, h.called.idle⟩
  rw [Streams.turnRound]
  split_ifs with hzero
  · exact hkeep true m.m_last_stream h.registered.last
  · have hvalid : (m.m_last_stream.any fun l => decide (l ∉ m.m_streams)) = false := by
      rw [Bool.eq_false_iff]
      intro hany
      obtain ⟨l, hl, hnot⟩ := Option.any_eq_true _ _ |>.mp hany
      exact of_decide_eq_true hnot (h.registered.last l hl)
    simp only [hvalid, Bool.or_false]
    apply hkeep
    intro l hl
    cases hfind : m.visits.find? m.servable with
    | some s =>
      rw [hfind] at hl
      cases hl
      exact mem_visits (List.mem_of_find?_eq_some hfind)
    | none =>
      rw [hfind] at hl
      rcases Option.or_eq_some_iff.mp hl with hlast | ⟨-, hlast⟩
      · exact mem_visits (List.mem_of_getLast? hlast)
      · exact h.registered.last l hlast

omit h in
theorem served_spec {s : Nat} (hs : m.served = some s) : m.Live s ∧ m.servable s = true := by
  rw [served] at hs
  split_ifs at hs with hzero
  · cases hs
    exact ⟨Or.inl rfl, hzero⟩
  · exact ⟨Or.inr (mem_visits (List.mem_of_find?_eq_some hs)), List.find?_some hs⟩

omit h in
theorem gpuCycles_destroy_streams (ss : List Nat) :
    (ss.foldl Streams.destroy_stream m).gpuCycles = m.gpuCycles := by
  induction ss generalizing m with
  | nil => rfl
  | cons s ss ih => exact ih

omit h in
theorem gpuCycles_record_next_done (s : Nat) : (m.record_next_done s).gpuCycles = m.gpuCycles := by
  rw [Streams.record_next_done]
  split <;> rfl

omit h in
theorem gpuCycles_register_finished_kernel (n uid : Nat) :
    (Streams.register_finished_kernel n m uid).1.gpuCycles = m.gpuCycles := by
  induction n generalizing m uid with
  | zero => rfl
  | succ n ih =>
    rw [Streams.register_finished_kernel]
    split_ifs
    · rfl
    cases m.m_grid_id_to_stream uid with
    | none => rfl
    | some s =>
      simp only
      cases (m.head s).bind StreamOperation.grid with
      | none => rfl
      | some front =>
        simp only
        split_ifs
        · refine (gpuCycles_destroy_streams _).trans ?_
          have hpop : (((m.assert (decide (uid = front))).record_next_done s).eraseGrid
              uid).gpuCycles = m.gpuCycles := gpuCycles_record_next_done s
          refine Eq.trans ?_ hpop
          split
          · rfl
          · exact ih _
        · rfl

theorem Sound.operation (hcycles : m.gpuCycles = true) : Sound m.operation.1 := by
  have hfree : m.gpuFree = true := (Bool.and_eq_true _ _ ▸ hcycles).1
  have hcheck := h.check_finished_kernel hfree
  have hgoes : m.check_finished_kernel.1.gpuCycles = true :=
    (gpuCycles_register_finished_kernel _ _).trans hcycles
  simp only [Streams.operation]
  generalize m.check_finished_kernel = c at hcheck hgoes
  have hturn := hcheck.turnRound
  cases hserved : c.1.served with
  | none => exact hturn
  | some s =>
    obtain ⟨hlive, hserves⟩ := served_spec hserved
    rw [servable, Bool.and_eq_true, Bool.not_eq_true', Bool.not_eq_true'] at hserves
    have hstream : c.1.turnRound.stream = c.1.stream := by
      rw [Streams.turnRound]
      split_ifs <;> rfl
    have hidle : c.1.turnRound.busy s = false := by
      rw [busy, hstream]
      exact hserves.1
    have hround : c.1.turnRound.gpuCycles = true ∧ c.1.turnRound.Live s := by
      rw [Streams.turnRound]
      split_ifs <;> exact ⟨hgoes, hlive⟩
    simp only
    cases hop : c.1.turnRound.head s with
    | none => exact hturn
    | some op => exact hturn.tryOperation hround.2 hidle hop hround.1

/-! ## The calls of the host -/

omit h in
theorem hostStream_spec {s : Option Nat} (hs : m.hostStream s = true) (t : Nat) (ht : s = some t) :
    t ∈ m.m_streams ∧ ((false : Bool) = false → m.deviceStream t = false) := by
  subst ht
  simp only [hostStream, Option.all_some, Bool.and_eq_true, decide_eq_true_eq,
    Bool.not_eq_true'] at hs
  exact ⟨hs.1, fun _ => hs.2⟩

/-- A call for an operation that is neither a kernel nor a prefetch. -/
theorem Sound.begin_plain {op : StreamOperation} (hgrid : op.grid = none) (hrange : op.range = none)
    (hlive : ∀ s, op.m_stream = some s →
      s ∈ m.m_streams ∧ ((false : Bool) = false → m.deviceStream s = false)) :
    Sound (m.beginPush op false) := by
  apply h.beginPush
  · intro uid huid
    rw [hgrid] at huid
    cases huid
  · exact hlive
  · exact fun hdevice => nomatch hdevice
  · intro addr cnt hask
    have htype := of_decide_eq_true hask
    rw [StreamOperation.range, htype] at hrange
    cases hrange

theorem Sound.cudaLaunch {latency : Nat} {sim_mode : Bool} {s : Option Nat}
    (hguard : m.guard (.cudaLaunch latency sim_mode s) = true) :
    Sound (m.perform (.cudaLaunch latency sim_mode s)) := by
  apply (h.newKernel latency).beginPush
  · intro uid huid
    cases huid
    refine ⟨?_, Nat.lt_succ_self _, fun _ => ?_⟩
    · exact fun hmem => lt_irrefl _ (h.gridded.below _ hmem)
    · simp [Streams.newKernel]
  · exact hostStream_spec hguard
  · intro hdevice
    cases hdevice
  · intro addr cnt hask
    cases of_decide_eq_true hask

/-- A prefetch whose request is registered for the stream that its operation goes to. -/
theorem Sound.cudaMemPrefetchAsync {addr allocation cnt : Nat} {s : Option Nat}
    (hguard : m.guard (.cudaMemPrefetchAsync addr allocation cnt s) = true)
    (hstays : m.m_cuda_launch_blocking = true → s = none) :
    Sound (m.perform (.cudaMemPrefetchAsync addr allocation cnt s)) := by
  apply (h.register_prefetch addr allocation cnt s).beginPush
  · exact fun uid huid => nomatch huid
  · exact hostStream_spec hguard
  · exact fun hdevice => nomatch hdevice
  · intro a n hask
    have htype := of_decide_eq_true hask
    cases htype
    have htarget : (m.register_prefetch addr allocation cnt s).target
        ⟨.stream_prefetch_host_to_device addr cnt, s, 0⟩ = s.getD 0 := by
      rw [target]
      split_ifs with hblock
      · rw [hstays hblock]
        rfl
      · rfl
    rw [htarget]
    refine Nat.lt_of_le_of_lt (h.prefetching.awaited addr cnt (s.getD 0)) ?_
    simp only [Streams.register_prefetch, List.countP_append]
    simp [isRequest]

end

/-! ## The runs -/

/-- A prefetch stays on the stream of its request, and no stream of the device waits for an event
of the host. -/
def proper (m : Streams) : Streams.Action → Bool
  | .cudaMemPrefetchAsync _ _ _ s => !m.m_cuda_launch_blocking || s.isNone
  | .cudaStreamWaitEvent _ s => !m.deviceStream s
  | _ => true

theorem Sound.step {m m' : Streams} (h : Sound m) {a : Streams.Action} (ha : m.proper a = true)
    (hstep : m.step a = some m') : Sound m' := by
  rw [Streams.step] at hstep
  split_ifs at hstep with hok
  cases hstep
  obtain ⟨hguard, -⟩ := hok
  cases a with
  | cudaStreamCreate => exact h.add_stream
  | cudaStreamDestroy s =>
    simp only [guard, Bool.and_eq_true, decide_eq_true_eq] at hguard
    obtain ⟨⟨hhost, hempty⟩, hcoming⟩ := hguard
    obtain ⟨hmem, hdevice⟩ := hostStream_spec hhost s rfl
    refine (h.destroy_stream hmem hempty (hdevice rfl) ?_).1
    intro c hc hphase
    exact hcoming c.op (List.mem_map_of_mem (List.mem_filter.mpr ⟨hc, decide_eq_true hphase⟩))
  | cudaMemcpyAsync type s => exact h.begin_plain rfl rfl (hostStream_spec hguard)
  | cudaLaunch latency sim_mode s => exact h.cudaLaunch hguard
  | cudaEventRecord event s =>
    exact (h.issue _).begin_plain rfl rfl (hostStream_spec (m := m) hguard)
  | cudaStreamWaitEvent event s =>
    simp only [guard, Bool.and_eq_true, decide_eq_true_eq] at hguard
    rw [proper, Bool.not_eq_true'] at ha
    refine h.begin_plain rfl rfl fun t ht => ?_
    cases ht
    exact ⟨hguard.1, fun _ => ha⟩
  | cudaMemPrefetchAsync addr allocation cnt s =>
    refine h.cudaMemPrefetchAsync hguard fun hblock => ?_
    rw [proper, hblock, Bool.not_true, Bool.false_or, Option.isNone_iff_eq_none] at ha
    exact ha
  | unblock i => exact h.unblock hguard
  | push i max_hit =>
    obtain ⟨c, hi, hready⟩ := Option.any_eq_true _ _ |>.mp hguard
    simp only [perform, hi]
    exact h.finishPush hi (of_decide_eq_true hready) max_hit
  | leave i => exact h.leave hguard
  | operation => exact h.operation hguard
  | functional_sim => exact h.functional_sim hguard
  | set_kernel_done uid complete => exact h.set_kernel_done hguard
  | create_stream_cta uid =>
    simp only [guard, Bool.and_eq_true] at hguard
    exact h.create_stream_cta hguard.2
  | device_grid parent latency s sim_mode => exact h.device_grid hguard
  | launch_one_device_kernel sim_mode => exact h.launch_one_device_kernel
  | prefetch_advance n => exact h.prefetch_advance hguard
  | prefetch_done => exact h.prefetch_done hguard

theorem sound_boot (m_cuda_launch_blocking : Bool) (n : Nat) :
    Sound (boot m_cuda_launch_blocking n) := by
  have hlaunched : ∀ uid, uid ∉ (boot m_cuda_launch_blocking n).launched := by
    simp [launched, boot]
  have hnodup : (boot m_cuda_launch_blocking n).launched.Nodup := by
    rw [List.eq_nil_iff_forall_not_mem.mpr hlaunched]
    exact List.nodup_nil
  refine ⟨rfl, fun _ => rfl, fun _ _ ho => (by cases ho), ?_, ?_, ?_, ?_⟩
  · exact ⟨Nat.one_pos, List.nodup_nil, fun _ hs => (by cases hs), fun _ _ => rfl,
      fun _ hl => (by cases hl), List.nodup_nil, fun _ hc => (by cases hc)⟩
  · exact ⟨Nat.one_pos, fun _ _ ht => (by cases ht), fun uid huid => absurd huid (hlaunched uid),
      hnodup, fun uid huid => absurd huid (hlaunched uid), List.nodup_nil,
      fun _ huid => (by cases huid), fun _ _ _ _ huid => (by cases huid), fun _ hc => (by cases hc)⟩
  · exact ⟨fun _ => rfl, fun _ _ _ => Nat.le_refl _, fun _ hq => (by cases hq)⟩
  · exact ⟨fun _ hc => (by cases hc), fun _ hc => (by cases hc), fun _ hc => (by cases hc),
      fun _ hl => (by cases hl), fun _ _ _ => rfl⟩

/-- The steps of a run, each of a kind. -/
def steps (ok : Streams → Streams.Action → Bool) (m : Streams) :
    List Streams.Action → Option Streams
  | [] => some m
  | a :: as => if ok m a then (m.step a).bind (steps ok · as) else none

theorem Sound.steps {m m' : Streams} (h : Sound m) {as : List Streams.Action}
    (hrun : m.steps proper as = some m') : Sound m' := by
  induction as generalizing m with
  | nil =>
    cases hrun
    exact h
  | cons a as ih =>
    rw [Streams.steps] at hrun
    split_ifs at hrun with ha
    obtain ⟨m1, hstep, hrest⟩ := Option.bind_eq_some_iff.mp hrun
    exact ih (h.step ha hstep) hrest

/-- No assertion failed; the history of each stream is orderly up to its queue and accounts for
every operation; and the grid of an entry is the kernel in front of its stream, in progress. -/
structure InOrder (m : Streams) : Prop where
  runs : m.aborted = false
  orderly : ∀ s, in_order.run {} (m.book s) = some (m.stream s).queue
  accounts : ∀ s, in_order.Accounts (m.book s) (m.stream s).queue
  grids : ∀ uid s, m.m_grid_id_to_stream uid = some s →
    m.busy s = true ∧ m.frontGrid s = some uid

/-- Operations run in order and take effect once. -/
theorem streams_run_in_order {m_cuda_launch_blocking : Bool} {n : Nat} {as : List Streams.Action}
    {m : Streams} (hrun : (boot m_cuda_launch_blocking n).steps proper as = some m) : InOrder m := by
  have h := (sound_boot m_cuda_launch_blocking n).steps hrun
  exact ⟨h.runs, h.booked, fun s => in_order.accounts_of_run (h.booked s), h.gridded.entries⟩

/-- A copy, a kernel that has to wait for a cycle, and a prefetch, on a stream of the host. -/
theorem a_copy_a_kernel_and_a_prefetch_run_in_order : ∃ m, (boot false 2).steps proper
    [.cudaStreamCreate, .cudaMemcpyAsync .host_to_device (some 1), .push 0 false,
      .cudaLaunch 1 false (some 1), .push 0 false, .operation, .operation, .operation,
      .cudaMemPrefetchAsync 0 0 4096 (some 1), .push 1 false, .set_kernel_done 1 true, .operation,
      .prefetch_advance 4096, .prefetch_done] = some m ∧ InOrder m := by
  obtain ⟨m, hm⟩ := Option.isSome_iff_exists.mp (show ((boot false 2).steps proper
    [.cudaStreamCreate, .cudaMemcpyAsync .host_to_device (some 1), .push 0 false,
      .cudaLaunch 1 false (some 1), .push 0 false, .operation, .operation, .operation,
      .cudaMemPrefetchAsync 0 0 4096 (some 1), .push 1 false, .set_kernel_done 1 true, .operation,
      .prefetch_advance 4096, .prefetch_done]).isSome = true by decide +kernel)
  exact ⟨m, hm, streams_run_in_order hm⟩

/-- Stream zero has an operation in hand that nothing works on, and no other stream gets one. -/
structure Stuck (m : Streams) : Prop where
  blocking : m.m_cuda_launch_blocking = true
  zero : m.busy 0 = true ∧ m.empty 0 = false
  others : ∀ s ∈ m.m_streams, m.empty s = true
  positive : 0 < m.sm_next_stream_uid
  finished : m.m_finished_kernel = []
  running : ∀ uid, some uid ∉ m.m_running_kernels
  functional : m.m_functional_sim_kernel = none
  launches : m.g_cuda_device_launch_op = []
  numbered : m.kernel_info_m_next_uid ≠ 0
  requests : ∀ q ∈ m.prefetch_req_buffer, q.active = false
  performed : in_order.performedOf (m.book 0) = []

namespace Stuck

variable {m m' : Streams} (h : Stuck m)
include h

/-- A step that touches no queue, no kernel that was launched and no request. -/
theorem frame (hframe : m' = { m with
      m_last_stream := m'.m_last_stream, m_service_stream_zero := m'.m_service_stream_zero,
      kernel := m'.kernel, kernel_info_m_next_uid := m'.kernel_info_m_next_uid,
      num_issued := m'.num_issued, prefetch_req_buffer := m'.prefetch_req_buffer,
      calls := m'.calls, aborted := m'.aborted })
    (hnumbered : m'.kernel_info_m_next_uid ≠ 0)
    (hrequests : ∀ q ∈ m'.prefetch_req_buffer, q.active = false) : Stuck m' := by
  rw [hframe]
  exact ⟨h.blocking, h.zero, h.others, h.positive, h.finished, h.running, h.functional, h.launches,
    hnumbered, hrequests, h.performed⟩

/-- A stream without operations that is made or destroyed. -/
theorem restream {s : Nat} {streams : List Nat} {next : Nat} {last : Option Nat} {aborted : Bool}
    (hs : s ≠ 0) (hstreams : ∀ t ∈ streams, t = s ∨ t ∈ m.m_streams) (hnext : 0 < next) :
    Stuck { m with
      stream := Function.update m.stream s {}, m_streams := streams, sm_next_stream_uid := next,
      m_last_stream := last, aborted := aborted } := by
  have hzero : Function.update m.stream s {} 0 = m.stream 0 := Function.update_of_ne hs.symm _ _
  refine ⟨h.blocking, ?_, ?_, hnext, h.finished, h.running, h.functional, h.launches, h.numbered,
    h.requests, h.performed⟩
  · dsimp only [busy, empty]
    rw [hzero]
    exact h.zero
  · intro t ht
    dsimp only [empty]
    by_cases hts : t = s
    · rw [hts, Function.update_self]
      rfl
    · rw [Function.update_of_ne hts]
      exact h.others t ((hstreams t ht).resolve_left hts)

theorem push {op : StreamOperation} : Stuck (m.pushOperation op) := by
  have htarget : m.target op = 0 := by simp [target, h.blocking]
  have hbook : (m.pushOperation op).book 0 = m.book 0 ++ [.pushed m.pushes] := by
    simp [book, pushOperation, setStream, note, htarget]
  refine ⟨h.blocking, ⟨?_, ?_⟩, ?_, h.positive, h.finished, h.running, h.functional, h.launches,
    h.numbered, h.requests, ?_⟩
  · rw [busy_pushOperation]
    exact h.zero.1
  · rw [empty, stream_pushOperation, if_pos htarget.symm]
    simp
  · intro s hs
    rw [empty, stream_pushOperation, htarget, if_neg]
    · exact h.others s hs
    · rintro rfl
      have hempty := h.others 0 hs
      rw [h.zero.2] at hempty
      cases hempty
  · have hold := h.performed
    rw [in_order.performedOf] at hold ⊢
    rw [hbook, List.filterMap_append, hold]
    rfl

theorem operation : Stuck m.operation.1 := by
  have hcheck : m.check_finished_kernel.1 = m := by
    have hsame : ({ m with m_finished_kernel := [] } : Streams) = m := by rw [← h.finished]
    rw [check_finished_kernel, h.finished, List.headD_nil, List.tail_nil,
      register_finished_kernel_zero h.numbered, hsame]
  have hserved : m.served = none := by
    rw [served, servable, h.zero.1, Bool.not_true, Bool.false_and, if_neg Bool.false_ne_true,
      List.find?_eq_none]
    intro s hs
    rw [servable, h.others s (mem_visits hs), Bool.not_true, Bool.and_false]
    exact Bool.false_ne_true
  simp only [Streams.operation, hcheck, hserved]
  refine h.frame ?_ ?_ ?_
  · rw [turnRound]
    split_ifs <;> rfl
  · rw [turnRound]
    split_ifs <;> exact h.numbered
  · rw [turnRound]
    split_ifs <;> exact h.requests

theorem step {a : Streams.Action} (hstep : m.step a = some m') : Stuck m' := by
  rw [Streams.step] at hstep
  split_ifs at hstep with hok
  cases hstep
  obtain ⟨hguard, -⟩ := hok
  -- no kernel runs
  have hruns : ∀ uid, m.runs uid = false := by
    intro uid
    refine decide_eq_false ?_
    rintro (hrun | hrun)
    · exact h.running uid hrun
    · rw [h.functional] at hrun
      cases hrun
  cases a with
  | cudaStreamCreate =>
    refine h.restream (Nat.ne_of_gt h.positive) (fun t ht => ?_) (Nat.succ_pos _)
    exact (List.mem_append.mp ht).symm.imp_left List.mem_singleton.mp
  | cudaStreamDestroy s =>
    simp only [guard, Bool.and_eq_true] at hguard
    refine h.restream ?_ (fun t ht => Or.inr (List.mem_of_mem_erase ht)) h.positive
    rintro rfl
    rw [h.zero.2] at hguard
    cases hguard.1.2
  | cudaMemcpyAsync type s => exact h.frame rfl h.numbered h.requests
  | cudaLaunch latency sim_mode s => exact h.frame rfl (Nat.succ_ne_zero _) h.requests
  | cudaEventRecord event s => exact h.frame rfl h.numbered h.requests
  | cudaStreamWaitEvent event s => exact h.frame rfl h.numbered h.requests
  | cudaMemPrefetchAsync addr allocation cnt s =>
    refine h.frame rfl h.numbered fun q hq => ?_
    rcases List.mem_append.mp hq with hq | hq
    · exact h.requests q hq
    · rw [List.mem_singleton.mp hq]
  | unblock i => exact h.frame rfl h.numbered h.requests
  | push i max_hit =>
    simp only [perform]
    cases m.calls[i]? with
    | none => exact h
    | some c =>
      simp only [finishPush]
      split_ifs
      · exact h.frame rfl h.numbered h.requests
      · exact h.frame rfl h.numbered h.requests
      · exact h.push.frame rfl h.numbered h.requests
      · exact h.push.frame rfl h.numbered h.requests
  | leave i => exact h.frame rfl h.numbered h.requests
  | operation => exact h.operation
  | functional_sim =>
    simp only [guard, h.functional, Option.isSome_none, Bool.and_false, Bool.false_and] at hguard
    cases hguard
  | set_kernel_done uid complete =>
    simp only [guard, Bool.and_eq_true, decide_eq_true_eq] at hguard
    exact absurd hguard.2 (h.running uid)
  | create_stream_cta uid =>
    simp only [guard, hruns, Bool.and_false] at hguard
    cases hguard
  | device_grid parent latency s sim_mode =>
    simp only [guard, hruns, Bool.and_false, Bool.false_and] at hguard
    cases hguard
  | launch_one_device_kernel sim_mode =>
    simp only [guard, h.launches, List.isEmpty_nil, Bool.not_true, Bool.and_false] at hguard
    cases hguard
  | prefetch_advance n =>
    simp only [guard, Bool.and_eq_true] at hguard
    obtain ⟨q, hq, hactive⟩ := Option.any_eq_true _ _ |>.mp hguard.2
    rw [h.requests q (List.mem_of_head? hq)] at hactive
    cases hactive
  | prefetch_done =>
    simp only [guard, Bool.and_eq_true] at hguard
    obtain ⟨q, hq, hactive⟩ := Option.any_eq_true _ _ |>.mp hguard.2
    rw [h.requests q (List.mem_of_head? hq)] at hactive
    cases hactive

theorem steps {as : List Streams.Action} (hrun : m.steps (fun _ _ => true) as = some m') :
    Stuck m' := by
  induction as generalizing m with
  | nil =>
    cases hrun
    exact h
  | cons a as ih =>
    rw [Streams.steps, if_pos rfl] at hrun
    obtain ⟨m1, hstep, hrest⟩ := Option.bind_eq_some_iff.mp hrun
    exact ih (h.step hstep) hrest

end Stuck

/-- Under launch blocking a prefetch for a stream of its own is pushed to stream zero, where it
finds no request: it is started, and takes effect in no run behind. -/
theorem a_redirected_prefetch_takes_no_effect : ∃ m, (boot true 2).steps (fun _ _ => true)
    [.cudaStreamCreate, .cudaMemPrefetchAsync 0 0 4096 (some 1), .unblock 0, .push 0 false,
      .operation] = some m ∧ m.book 0 = [.pushed 0, .started 0] ∧ ¬ InOrder m ∧
      ∀ as m', m.steps (fun _ _ => true) as = some m' →
        in_order.performedOf (m'.book 0) = [] := by
  let m := (((((boot true 2).perform .cudaStreamCreate).perform
    (.cudaMemPrefetchAsync 0 0 4096 (some 1))).perform (.unblock 0)).perform
      (.push 0 false)).perform .operation
  have hbook : m.book 0 = [.pushed 0, .started 0] := by decide +kernel
  have hstuck : Stuck m := by
    refine ⟨rfl, by decide +kernel, by decide +kernel, by decide +kernel, rfl, ?_, rfl, rfl,
      by decide +kernel, by decide +kernel, by decide +kernel⟩
    have hslots : m.m_running_kernels = [none, none] := by decide +kernel
    simp [hslots]
  refine ⟨m, rfl, hbook, ?_, fun as m' hrun => (hstuck.steps hrun).performed⟩
  intro horder
  have hqueue : (m.stream 0).queue = ⟨[0], true, true⟩ := by decide +kernel
  have hrun := horder.orderly 0
  rw [hbook, hqueue] at hrun
  revert hrun
  decide

end Streams

end gpgpu_sim_uvm.stream_manager
