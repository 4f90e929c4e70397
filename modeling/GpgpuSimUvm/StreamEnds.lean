-- Kernels that end, prefetches that are fetched, grids that the device launches and calls that go
-- on: what each makes of the invariant of the streams.
import GpgpuSimUvm.StreamOrder

namespace gpgpu_sim_uvm.stream_manager

namespace Streams

/-! ## Kernels that end -/

section

variable {m : Streams} (h : Sound m)
include h

/-- A kernel keeps its parent and its children. -/
theorem Sound.rekernel {m' : Streams} {kernel : Nat → KernelInfo} (hm : m' = { m with kernel := kernel })
    (hparent : ∀ uid, (kernel uid).m_parent_kernel = (m.kernel uid).m_parent_kernel)
    (hchildren : ∀ uid, (kernel uid).m_child_kernels = (m.kernel uid).m_child_kernels) :
    Sound m' := by
  subst hm
  refine ⟨h.runs, h.booked.same rfl rfl, h.homes, ?_, ?_, ?_, ?_⟩
  · exact h.registered.keep rfl rfl rfl h.registered.last fun _ _ => rfl
  · refine ⟨h.gridded.numbered, h.gridded.entries, h.gridded.noted, h.gridded.apart, ?_,
      h.gridded.once, h.gridded.below, ?_, ?_⟩
    · exact fun uid huid => (hparent uid).trans (h.gridded.roots uid huid)
    · exact fun hfree s hs uid huid => (hparent uid).trans (h.gridded.parentless hfree s hs uid huid)
    · intro c hc hphase hhost uid huid
      exact (hparent uid).trans (h.gridded.hosted c hc hphase hhost uid huid)
  · exact ⟨h.prefetching.active, h.prefetching.awaited, h.prefetching.fresh⟩
  · refine ⟨h.called.made, h.called.live, h.called.grids, ?_, h.called.idle⟩
    intro l hl
    obtain ⟨p, hp, hchild⟩ := h.called.launches l hl
    exact ⟨p, hp, (hchildren p).symm ▸ hchild⟩

/-- Kernels move on between the lists of the launched ones, or leave them. -/
theorem Sound.relaunch {m' : Streams} {running : List (Option Nat)} {finished : List Nat}
    {functional : Option Nat}
    (hm : m' = { m with
      m_running_kernels := running, m_finished_kernel := finished,
      m_functional_sim_kernel := functional })
    (hlaunched : m'.launched.Subperm m.launched) : Sound m' := by
  subst hm
  refine ⟨h.runs, h.booked.same rfl rfl, h.homes, ?_, ?_, ?_, ?_⟩
  · exact h.registered.keep rfl rfl rfl h.registered.last fun _ _ => rfl
  · refine ⟨h.gridded.numbered, h.gridded.entries, ?_, ?_, ?_,
      h.gridded.once, h.gridded.below, h.gridded.parentless, h.gridded.hosted⟩
    · exact fun uid huid => h.gridded.noted uid (hlaunched.subset huid)
    · obtain ⟨l, hperm, hsub⟩ := hlaunched
      exact hperm.nodup_iff.mp (h.gridded.apart.sublist hsub)
    · exact fun uid huid => h.gridded.roots uid (hlaunched.subset huid)
  · exact ⟨h.prefetching.active, h.prefetching.awaited, h.prefetching.fresh⟩
  · exact ⟨h.called.made, h.called.live, h.called.grids, h.called.launches, h.called.idle⟩

/-- The streams of the CTAs of a kernel without children leave the registry. -/
theorem Sound.dropCtas {uid : Nat} (hchildren : (m.kernel uid).m_child_kernels = []) :
    Sound { m with m_cta_streams := m.m_cta_streams.filter fun c => decide (c.1 ≠ uid) } := by
  have hsub : (m.m_cta_streams.filter fun c => decide (c.1 ≠ uid)).Sublist m.m_cta_streams :=
    List.filter_sublist
  have hdevice : ∀ s, decide (s ∈ (m.m_cta_streams.filter fun c => decide (c.1 ≠ uid)).map Prod.snd) =
      true → m.deviceStream s = true := by
    intro s hs
    exact decide_eq_true ((hsub.map Prod.snd).subset (of_decide_eq_true hs))
  refine ⟨h.runs, h.booked.same rfl rfl, h.homes, ?_, ?_, ?_, ?_⟩
  · refine ⟨h.registered.positive, h.registered.once, h.registered.known, h.registered.unused,
      h.registered.last, ?_, ?_⟩
    · exact h.registered.ctas.sublist (hsub.map _)
    · exact fun c hc => h.registered.owned c (hsub.subset hc)
  · exact ⟨h.gridded.numbered, h.gridded.entries, h.gridded.noted, h.gridded.apart,
      h.gridded.roots, h.gridded.once, h.gridded.below, h.gridded.parentless, h.gridded.hosted⟩
  · exact ⟨h.prefetching.active, h.prefetching.awaited, h.prefetching.fresh⟩
  · refine ⟨fun c hc => h.called.made c (hsub.subset hc), ?_, h.called.grids, ?_, ?_⟩
    · intro c hc hphase s hs
      obtain ⟨hin, hhost⟩ := h.called.live c hc hphase s hs
      refine ⟨hin, fun hdev => ?_⟩
      rw [Bool.eq_false_iff]
      intro hyes
      have hno := hhost hdev
      rw [hdevice s hyes] at hno
      cases hno
    · intro l hl
      obtain ⟨p, hp, hchild⟩ := h.called.launches l hl
      refine ⟨p, List.mem_filter.mpr ⟨hp, decide_eq_true ?_⟩, hchild⟩
      rintro rfl
      rw [hchildren] at hchild
      cases hchild
    · exact fun hfree s hs => h.called.idle hfree s (hdevice s hs)

/-- Empty streams that the device left are destroyed one by one. -/
theorem Sound.destroy_streams {ss : List Nat} (hnodup : ss.Nodup)
    (hss : ∀ s ∈ ss, s ∈ m.m_streams ∧ m.empty s = true ∧ m.deviceStream s = false ∧
      ∀ c ∈ m.calls, c.phase ≠ .waiting → c.op.m_stream ≠ some s) :
    Sound (ss.foldl Streams.destroy_stream m) := by
  induction ss generalizing m with
  | nil => exact h
  | cons s ss ih =>
    obtain ⟨hnot, hrest⟩ := List.nodup_cons.mp hnodup
    obtain ⟨hmem, hempty, hdevice, hcalls⟩ := hss s List.mem_cons_self
    obtain ⟨hsound, hsame⟩ := h.destroy_stream hmem hempty hdevice hcalls
    rw [List.foldl_cons]
    refine ih hsound hrest fun t ht => ?_
    obtain ⟨htmem, htempty, htdevice, htcalls⟩ := hss t (List.mem_cons_of_mem _ ht)
    refine ⟨(List.mem_erase_of_ne ?_).mpr htmem, ?_, htdevice, htcalls⟩
    · rintro rfl
      exact hnot ht
    · rw [empty, hsame]
      exact htempty

theorem Sound.destroy_cta_streams {uid : Nat} (hfree : m.gpuFree = true)
    (hchildren : (m.kernel uid).m_child_kernels = []) : Sound (m.destroy_cta_streams uid) := by
  have hctas := h.registered.ctas
  rw [Streams.destroy_cta_streams]
  refine (h.dropCtas hchildren).destroy_streams (hctas.sublist (List.filter_sublist.map _)) ?_
  intro s hs
  obtain ⟨c, hc, rfl⟩ := List.mem_map.mp hs
  obtain ⟨hin, huid⟩ := List.mem_filter.mp hc
  have hdevice : m.deviceStream c.2 = true := decide_eq_true (List.mem_map_of_mem hin)
  refine ⟨h.registered.owned c hin, h.called.idle hfree c.2 hdevice, ?_, ?_⟩
  · -- each stream belongs to one CTA
    refine decide_eq_false fun hmem => ?_
    obtain ⟨d, hd, heq⟩ := List.mem_map.mp hmem
    obtain ⟨hdin, hduid⟩ := List.mem_filter.mp hd
    have hsame := List.inj_on_of_nodup_map hctas hdin hin heq
    rw [hsame] at hduid
    exact of_decide_eq_true hduid (of_decide_eq_true huid)
  · intro d hd hphase heq
    obtain ⟨-, hhost⟩ := h.called.live d hd hphase c.2 heq
    rw [hhost ((gpuFree_iff (m := m)).mp hfree d hd)] at hdevice
    cases hdevice

omit h in
theorem assert_true {b : Bool} (hb : b = true) : m.assert b = m := by
  simp [assert, hb]

omit h in
/-- The operation in front leaves a stream that has it in hand. -/
theorem record_next_done_eq {s : Nat} {op : StreamOperation} (hop : m.head s = some op)
    (hbusy : m.busy s = true) : m.record_next_done s =
      (m.note s (.finished op.number)).setStream s
        { m_operations := (m.stream s).m_operations.tail } := by
  simp only [Streams.record_next_done, hop, assert_true hbusy]

omit h in
theorem cancel_front_eq {s : Nat} {op : StreamOperation} (hop : m.head s = some op)
    (hbusy : m.busy s = true) : m.cancel_front s =
      (m.note s (.cancelled op.number)).setStream s { m.stream s with m_pending := false } := by
  simp only [Streams.cancel_front, hop, assert_true hbusy]

omit h in
theorem run_finished {s : Nat} {op : StreamOperation} (hop : m.head s = some op)
    (hbusy : m.busy s = true) : in_order.run (m.stream s).queue [.finished op.number] =
      some (CUstream.queue { m_operations := (m.stream s).m_operations.tail }) := by
  obtain ⟨rest, hrest⟩ := List.head?_eq_some_iff.mp hop
  rw [busy] at hbusy
  simp [in_order.run, in_order.Queue.next, CUstream.queue, hrest, hbusy]

/-- Only the stream of an entry has its grid in front. -/
theorem Sound.entry_unique {uid uid' s : Nat} (hs : m.m_grid_id_to_stream uid = some s)
    (hs' : m.m_grid_id_to_stream uid' = some s) : uid = uid' := by
  have hfront := (h.gridded.entries uid s hs).2
  have hfront' := (h.gridded.entries uid' s hs').2
  exact Option.some.inj (hfront.symm.trans hfront')

/-- The end of a launched kernel with nothing left is registered. -/
theorem Sound.finish_kernel {uid s : Nat} (hs : m.m_grid_id_to_stream uid = some s)
    (hout : uid ∉ m.launched) (hfree : m.gpuFree = true)
    (hchildren : (m.kernel uid).m_child_kernels = []) :
    Sound (((m.record_next_done s).eraseGrid uid).destroy_cta_streams uid) := by
  obtain ⟨hbusy, hfront⟩ := h.gridded.entries uid s hs
  obtain ⟨op, hop, hgrid⟩ := Option.bind_eq_some_iff.mp hfront
  have hlive : m.Live s := h.live_of_busy hbusy
  have hnone : m.prefetching s = [] := by
    have hrange : op.range = none := by
      cases op with
      | mk type _ _ => cases type <;> simp_all [StreamOperation.grid, StreamOperation.range]
    simp [Streams.prefetching, hop, hrange]
  have hpop : Sound ((m.record_next_done s).eraseGrid uid) := by
    rw [record_next_done_eq hop hbusy]
    apply h.pop hlive (run_finished hop hbusy) rfl rfl rfl
    · intro uid' t ht
      simp only [eraseGrid, setStream, note, Function.update_apply] at ht
      split_ifs at ht with hne
      refine ⟨?_, ht⟩
      rintro rfl
      exact hne (h.entry_unique ht hs)
    · exact List.Sublist.refl _
    · intro uid' huid'
      simp only [eraseGrid, setStream, note, Function.update_apply]
      rw [if_neg]
      · exact h.gridded.noted uid' huid'
      · rintro rfl
        exact hout huid'
    · intro t
      split_ifs with ht
      · rw [ht, ← hnone]
        exact h.prefetching.active s
      · exact h.prefetching.active t
    · exact fun _ _ _ => Nat.le_refl _
    · exact fun _ hq => hq
  have hkernel : ((m.record_next_done s).eraseGrid uid).kernel = m.kernel := by
    rw [record_next_done_eq hop hbusy]
    rfl
  have hcalls : ((m.record_next_done s).eraseGrid uid).gpuFree = m.gpuFree := by
    rw [record_next_done_eq hop hbusy]
    rfl
  exact hpop.destroy_cta_streams (hcalls.trans hfree) (by rw [hkernel]; exact hchildren)

omit h in
theorem kernel_record_next_done (s : Nat) : (m.record_next_done s).kernel = m.kernel := by
  rw [Streams.record_next_done]
  split <;> rfl

omit h in
theorem register_finished_kernel_zero {n : Nat} (hn : n ≠ 0) :
    register_finished_kernel n m 0 = (m, false) := by
  obtain ⟨n, rfl⟩ := Nat.exists_eq_succ_of_ne_zero hn
  rfl

omit h in
/-- A kernel without a parent, in front of the stream of its entry. -/
theorem register_finished_kernel_eq {uid s n : Nat} (hn : n ≠ 0) (huid : uid ≠ 0)
    (hs : m.m_grid_id_to_stream uid = some s) (hfront : m.frontGrid s = some uid)
    (hroot : (m.kernel uid).m_parent_kernel = none) :
    register_finished_kernel n m uid =
      if (m.kernel uid).is_finished then
        (((m.record_next_done s).eraseGrid uid).destroy_cta_streams uid, true)
      else (m, false) := by
  obtain ⟨n, rfl⟩ := Nat.exists_eq_succ_of_ne_zero hn
  rw [frontGrid] at hfront
  have hkernel : (((m.record_next_done s).eraseGrid uid).kernel uid).m_parent_kernel = none := by
    have hkeep := congrFun (kernel_record_next_done (m := m) s) uid
    rw [← hroot, ← hkeep]
    rfl
  simp only [register_finished_kernel, if_neg huid, hs, hfront, decide_true, assert_true rfl,
    hkernel]

/-- A kernel that was launched and is in no list any more ends. -/
theorem Sound.register_finished_kernel {uid s n : Nat} (hn : n ≠ 0)
    (hs : m.m_grid_id_to_stream uid = some s) (hroot : (m.kernel uid).m_parent_kernel = none)
    (hout : uid ∉ m.launched) (hfree : m.gpuFree = true) :
    Sound (Streams.register_finished_kernel n m uid).1 := by
  by_cases huid : uid = 0
  · rw [huid, register_finished_kernel_zero hn]
    exact h
  · rw [register_finished_kernel_eq hn huid hs (h.gridded.entries uid s hs).2 hroot]
    split_ifs with hfinished
    · rw [KernelInfo.is_finished, Bool.and_eq_true, List.isEmpty_iff] at hfinished
      exact h.finish_kernel hs hout hfree hfinished.2
    · exact h

/-- The kernel behind a launched grid is taken out of the lists, and its end is registered. -/
theorem Sound.take_out {m' : Streams} {running : List (Option Nat)} {finished : List Nat}
    {functional : Option Nat} (uid : Nat) {n : Nat}
    (hm : m' = { m with
      m_running_kernels := running, m_finished_kernel := finished,
      m_functional_sim_kernel := functional })
    (hlaunched : m.launched.Perm (uid :: m'.launched)) (hn : n ≠ 0) (hfree : m.gpuFree = true) :
    Sound m' ∧ Sound (Streams.register_finished_kernel n m' uid).1 := by
  have huid : uid ∈ m.launched := hlaunched.mem_iff.mpr List.mem_cons_self
  obtain ⟨s, hs, -⟩ := h.launched_front huid
  have hnodup := hlaunched.nodup_iff.mp h.gridded.apart
  have hkeep := h.relaunch hm ((List.sublist_cons_self _ _).subperm.trans hlaunched.symm.subperm)
  refine ⟨hkeep, hkeep.register_finished_kernel (s := s) hn ?_ ?_ (List.nodup_cons.mp hnodup).1 ?_⟩
  · rw [hm]
    exact hs
  · rw [hm]
    exact h.gridded.roots uid huid
  · rw [hm]
    exact hfree

theorem Sound.check_finished_kernel (hfree : m.gpuFree = true) :
    Sound m.check_finished_kernel.1 := by
  rw [Streams.check_finished_kernel]
  have hn : m.kernel_info_m_next_uid ≠ 0 := Nat.ne_of_gt h.gridded.numbered
  cases hlist : m.m_finished_kernel with
  | nil =>
    rw [List.headD_nil, register_finished_kernel_zero hn]
    apply h.relaunch rfl
    rw [launched, launched, hlist]
    exact List.Subperm.refl _
  | cons uid rest =>
    refine (h.take_out uid rfl ?_ hn hfree).2
    simp [launched, hlist]

omit h in
theorem destroy_streams_functional (ss : List Nat) (functional : Option Nat) :
    ss.foldl Streams.destroy_stream { m with m_functional_sim_kernel := functional } =
      { ss.foldl Streams.destroy_stream m with m_functional_sim_kernel := functional } := by
  induction ss generalizing m with
  | nil => rfl
  | cons s ss ih => exact ih (m := m.destroy_stream s)

/-- The kernel that ran functionally is over. -/
theorem Sound.functional_sim (hguard : m.guard .functional_sim = true) :
    Sound (m.perform .functional_sim) := by
  simp only [guard, Bool.and_eq_true] at hguard
  obtain ⟨⟨hfree, hsome⟩, -⟩ := hguard
  obtain ⟨uid, hrun⟩ := Option.isSome_iff_exists.mp hsome
  have hn : m.kernel_info_m_next_uid ≠ 0 := Nat.ne_of_gt h.gridded.numbered
  let m1 : Streams :=
    { m with kernel := Function.update m.kernel uid { m.kernel uid with done := true } }
  have h1 : Sound m1 := by
    apply h.rekernel rfl
    · intro k
      by_cases hk : k = uid
      · subst hk
        simp
      · simp [hk]
    · intro k
      by_cases hk : k = uid
      · subst hk
        simp
      · simp [hk]
  have hout : m1.launched.Perm
      (uid :: ({ m1 with m_functional_sim_kernel := none } : Streams).launched) := by
    simp only [launched, m1, hrun, Option.toList_some, Option.toList_none, List.append_nil]
    exact List.perm_append_singleton _ _
  have hend := (h1.take_out uid rfl hout hn hfree).2
  have huid : uid ∈ m1.launched := hout.mem_iff.mpr List.mem_cons_self
  obtain ⟨s, hs, -, hbusy, hfront⟩ := h1.launched_front huid
  have hroot := h1.gridded.roots uid huid
  -- the registration does not look at the kernel that ran
  have hsame : m.perform .functional_sim =
      (Streams.register_finished_kernel m.kernel_info_m_next_uid
        { m1 with m_functional_sim_kernel := none } uid).1 := by
    simp only [perform]
    split
    · rename_i hnone
      rw [hrun] at hnone
      cases hnone
    rename_i k hk
    cases hrun.symm.trans hk
    change ({ (Streams.register_finished_kernel m.kernel_info_m_next_uid m1 uid).1 with
      m_functional_sim_kernel := none } : Streams) = _
    by_cases hzero : uid = 0
    · rw [hzero, register_finished_kernel_zero hn, register_finished_kernel_zero hn]
    · rw [register_finished_kernel_eq hn hzero hs hfront hroot,
        register_finished_kernel_eq (m := { m1 with m_functional_sim_kernel := none }) hn hzero hs
          hfront hroot]
      obtain ⟨op, hop, -⟩ := Option.bind_eq_some_iff.mp hfront
      rw [record_next_done_eq hop hbusy,
        record_next_done_eq (m := { m1 with m_functional_sim_kernel := none }) hop hbusy]
      change _ = (if (m1.kernel uid).is_finished then _ else _ : Streams × Bool).1
      split_ifs
      · exact (destroy_streams_functional _ _).symm
      · rfl
  rw [hsame]
  exact hend

/-- A running kernel is done, and waits for the manager. -/
theorem Sound.set_kernel_done {uid : Nat} {complete : Bool}
    (hguard : m.guard (.set_kernel_done uid complete) = true) :
    Sound (m.perform (.set_kernel_done uid complete)) := by
  simp only [guard, Bool.and_eq_true, decide_eq_true_eq] at hguard
  have hrunning := hguard.2
  -- the kernel runs in one slot
  have hperm : ∀ l : List (Option Nat), (l.filterMap id).Nodup → some uid ∈ l →
      (l.filterMap id).Perm (uid :: (l.map fun k => if k = some uid then none else k).filterMap id) := by
    intro l hnodup hmem
    induction l with
    | nil => cases hmem
    | cons k l ih =>
      have hrest : (l.filterMap id).Nodup := hnodup.sublist ((List.sublist_cons_self k l).filterMap _)
      by_cases hk : k = some uid
      · subst hk
        have hnot : uid ∉ l.filterMap id := (List.nodup_cons.mp hnodup).1
        have hsame : (l.map fun k => if k = some uid then none else k) = l := by
          refine (List.map_congr_left fun k hk => if_neg ?_).trans (List.map_id _)
          rintro rfl
          exact hnot (List.mem_filterMap.mpr ⟨some uid, hk, rfl⟩)
        rw [List.map_cons, if_pos rfl, hsame]
        exact List.Perm.refl _
      · have hl : some uid ∈ l := (List.mem_cons.mp hmem).resolve_left (Ne.symm hk)
        rw [List.map_cons, if_neg hk]
        cases k with
        | none => exact ih hrest hl
        | some v => exact ((ih hrest hl).cons v).trans (List.Perm.swap _ _ _)
  have hdone : Sound { m with
      m_running_kernels := m.m_running_kernels.map fun k => if k = some uid then none else k
      m_finished_kernel := m.m_finished_kernel ++ [uid] } := by
    apply h.relaunch rfl
    refine List.Perm.subperm ?_
    have hnodup : (m.m_running_kernels.filterMap id).Nodup :=
      h.gridded.apart.sublist
        ((List.sublist_append_right _ _).trans (List.sublist_append_left _ _))
    simp only [launched, List.append_assoc, List.singleton_append]
    refine List.Perm.append_left _ ?_
    exact (hperm _ hnodup hrunning).symm.append_right _
  apply hdone.rekernel rfl
  · intro k
    by_cases hk : k = uid
    · subst hk
      simp
    · simp [hk]
  · intro k
    by_cases hk : k = uid
    · subst hk
      simp
    · simp [hk]

end

/-! ## The GMMU -/

section

variable {m : Streams} (h : Sound m)
include h

/-- The GMMU works on the active request in front. -/
theorem Sound.prefetch_advance {n : Nat} (hguard : m.guard (.prefetch_advance n) = true) :
    Sound (m.perform (.prefetch_advance n)) := by
  simp only [guard, Bool.and_eq_true] at hguard
  obtain ⟨-, hfront⟩ := hguard
  simp only [perform]
  cases hbuffer : m.prefetch_req_buffer with
  | nil =>
    rw [hbuffer] at hfront
    cases hfront
  | cons q rest =>
    rw [hbuffer, List.head?_cons, Option.any_some, Bool.and_eq_true] at hfront
    obtain ⟨hactive, -⟩ := hfront
    have hold := h.prefetching
    refine ⟨h.runs, h.booked.same rfl rfl, h.homes, ?_, ?_, ?_, ?_⟩
    · exact h.registered.keep rfl rfl rfl h.registered.last fun _ _ => rfl
    · exact ⟨h.gridded.numbered, h.gridded.entries, h.gridded.noted, h.gridded.apart,
        h.gridded.roots, h.gridded.once, h.gridded.below, h.gridded.parentless, h.gridded.hosted⟩
    · refine ⟨?_, ?_, ?_⟩
      · intro s
        refine Eq.trans ?_ (hold.active s)
        rw [hbuffer]
        by_cases hs : q.m_stream = s
        · simp [hactive, hs]
        · simp [hs]
      · intro addr cnt s
        refine Nat.le_trans (hold.awaited addr cnt s) (Nat.le_of_eq ?_)
        rw [hbuffer]
        simp [hactive]
      · intro r hr hidle
        rcases List.mem_cons.mp hr with rfl | hr
        · rw [show q.active = false from hidle] at hactive
          cases hactive
        · exact hold.fresh r (hbuffer ▸ List.mem_cons_of_mem _ hr) hidle
    · exact ⟨h.called.made, h.called.live, h.called.grids, h.called.launches, h.called.idle⟩

/-- The request in front is fetched, and the prefetch in front of its stream is over. -/
theorem Sound.prefetch_done (hguard : m.guard .prefetch_done = true) :
    Sound (m.perform .prefetch_done) := by
  simp only [guard, Bool.and_eq_true] at hguard
  obtain ⟨-, hfront⟩ := hguard
  simp only [perform]
  cases hbuffer : m.prefetch_req_buffer with
  | nil =>
    rw [hbuffer] at hfront
    cases hfront
  | cons q rest =>
    rw [hbuffer, List.head?_cons, Option.any_some, Bool.and_eq_true] at hfront
    obtain ⟨hq, -⟩ := hfront
    have hone := h.prefetching.active q.m_stream
    rw [hbuffer, List.filter_cons_of_pos (by simp [hq]), List.map_cons] at hone
    -- the stream of the request has the prefetch in hand
    have hbusy : m.busy q.m_stream = true := by
      by_contra hnot
      rw [Streams.prefetching, if_neg hnot] at hone
      cases hone
    rw [Streams.prefetching, if_pos hbusy] at hone
    cases hhead : m.head q.m_stream with
    | none =>
      rw [hhead] at hone
      cases hone
    | some op =>
      rw [hhead, Option.bind_some] at hone
      have hlive : m.Live q.m_stream := h.live_of_busy hbusy
      cases hrange : op.range with
      | none =>
        rw [hrange] at hone
        cases hone
      | some range =>
        rw [hrange, Option.toList_some, List.cons_eq_cons, List.map_eq_nil_iff] at hone
        have hgrid : m.frontGrid q.m_stream = none := by
          rw [frontGrid, hhead, Option.bind_some]
          cases op with
          | mk type _ _ => cases type <;> simp_all [StreamOperation.grid, StreamOperation.range]
        change Sound { m.record_next_done q.m_stream with prefetch_req_buffer := rest }
        rw [record_next_done_eq hhead hbusy]
        apply h.pop hlive (run_finished hhead hbusy) rfl rfl rfl
        · intro uid t ht
          refine ⟨?_, ht⟩
          rintro rfl
          rw [(h.gridded.entries uid _ ht).2] at hgrid
          cases hgrid
        · exact List.Sublist.refl _
        · exact h.gridded.noted
        · intro t
          split_ifs with ht
          · rw [ht, List.map_eq_nil_iff]
            exact hone.2
          · rw [← h.prefetching.active t, hbuffer, List.filter_cons_of_neg]
            simp [Ne.symm ht]
        · intro addr cnt t
          rw [hbuffer, List.countP_cons]
          simp [hq]
        · intro r hr
          rw [hbuffer]
          exact List.mem_cons_of_mem _ hr

end

/-! ## The device -/

section

variable {m : Streams} (h : Sound m)
include h

theorem Sound.device_grid {parent latency s : Nat} {sim_mode : Bool}
    (hguard : m.guard (.device_grid parent latency s sim_mode) = true) :
    Sound (m.perform (.device_grid parent latency s sim_mode)) := by
  simp only [guard, Bool.and_eq_true, decide_eq_true_eq] at hguard
  obtain ⟨⟨-, hruns⟩, hcta⟩ := hguard
  have hparent : parent < m.kernel_info_m_next_uid := h.launched_lt (mem_launched_of_runs hruns)
  let m' := m.perform (.device_grid parent latency s sim_mode)
  -- an older kernel keeps its parent
  have hold : ∀ uid, uid < m.kernel_info_m_next_uid →
      (m'.kernel uid).m_parent_kernel = (m.kernel uid).m_parent_kernel := by
    intro uid huid
    simp only [m', perform, Streams.newKernel, Function.update_apply]
    rw [if_neg (Nat.ne_of_lt hparent)]
    split_ifs with hp hn
    · rw [hp]
    · exact absurd hn (Nat.ne_of_lt huid)
    · rfl
  have hchildren : ∀ uid, uid < m.kernel_info_m_next_uid → ∀ c ∈ (m.kernel uid).m_child_kernels,
      c ∈ (m'.kernel uid).m_child_kernels := by
    intro uid huid c hc
    simp only [m', perform, Streams.newKernel, Function.update_apply]
    rw [if_neg (Nat.ne_of_lt hparent)]
    split_ifs with hp hn
    · rw [hp] at hc
      exact List.mem_append_left _ hc
    · exact absurd hn (Nat.ne_of_lt huid)
    · exact hc
  have hchild : m.kernel_info_m_next_uid ∈ (m'.kernel parent).m_child_kernels := by
    simp [m', perform]
  have hgrids : m'.grids = m.grids ++ [m.kernel_info_m_next_uid] := by
    simp only [m', perform, Streams.newKernel, grids, gridsAhead, List.map_append, List.map_cons,
      List.map_nil, List.append_assoc]
    rfl
  refine ⟨h.runs, h.booked.same rfl rfl, h.homes, ?_, ?_, ?_, ?_⟩
  · exact h.registered.keep rfl rfl rfl h.registered.last fun _ _ => rfl
  · refine ⟨Nat.succ_pos _, h.gridded.entries, h.gridded.noted, h.gridded.apart, ?_, ?_, ?_, ?_, ?_⟩
    · exact fun uid huid => (hold uid (h.launched_lt huid)).trans (h.gridded.roots uid huid)
    · rw [hgrids]
      refine List.nodup_append.mpr ⟨h.gridded.once, List.nodup_singleton _, ?_⟩
      intro a ha b hb heq
      rw [heq, List.mem_singleton.mp hb] at ha
      exact lt_irrefl _ (h.gridded.below _ ha)
    · intro uid huid
      rw [hgrids] at huid
      rcases List.mem_append.mp huid with huid | huid
      · exact Nat.lt_succ_of_lt (h.gridded.below uid huid)
      · rw [List.mem_singleton.mp huid]
        exact Nat.lt_succ_self _
    · intro hfree t ht uid huid
      refine (hold uid ?_).trans (h.gridded.parentless hfree t ht uid huid)
      exact h.gridded.below uid (mem_grids_of_mem_gridsIn ht huid)
    · intro c hc hphase hhost uid huid
      refine (hold uid ?_).trans (h.gridded.hosted c hc hphase hhost uid huid)
      exact h.gridded.below uid (mem_grids_of_call (m := m) hc hphase huid)
  · exact ⟨h.prefetching.active, h.prefetching.awaited, h.prefetching.fresh⟩
  · refine ⟨?_, h.called.live, h.called.grids, ?_, h.called.idle⟩
    · exact fun c hc => Nat.lt_succ_of_lt (h.called.made c hc)
    · intro l hl
      rcases List.mem_append.mp hl with hl | hl
      · obtain ⟨p, hp, hmem⟩ := h.called.launches l hl
        exact ⟨p, hp, hchildren p (h.called.made _ hp) _ hmem⟩
      · rw [List.mem_singleton.mp hl]
        exact ⟨parent, hcta, hchild⟩

theorem Sound.launch_one_device_kernel {sim_mode : Bool} :
    Sound (m.perform (.launch_one_device_kernel sim_mode)) := by
  simp only [perform]
  cases hlist : m.g_cuda_device_launch_op with
  | nil => exact h
  | cons l rest =>
    obtain ⟨child, s⟩ := l
    have hperm : m.grids.Perm
        (child :: ({ m with g_cuda_device_launch_op := rest } : Streams).grids) := by
      simp only [grids, gridsAhead, hlist, List.map_cons]
      exact (List.perm_middle.append_left _).trans List.perm_middle
    have hnodup := hperm.nodup_iff.mp h.gridded.once
    have hrest : Sound { m with g_cuda_device_launch_op := rest } := by
      refine ⟨h.runs, h.booked.same rfl rfl, h.homes, ?_, ?_, ?_, ?_⟩
      · exact h.registered.keep rfl rfl rfl h.registered.last fun _ _ => rfl
      · refine ⟨h.gridded.numbered, h.gridded.entries, h.gridded.noted, h.gridded.apart,
          h.gridded.roots, (List.nodup_cons.mp hnodup).2, ?_, h.gridded.parentless,
          h.gridded.hosted⟩
        exact fun uid huid => h.gridded.below uid (hperm.mem_iff.mpr (List.mem_cons_of_mem _ huid))
      · exact ⟨h.prefetching.active, h.prefetching.awaited, h.prefetching.fresh⟩
      · refine ⟨h.called.made, h.called.live, h.called.grids, ?_, h.called.idle⟩
        exact fun l hl => h.called.launches l (hlist ▸ List.mem_cons_of_mem _ hl)
    apply hrest.beginPush
    · intro uid huid
      cases huid
      refine ⟨(List.nodup_cons.mp hnodup).1, ?_, fun hhost => by cases hhost⟩
      exact h.gridded.below child (hperm.mem_iff.mpr List.mem_cons_self)
    · intro t ht
      cases ht
      obtain ⟨p, hp, -⟩ := h.called.launches (child, s) (hlist ▸ List.mem_cons_self)
      exact ⟨h.registered.owned _ hp, fun hhost => by cases hhost⟩
    · exact fun _ => rfl
    · exact fun _ _ hask => absurd hask (by simp [StreamOperation.isPrefetch])

/-! ## The calls that go on -/

theorem Sound.unblock {i : Nat} (hguard : m.guard (.unblock i) = true) :
    Sound (m.perform (.unblock i)) := by
  simp only [guard, Bool.and_eq_true, Option.any_eq_true] at hguard
  obtain ⟨⟨c, hi, hphase⟩, -⟩ := hguard
  obtain ⟨pre, post, hc, rfl⟩ := calls_split hi
  have hready : (m.perform (.unblock pre.length)) =
      { m with calls := pre ++ [{ c with phase := .ready }] ++ post } := by
    simp [perform, hc, List.modify_eq_take_cons_drop]
  rw [hready]
  apply h.recall hc
  · rw [coming_split (m := m) hc]
    simp_all [coming]
  · intro d hd
    rw [List.mem_singleton.mp hd]
    exact ⟨rfl, rfl, fun _ => by simp_all⟩
  · intro hfree
    left
    rw [gpuFree_iff] at hfree ⊢
    rw [hc]
    simp only [List.mem_append, List.mem_cons, List.not_mem_nil, or_false] at hfree ⊢
    rintro d (hd | rfl | hd)
    · exact hfree d (Or.inl (Or.inl hd))
    · exact hfree { d with phase := .ready } (Or.inl (Or.inr rfl))
    · exact hfree d (Or.inr hd)

theorem Sound.leave {i : Nat} (hguard : m.guard (.leave i) = true) :
    Sound (m.perform (.leave i)) := by
  simp only [guard, Bool.and_eq_true, Option.any_eq_true] at hguard
  obtain ⟨⟨c, hi, hphase⟩, hempty⟩ := hguard
  obtain ⟨pre, post, hc, rfl⟩ := calls_split hi
  have hout : (m.perform (.leave pre.length)) = { m with calls := pre ++ [] ++ post } := by
    simp [perform, hc, List.eraseIdx_append_of_length_le]
  rw [hout]
  apply h.recall hc
  · rw [coming_split (m := m) hc]
    simp_all [coming]
  · exact fun d hd => absurd hd List.not_mem_nil
  · exact fun _ => Or.inr hempty

end

end Streams

end gpgpu_sim_uvm.stream_manager
