-- The laws of the access queue: an instruction leaves the dispatch register
-- once each of its accesses has left the unit, and none leaves twice. An L1
-- without latency is given the access at the back while the queue loses the
-- one in front, so it keeps the law only for the last access of a queue.
import GpgpuSimUvm.Frames

namespace gpgpu_sim_uvm

open monitor

/-- An L1 without latency takes an access only when it is the last. -/
def Event.takesLast : Event → Bool
  | .direct_access queued => decide (queued = 1)
  | _ => true

/-- The instructions of a unit have lost no access and sent none twice. -/
structure Accounted (u : Ldst) : Prop where
  issued : ∀ w ∈ u.issued, (w.accessq.map MemAccess.uid).Nodup
  distinct : (u.dispatched.map MemAccess.uid).Nodup
  queue : ∀ w, u.m_dispatch_reg = some w → (u.sent ++ w.accessq).Perm u.dispatched

/-- Every unit is accounted for, and so was every instruction that left. -/
structure LeftOnce (g : Gpu) : Prop where
  units : ∀ sid, Accounted (g.ldst sid)
  retired : ∀ r ∈ g.retired, r.2.Perm r.1 ∧ (r.1.map MemAccess.uid).Nodup

/-- What the law reads of a unit. -/
def Ldst.instructions (u : Ldst) :
    List WarpInst × Option WarpInst × List MemAccess × List MemAccess :=
  (u.issued, u.m_dispatch_reg, u.dispatched, u.sent)

theorem Accounted.same {u u' : Ldst} (h : Accounted u) (hu : u'.instructions = u.instructions) :
    Accounted u' := by
  simp only [Ldst.instructions, Prod.mk.injEq] at hu
  obtain ⟨h1, h2, h3, h4⟩ := hu
  refine ⟨?_, ?_, ?_⟩
  · rw [h1]
    exact h.issued
  · rw [h3]
    exact h.distinct
  · rw [h2, h3, h4]
    exact h.queue

section

variable {g g' : Gpu}

theorem LeftOnce.same (h : LeftOnce g) (hretired : g'.retired = g.retired)
    (hunits : ∀ s, (g'.ldst s).instructions = (g.ldst s).instructions) : LeftOnce g' := by
  refine ⟨?_, ?_⟩
  · intro sid
    exact (h.units sid).same (hunits sid)
  · rw [hretired]
    exact h.retired

/-- A step of one unit. -/
theorem LeftOnce.unit (h : LeftOnce g) {sid : Nat} {u : Ldst} (hretired : g'.retired = g.retired)
    (hunits : g'.ldst = setLdst g sid u) (hu : Accounted u) : LeftOnce g' := by
  refine ⟨?_, ?_⟩
  · intro s
    rw [hunits]
    by_cases hs : s = sid
    · rw [hs, setLdst_self]
      exact hu
    · rw [setLdst_ne g u hs]
      exact h.units s
  · rw [hretired]
    exact h.retired

end

variable (cfg : Config)

/-! ## The two halves of a cycle -/

/-- The access in front leaves for the GMMU. -/
theorem LeftOnce.tlbMiss {g : Gpu} (h : LeftOnce g) (sid : Nat) {w : WarpInst} {a : MemAccess}
    {rest : List MemAccess} (hw : (g.ldst sid).m_dispatch_reg = some w)
    (hq : w.accessq = a :: rest) : LeftOnce (tlbMiss g sid w a rest) := by
  have hunit := h.units sid
  refine h.unit (by rfl) (by rfl) ?_
  refine ⟨hunit.issued, hunit.distinct, ?_⟩
  rintro w' hw'
  cases hw'
  have hperm := hunit.queue w hw
  rw [hq] at hperm
  simpa using hperm

theorem LeftOnce.access_cycle {g : Gpu} (h : LeftOnce g) (sid : Nat) :
    LeftOnce (access_cycle cfg g sid).1 := by
  have hmet : ∀ a rest, LeftOnce (meetAccesses cfg g sid a rest) :=
    fun _ _ => h.same rfl fun _ => rfl
  have hnoted : ∀ a rest, LeftOnce (noteAccess cfg (meetAccesses cfg g sid a rest) a rest) :=
    fun _ _ => h.same rfl fun _ => rfl
  have hcase := access_cycle_cases cfg g sid
  generalize gpgpu_sim_uvm.access_cycle cfg g sid = s at hcase ⊢
  cases hcase with
  | idle => exact h
  | passes => exact hmet _ _
  | @hits w a rest =>
    apply (hnoted a rest).same
    · rw [tlbHit_frame]
    · exact tlbHit_unit cfg Ldst.instructions (fun _ _ _ => rfl) _ sid a
  | misses hw hq => exact (hnoted _ _).tlbMiss sid hw hq

/-- The accesses that go down are those that the queue loses, unless an L1
without latency takes one from behind. -/
theorem sentAccesses_perm {w : WarpInst} {p : Port}
    (hlast : isDirect cfg w.info = true → sentAccesses cfg w p ≠ [] → w.accessq.length = 1) :
    (sentAccesses cfg w p ++ w.accessq.drop (drained cfg w p)).Perm w.accessq := by
  by_cases hdirect : isDirect cfg w.info = true
  · by_cases hnone : sentAccesses cfg w p = []
    · have hdrained : drained cfg w p = 0 ∨ w.accessq = [] := by
        simpa [sentAccesses, hdirect] using hnone
      rw [hnone]
      rcases hdrained with h0 | h0 <;> simp [h0]
    · obtain ⟨a, ha⟩ := List.length_eq_one_iff.mp (hlast hdirect hnone)
      have hpos : drained cfg w p ≠ 0 := by
        intro h0
        simp [sentAccesses, hdirect, h0] at hnone
      obtain ⟨n, hn⟩ := Nat.exists_eq_succ_of_ne_zero hpos
      simp [sentAccesses, hdirect, ha, hn]
  · simp [sentAccesses, hdirect]

theorem drainQueue_history (g : Gpu) (sid : Nat) (w : WarpInst) (p : Port) :
    (drainQueue cfg g sid w p).history =
      ((sentAccesses cfg w p).flatMap (sentEvents cfg g sid w p)).reverse ++ g.history := by
  unfold drainQueue
  rw [releaseIf_frame]
  rfl

theorem drainQueue_ldst (g : Gpu) (sid : Nat) (w : WarpInst) (p : Port) :
    (drainQueue cfg g sid w p).ldst = (sendAccesses cfg g sid w p).ldst := by
  unfold drainQueue
  rw [releaseIf_frame]

theorem LeftOnce.drainQueue {g : Gpu} (h : LeftOnce g) {sid : Nat} {w : WarpInst} {p : Port}
    (hw : (g.ldst sid).m_dispatch_reg = some w)
    (hok : ∀ e ∈ (drainQueue cfg g sid w p).history, e.takesLast = true) :
    LeftOnce (drainQueue cfg g sid w p) := by
  have hunit := h.units sid
  have hretired : (gpgpu_sim_uvm.drainQueue cfg g sid w p).retired = g.retired := by
    unfold gpgpu_sim_uvm.drainQueue
    rw [releaseIf_frame]
    rfl
  refine h.unit hretired (drainQueue_ldst cfg g sid w p) ?_
  refine ⟨hunit.issued, hunit.distinct, ?_⟩
  rintro w' hw'
  cases hw'
  have hsent : (sentAccesses cfg w p ++ w.accessq.drop (drained cfg w p)).Perm w.accessq := by
    apply sentAccesses_perm
    intro hdirect hsome
    obtain ⟨a, ha⟩ := List.exists_mem_of_ne_nil _ hsome
    have hevent : Event.direct_access w.accessq.length ∈ sentEvents cfg g sid w p a := by
      simp [sentEvents, hdirect]
    rw [drainQueue_history] at hok
    have hlogged := hok _ (List.mem_append_left _
      (List.mem_reverse.mpr (List.mem_flatMap.mpr ⟨a, ha, hevent⟩)))
    simpa [Event.takesLast] using hlogged
  rw [List.append_assoc]
  exact (hsent.append_left _).trans (hunit.queue w hw)

/-- A memory cycle keeps the law, and its instruction is done only when its
queue is empty. -/
theorem LeftOnce.memory_cycle {g : Gpu} (h : LeftOnce g) (sid : Nat) (p : Port)
    (hok : ∀ e ∈ (memory_cycle cfg g sid p).1.history, e.takesLast = true) :
    LeftOnce (memory_cycle cfg g sid p).1 ∧
      ((memory_cycle cfg g sid p).2 = true → NoAccess (memory_cycle cfg g sid p).1 sid) := by
  have hcase := memory_cycle_cases cfg g sid p
  generalize gpgpu_sim_uvm.memory_cycle cfg g sid p = s at hcase hok ⊢
  cases hcase with
  | @drains w hw hq =>
    refine ⟨h.drainQueue cfg hw hok, ?_⟩
    intro hdone w' hw'
    rw [drainQueue_ldst] at hw'
    simp only [sendAccesses, setLdst_self, Option.some.injEq] at hw'
    rw [← hw']
    exact of_decide_eq_true hdone
  | waits hidle => exact ⟨h, fun _ => hidle⟩
  | @replies mf rest hidle hreply htakes =>
    have hunits : ∀ s, ((takeReply cfg g sid mf rest p).ldst s).instructions =
        (g.ldst s).instructions := by
      intro s
      simp only [takeReply, refresh_valid_pages]
      rw [releaseIf_frame]
      exact unit_same Ldst.instructions (by rfl) (by rfl) s
    have hretired : (takeReply cfg g sid mf rest p).retired = g.retired := by
      simp only [takeReply, refresh_valid_pages]
      rw [releaseIf_frame]
      rfl
    refine ⟨h.same hretired hunits, ?_⟩
    intro _ w hw
    have hreg := congrArg (fun v => v.2.1) (hunits sid)
    exact hidle w (hreg.symm.trans hw)

/-- An instruction without accesses leaves, and all of them left before. -/
theorem LeftOnce.retire {g : Gpu} (h : LeftOnce g) {sid : Nat} (hempty : NoAccess g sid) :
    LeftOnce (retire g sid) := by
  have hunit := h.units sid
  refine ⟨?_, ?_⟩
  · intro s
    simp only [gpgpu_sim_uvm.retire]
    by_cases hs : s = sid
    · rw [hs, setLdst_self]
      exact ⟨hunit.issued, hunit.distinct, fun w hw => by cases hw⟩
    · rw [setLdst_ne g _ hs]
      exact h.units s
  · intro r hr
    simp only [gpgpu_sim_uvm.retire] at hr
    split at hr
    · rename_i hsome
      rcases List.mem_cons.mp hr with rfl | hr
      · obtain ⟨w, hw⟩ := Option.isSome_iff_exists.mp hsome
        have hperm := hunit.queue w hw
        rw [hempty w hw, List.append_nil] at hperm
        exact ⟨hperm, hunit.distinct⟩
      · exact h.retired r hr
    · exact h.retired r hr

/-! ## The law -/

theorem LeftOnce.issue {g : Gpu} (h : LeftOnce g) (sid : Nat) {w : WarpInst}
    (hw : freshAccesses g w = true) (bytes : List (Nat × UInt8)) :
    LeftOnce (issue cfg g sid w bytes) := by
  have hunit := h.units sid
  simp only [freshAccesses, Bool.and_eq_true, decide_eq_true_eq] at hw
  refine h.unit (by rfl) (by rfl) ?_
  refine ⟨?_, hunit.distinct, hunit.queue⟩
  intro w' hw'
  rcases List.mem_append.mp hw' with hw' | hw'
  · exact hunit.issued w' hw'
  · rw [List.mem_singleton.mp hw']
    exact hw.1

theorem LeftOnce.dispatch {g : Gpu} (h : LeftOnce g) {sid k : Nat}
    (hk : k < (g.ldst sid).issued.length) : LeftOnce (dispatch g sid k) := by
  have hunit := h.units sid
  have hreg : (g.ldst sid).issued[k]? = some (g.ldst sid).issued[k] := List.getElem?_eq_getElem hk
  refine h.unit (by rfl) (by rfl) ?_
  refine ⟨?_, ?_, ?_⟩
  · intro w hw
    exact hunit.issued w (List.mem_of_mem_eraseIdx hw)
  · simp only [hreg, Option.elim_some]
    exact hunit.issued _ (List.getElem_mem hk)
  · intro w hw
    simp only [hreg, Option.some.injEq] at hw
    simp [hreg, hw]

end gpgpu_sim_uvm
