-- What each function of the CTA dispatch keeps: the CTAs that run, the counters of cores and
-- kernels, the places of the running kernels, and the kernel that is issued at the moment.
import GpgpuSimUvm.CtaDispatch

namespace gpgpu_sim_uvm.cta_dispatch

variable {launches : Nat → Launch} {cfg : DispatchConfig} {g g' : Gpu} {c : Sid} {k : Nat}

/-! ## The invariant -/

/-- The contexts of the cores hold the CTAs that run. -/
structure Placed (cfg : DispatchConfig) (g : Gpu) : Prop where
  apart : (g.live.map Cta.place).Nodup
  status : ∀ c i, 0 < (g.m_core c).hw.m_cta_status i ↔ (c, i) ∈ g.live.map Cta.place
  owner : ∀ x ∈ g.live, (g.m_core x.sid).cta_of x.slot = x.entry
  active : ∀ c, (g.m_core c).m_n_active_cta = g.live.countP fun x => decide (x.sid = c)
  threads : ∀ c, (g.m_core c).m_not_completed =
    ((g.live.filter fun x => decide (x.sid = c)).map fun x =>
      (g.m_core c).hw.m_cta_status x.slot).sum
  bound : cfg.gpgpu_concurrent_kernel_sm = false →
    ∀ x ∈ g.live, (g.m_core x.sid).m_kernel = some x.kernel
  unbound : cfg.gpgpu_concurrent_kernel_sm = true → ∀ c, (g.m_core c).m_kernel = none

/-- A kernel has issued its CTAs up to the next one, and they run or are complete. -/
structure Counted (launches : Nat → Launch) (g : Gpu) : Prop where
  order : ∀ k, ((g.issued.filter fun e => decide (e.1 = k)).map fun e =>
    e.2.place (launches k).m_grid_dim) =
      List.range ((g.kernels k).m_next_cta.place (launches k).m_grid_dim)
  inside : ∀ e ∈ g.issued, e.2.Inside (launches e.1).m_grid_dim
  reached : ∀ k ∈ g.launched, (g.kernels k).m_next_cta.Reached (launches k).m_grid_dim
  known : ∀ e ∈ g.issued, e.1 ∈ g.launched
  split : g.issued.Perm (g.completed ++ g.live.map Cta.entry)
  running : ∀ k, (g.kernels k).m_num_cores_running = g.live.countP fun x => decide (x.kernel = k)
  fresh : ∀ k, k ∉ g.launched → (g.kernels k).m_next_cta = ⟨0, 0, 0⟩

/-- The running kernels are those that were launched and not reported. -/
structure Listed (launches : Nat → Launch) (cfg : DispatchConfig) (g : Gpu) : Prop where
  once : g.launched.Nodup
  places : ∀ k, some k ∈ g.m_running_kernels ↔ k ∈ g.launched ∧ k ∉ g.reported
  single : ∀ (i j k : Nat), g.m_running_kernels[i]? = some (some k) →
    g.m_running_kernels[j]? = some (some k) → i = j
  reportedOnce : g.reported.Nodup
  reportedOf : ∀ k ∈ g.reported, k ∈ g.launched
  ended : ∀ k ∈ g.reported, (g.kernels k).m_num_cores_running = 0 ∧
    g.kernel_more_cta_left launches cfg (some k) = false
  notDone : ∀ k, some k ∈ g.m_running_kernels → g.done launches k = false
  size : g.m_running_kernels.length = cfg.max_concurrent_kernel

/-- The kernel was selected, a core has it, or some of its CTAs were issued. -/
def Begun (g : Gpu) (k : Nat) : Prop :=
  k ∈ g.m_executed_kernel_uids ∨ (g.kernels k).m_next_cta ≠ ⟨0, 0, 0⟩ ∨
    ∃ c, (g.m_core c).m_kernel = some k

/-- A kernel that was begun and has CTAs left is the one that is asked first. -/
structure Current (launches : Nat → Launch) (cfg : DispatchConfig) (g : Gpu) : Prop where
  first : ∀ k, Begun g k → g.kernel_more_cta_left launches cfg (some k) = true →
    g.m_running_kernels[g.m_last_issued_kernel]? = some (some k) ∧
      (g.kernels k).m_kernel_TB_latency = 0
  known : ∀ k, Begun g k → k ∈ g.launched

structure Sound (launches : Nat → Launch) (cfg : DispatchConfig) (g : Gpu) : Prop where
  placed : Placed cfg g
  counted : Counted launches g
  listed : Listed launches cfg g
  current : Current launches cfg g

/-! ## The next CTA of a kernel -/

theorem place_origin (bound : Dim3) : (⟨0, 0, 0⟩ : Dim3).place bound = 0 := by
  simp [Dim3.place]

namespace Gpu

theorem no_more_iff : g.no_more_ctas_to_run launches k = false ↔
    (g.kernels k).m_next_cta.Inside (launches k).m_grid_dim := by
  have hmore := LaunchInfo.ctas_walk.more_iff ((launches k).next (g.kernels k).m_next_cta)
  rw [Bool.not_eq_true'] at hmore
  exact hmore

theorem more_left_iff : g.kernel_more_cta_left launches cfg (some k) = true ↔
    g.hit_max_cta_count cfg = false ∧
      (g.kernels k).m_next_cta.Inside (launches k).m_grid_dim := by
  rw [← no_more_iff]
  simp [kernel_more_cta_left]

theorem done_iff : g.done launches k = false ↔
    (g.kernels k).m_next_cta.Inside (launches k).m_grid_dim ∨
      0 < (g.kernels k).m_num_cores_running := by
  rw [← no_more_iff]
  unfold done running
  cases g.no_more_ctas_to_run launches k <;> simp

end Gpu

/-! ## Contexts -/

theorem takeSlot_spec {hw hw' : ShaderCore} {l : Launch} {i : Nat}
    (h : takeSlot cfg hw l = some (i, hw')) :
    hw.m_cta_status i = 0 ∧
      hw'.m_cta_status = Function.update hw.m_cta_status i l.info.threads_per_cta := by
  unfold takeSlot at h
  split at h
  · obtain ⟨j, hj, hissue⟩ := Option.bind_eq_some_iff.mp h
    obtain ⟨s, hs, heq⟩ := Option.map_eq_some_iff.mp hissue
    obtain ⟨rfl, rfl⟩ := Prod.mk.inj heq
    have hfree : hw.m_cta_status j = 0 := by simpa using List.find?_some hj
    refine ⟨hfree, funext fun n => ?_⟩
    unfold issue_block2core at hs
    rw [hj] at hs
    split at hs
    · rename_i heq _
      obtain rfl := Option.some.inj heq
      split at hs
      · cases hs
      · obtain rfl := Option.some.inj hs
        rw [Function.update_apply]
        rfl
    · cases hs
  · obtain ⟨most, -, hfind⟩ := Option.bind_eq_some_iff.mp h
    obtain ⟨j, hj, heq⟩ := Option.map_eq_some_iff.mp hfind
    obtain ⟨rfl, rfl⟩ := Prod.mk.inj heq
    exact ⟨by simpa using List.find?_some hj, rfl⟩

theorem exitSlot_spec {hw hw' : ShaderCore} {i : Nat} (h : exitSlot cfg hw i = some hw') :
    0 < hw.m_cta_status i ∧
      hw'.m_cta_status = Function.update hw.m_cta_status i (hw.m_cta_status i - 1) := by
  unfold exitSlot at h
  split at h
  · unfold register_cta_thread_exit at h
    split at h
    · cases h
    · rename_i hne
      refine ⟨Nat.pos_of_ne_zero hne, funext fun n => ?_⟩
      rw [Function.update_apply]
      dsimp only at h
      split at h
      · unfold release_shader_resource_1block at h
        dsimp only at h
        split at h
        · obtain rfl := Option.some.inj h
          rfl
        · cases h
      · obtain rfl := Option.some.inj h
        rfl
  · split at h
    · cases h
    · rename_i hne
      obtain rfl := Option.some.inj h
      exact ⟨Nat.pos_of_ne_zero hne, rfl⟩

/-! ## The CTAs that run -/

/-- A field that the new core has from the old one. -/
theorem field_update {A : Type} (f : Core → A) {m : Sid → Core} {core : Core}
    (hf : f core = f (m c)) (d : Sid) : f (Function.update m c core d) = f (m d) := by
  rcases eq_or_ne d c with rfl | hd
  · rw [Function.update_self, hf]
  · rw [Function.update_of_ne hd]

/-- Threads of the other contexts of a core count as before. -/
theorem threads_others (st : Nat → Nat) {l : List Cta} {i n : Nat}
    (h : ∀ x ∈ l, x.sid = c → x.slot ≠ i) :
    ((l.filter fun x => decide (x.sid = c)).map fun x => Function.update st i n x.slot).sum =
      ((l.filter fun x => decide (x.sid = c)).map fun x => st x.slot).sum := by
  refine congrArg List.sum (List.map_congr_left fun x hx => ?_)
  obtain ⟨hx, hc⟩ := List.mem_filter.mp hx
  exact Function.update_of_ne (h x hx (of_decide_eq_true hc)) ..

namespace Placed

/-- The CTA of a context, and those of the other contexts. -/
theorem cta_at (h : Placed cfg g) {i : Nat} (hst : 0 < (g.m_core c).hw.m_cta_status i) :
    ∃ l₁ x l₂, g.live = l₁ ++ x :: l₂ ∧ x.sid = c ∧ x.slot = i ∧
      (∀ y ∈ l₁ ++ l₂, y.place ≠ (c, i)) ∧
      g.live.filter (fun y => decide (y.place ≠ (c, i))) = l₁ ++ l₂ := by
  obtain ⟨x, hx, hplace⟩ := List.mem_map.mp ((h.status c i).mp hst)
  obtain ⟨l₁, l₂, hlive⟩ := List.append_of_mem hx
  obtain ⟨rfl, rfl⟩ := Prod.mk.inj hplace
  have hother : ∀ y ∈ l₁ ++ l₂, y.place ≠ (x.sid, x.slot) := by
    intro y hy heq
    have hapart := h.apart
    rw [hlive, List.map_append, List.map_cons, List.nodup_middle] at hapart
    refine (List.nodup_cons.mp hapart).1 ?_
    rw [← List.map_append]
    exact List.mem_map.mpr ⟨y, hy, heq⟩
  refine ⟨l₁, x, l₂, hlive, rfl, rfl, hother, ?_⟩
  rw [hlive, List.filter_append, List.filter_cons_of_neg (by simp [Cta.place]),
    ← List.filter_append]
  exact List.filter_eq_self.mpr fun y hy => decide_eq_true (hother y hy)

variable {core : Core} {i n : Nat} {x : Cta}

/-- A CTA takes a free context. -/
theorem issue (h : Placed cfg g) (hlive : g'.live = g.live ++ [x])
    (hcore : g'.m_core = Function.update g.m_core x.sid core) (hn : 0 < n)
    (hfree : (g.m_core x.sid).hw.m_cta_status x.slot = 0)
    (hst : core.hw.m_cta_status = Function.update (g.m_core x.sid).hw.m_cta_status x.slot n)
    (hof : core.cta_of = Function.update (g.m_core x.sid).cta_of x.slot x.entry)
    (hactive : core.m_n_active_cta = (g.m_core x.sid).m_n_active_cta + 1)
    (hleft : core.m_not_completed = (g.m_core x.sid).m_not_completed + n)
    (hkernel : core.m_kernel = (g.m_core x.sid).m_kernel)
    (hbound : cfg.gpgpu_concurrent_kernel_sm = false → (g.m_core x.sid).m_kernel = some x.kernel) :
    Placed cfg g' := by
  have hnew : x.place ∉ g.live.map Cta.place := fun hmem => by
    have hpos := (h.status x.sid x.slot).mpr hmem
    omega
  have hother : ∀ y ∈ g.live, y.sid = x.sid → y.slot ≠ x.slot := fun y hy hsid hslot =>
    hnew (List.mem_map.mpr ⟨y, hy, Prod.ext hsid hslot⟩)
  refine ⟨?_, fun c j => ?_, fun y hy => ?_, fun c => ?_, fun c => ?_, fun hoff y hy => ?_,
    fun hon c => ?_⟩
  · rw [hlive, List.map_append, List.map_singleton, List.nodup_append]
    refine ⟨h.apart, List.nodup_singleton _, fun a ha b hb heq => ?_⟩
    obtain rfl := List.mem_singleton.mp hb
    exact hnew (heq ▸ ha)
  · rw [hlive, hcore, List.map_append, List.mem_append, ← h.status]
    rcases eq_or_ne c x.sid with rfl | hc
    · rw [Function.update_self, hst]
      rcases eq_or_ne j x.slot with rfl | hj
      · simp [Cta.place, hn]
      · simp [Cta.place, hj]
    · simp [Cta.place, hc]
  · rw [hcore]
    rcases List.mem_append.mp (hlive ▸ hy) with hy | hy
    · rcases eq_or_ne y.sid x.sid with hsid | hsid
      · rw [hsid, Function.update_self, hof, Function.update_of_ne (hother y hy hsid), ← hsid]
        exact h.owner y hy
      · rw [Function.update_of_ne hsid]
        exact h.owner y hy
    · obtain rfl := List.mem_singleton.mp hy
      rw [Function.update_self, hof, Function.update_self]
  · rw [hlive, hcore, List.countP_append, List.countP_singleton, ← h.active]
    rcases eq_or_ne c x.sid with rfl | hc
    · simp [hactive]
    · simp [hc, hc.symm]
  · rw [hlive, hcore, List.filter_append, List.map_append, List.sum_append]
    rcases eq_or_ne c x.sid with rfl | hc
    · rw [Function.update_self, hleft, hst, threads_others _ hother, ← h.threads]
      simp
    · rw [Function.update_of_ne hc, h.threads]
      simp [hc.symm]
  · rw [hcore]
    rcases List.mem_append.mp (hlive ▸ hy) with hy | hy
    · rcases eq_or_ne y.sid x.sid with hsid | hsid
      · rw [hsid, Function.update_self, hkernel, ← hsid]
        exact h.bound hoff y hy
      · rw [Function.update_of_ne hsid]
        exact h.bound hoff y hy
    · obtain rfl := List.mem_singleton.mp hy
      rw [Function.update_self, hkernel, hbound hoff]
  · rw [hcore]
    rcases eq_or_ne c x.sid with rfl | hc
    · rw [Function.update_self, hkernel]
      exact h.unbound hon _
    · rw [Function.update_of_ne hc]
      exact h.unbound hon c

/-- A core changes its kernel. -/
theorem bind (h : Placed cfg g) (hlive : g'.live = g.live)
    (hcore : g'.m_core = Function.update g.m_core c core) (hhw : core.hw = (g.m_core c).hw)
    (hof : core.cta_of = (g.m_core c).cta_of)
    (hactive : core.m_n_active_cta = (g.m_core c).m_n_active_cta)
    (hleft : core.m_not_completed = (g.m_core c).m_not_completed)
    (hbound : cfg.gpgpu_concurrent_kernel_sm = false →
      ∀ y ∈ g.live, y.sid = c → core.m_kernel = some y.kernel)
    (hunbound : cfg.gpgpu_concurrent_kernel_sm = true → core.m_kernel = none) :
    Placed cfg g' := by
  refine ⟨hlive ▸ h.apart, fun d j => ?_, fun y hy => ?_, fun d => ?_, fun d => ?_,
    fun hoff y hy => ?_, fun hon d => ?_⟩
  · rw [hlive, hcore, field_update Core.hw hhw]
    exact h.status d j
  · rw [hcore, field_update Core.cta_of hof]
    exact h.owner y (hlive ▸ hy)
  · rw [hlive, hcore, field_update Core.m_n_active_cta hactive]
    exact h.active d
  · rw [hlive, hcore, field_update Core.m_not_completed hleft, field_update Core.hw hhw]
    exact h.threads d
  · rw [hlive] at hy
    rw [hcore]
    rcases eq_or_ne y.sid c with hd | hd
    · rw [hd, Function.update_self]
      exact hbound hoff y hy hd
    · rw [Function.update_of_ne hd]
      exact h.bound hoff y hy
  · rw [hcore]
    rcases eq_or_ne d c with rfl | hd
    · rw [Function.update_self, hunbound hon]
    · rw [Function.update_of_ne hd]
      exact h.unbound hon d

/-- A thread exits that is not the last of its CTA. -/
theorem exit (h : Placed cfg g) (hlive : g'.live = g.live)
    (hcore : g'.m_core = Function.update g.m_core c core)
    (hn : (g.m_core c).hw.m_cta_status i = n + 2)
    (hst : core.hw.m_cta_status = Function.update (g.m_core c).hw.m_cta_status i (n + 1))
    (hof : core.cta_of = (g.m_core c).cta_of)
    (hactive : core.m_n_active_cta = (g.m_core c).m_n_active_cta)
    (hleft : core.m_not_completed = (g.m_core c).m_not_completed - 1)
    (hkernel : core.m_kernel = (g.m_core c).m_kernel) : Placed cfg g' := by
  refine ⟨hlive ▸ h.apart, fun d j => ?_, fun y hy => ?_, fun d => ?_, fun d => ?_,
    fun hoff y hy => ?_, fun hon d => ?_⟩
  · rw [hlive, ← h.status, hcore]
    rcases eq_or_ne d c with rfl | hd
    · rw [Function.update_self, hst]
      rcases eq_or_ne j i with rfl | hj
      · simp [hn]
      · simp [hj]
    · rw [Function.update_of_ne hd]
  · rw [hcore, field_update Core.cta_of hof]
    exact h.owner y (hlive ▸ hy)
  · rw [hcore, field_update Core.m_n_active_cta hactive, hlive]
    exact h.active d
  · rw [hlive, hcore]
    rcases eq_or_ne d c with rfl | hd
    · obtain ⟨l₁, x, l₂, hsplit, hsid, rfl, hother, -⟩ := h.cta_at (c := d) (i := i) (by omega)
      have hothers : ∀ y ∈ l₁ ++ l₂, y.sid = d → y.slot ≠ x.slot := fun y hy hd hslot =>
        hother y hy (Prod.ext hd hslot)
      have hold := h.threads d
      rw [hsplit] at hold ⊢
      rw [Function.update_self, hleft, hst, hold]
      have hfirst := threads_others (g.m_core d).hw.m_cta_status (n := n + 1) fun y hy =>
        hothers y (List.mem_append_left _ hy)
      have hsecond := threads_others (g.m_core d).hw.m_cta_status (n := n + 1) fun y hy =>
        hothers y (List.mem_append_right _ hy)
      simp only [List.filter_append, List.filter_cons, hsid, decide_true, if_true,
        List.map_append, List.map_cons, List.sum_append, List.sum_cons, hn,
        Function.update_self, hfirst, hsecond]
      omega
    · rw [Function.update_of_ne hd, h.threads]
  · rw [hcore, field_update Core.m_kernel hkernel]
    exact h.bound hoff y (hlive ▸ hy)
  · rw [hcore, field_update Core.m_kernel hkernel]
    exact h.unbound hon d

/-- The last thread of a CTA exits. -/
theorem finish (h : Placed cfg g)
    (hlive : g'.live = g.live.filter fun y => decide (y.place ≠ (c, i)))
    (hcore : g'.m_core = Function.update g.m_core c core)
    (hone : (g.m_core c).hw.m_cta_status i = 1)
    (hst : core.hw.m_cta_status = Function.update (g.m_core c).hw.m_cta_status i 0)
    (hof : core.cta_of = (g.m_core c).cta_of)
    (hactive : core.m_n_active_cta = (g.m_core c).m_n_active_cta - 1)
    (hleft : core.m_not_completed = (g.m_core c).m_not_completed - 1)
    (hbound : cfg.gpgpu_concurrent_kernel_sm = false →
      ∀ y ∈ g'.live, y.sid = c → core.m_kernel = some y.kernel)
    (hunbound : cfg.gpgpu_concurrent_kernel_sm = true → core.m_kernel = none) :
    Placed cfg g' := by
  obtain ⟨l₁, x, l₂, hsplit, hsid, hslot, hother, hrest⟩ := h.cta_at (c := c) (i := i) (by omega)
  have hothers : ∀ y ∈ l₁ ++ l₂, y.sid = c → y.slot ≠ i := fun y hy hd hslot =>
    hother y hy (Prod.ext hd hslot)
  rw [hrest] at hlive
  have hkept : ∀ y ∈ g'.live, y ∈ g.live := by
    intro y hy
    rw [hlive] at hy
    rw [hsplit]
    rcases List.mem_append.mp hy with hy | hy
    · exact List.mem_append_left _ hy
    · exact List.mem_append_right _ (List.mem_cons_of_mem _ hy)
  refine ⟨?_, fun d j => ?_, fun y hy => ?_, fun d => ?_, fun d => ?_, fun hoff y hy => ?_,
    fun hon d => ?_⟩
  · have hapart := h.apart
    rw [hsplit, List.map_append, List.map_cons, List.nodup_middle] at hapart
    rw [hlive, List.map_append]
    exact (List.nodup_cons.mp hapart).2
  · have hold := h.status d j
    rw [hsplit, List.map_append, List.map_cons, List.mem_append, List.mem_cons, or_left_comm,
      ← List.mem_append, ← List.map_append, show x.place = (c, i) from Prod.ext hsid hslot] at hold
    have hgone : (c, i) ∉ (l₁ ++ l₂).map Cta.place := fun hmem => by
      obtain ⟨y, hy, hplace⟩ := List.mem_map.mp hmem
      exact hother y hy hplace
    rw [hlive, hcore]
    rcases eq_or_ne d c with rfl | hd
    · rw [Function.update_self, hst]
      rcases eq_or_ne j i with rfl | hj
      · simpa using hgone
      · rw [Function.update_of_ne hj, hold]
        exact or_iff_right fun hcon => hj (Prod.mk.inj hcon).2
    · rw [Function.update_of_ne hd, hold]
      exact or_iff_right fun hcon => hd (Prod.mk.inj hcon).1
  · have howner := h.owner y (hkept y hy)
    rw [hcore]
    rcases eq_or_ne y.sid c with rfl | hd
    · rw [Function.update_self, hof, howner]
    · rw [Function.update_of_ne hd, howner]
  · have hold := h.active d
    rw [hsplit] at hold
    simp only [List.countP_append, List.countP_cons] at hold
    rw [hlive, hcore, List.countP_append]
    rcases eq_or_ne d c with rfl | hd
    · rw [Function.update_self, hactive, hold]
      simp only [hsid, decide_true, if_true]
      omega
    · rw [Function.update_of_ne hd, hold]
      simp [hsid, hd.symm]
  · have hold := h.threads d
    rw [hsplit] at hold
    simp only [List.filter_append, List.map_append, List.sum_append] at hold
    rw [hlive, hcore, List.filter_append, List.map_append, List.sum_append]
    rcases eq_or_ne d c with rfl | hd
    · rw [List.filter_cons_of_pos (by simpa using hsid), List.map_cons, List.sum_cons, hslot,
        hone] at hold
      rw [Function.update_self, hleft, hst, hold,
        threads_others _ fun y hy => hothers y (List.mem_append_left _ hy),
        threads_others _ fun y hy => hothers y (List.mem_append_right _ hy)]
      omega
    · rw [Function.update_of_ne hd, hold,
        List.filter_cons_of_neg (by simpa [hsid] using hd.symm)]
  · rw [hcore]
    rcases eq_or_ne y.sid c with hd | hd
    · rw [hd, Function.update_self]
      exact hbound hoff y hy hd
    · rw [Function.update_of_ne hd]
      exact h.bound hoff y (hkept y hy)
  · rw [hcore]
    rcases eq_or_ne d c with rfl | hd
    · rw [Function.update_self, hunbound hon]
    · rw [Function.update_of_ne hd]
      exact h.unbound hon d

end Placed

/-! ## The CTAs of a kernel -/

namespace Counted

variable {kernel : Kernel} {x : Cta} {l₁ l₂ : List Cta}

theorem issue (h : Counted launches g) (hissued : g'.issued = g.issued ++ [x.entry])
    (hlive : g'.live = g.live ++ [x]) (hcompleted : g'.completed = g.completed)
    (hlaunched : g'.launched = g.launched)
    (hkernels : g'.kernels = Function.update g.kernels x.kernel kernel)
    (hctaid : x.ctaid = (g.kernels x.kernel).m_next_cta)
    (hnext : kernel.m_next_cta =
      ((launches x.kernel).next x.ctaid).increment_cta_id.m_next_cta)
    (hrunning : kernel.m_num_cores_running = (g.kernels x.kernel).m_num_cores_running + 1)
    (hknown : x.kernel ∈ g.launched) (hin : x.ctaid.Inside (launches x.kernel).m_grid_dim) :
    Counted launches g' := by
  obtain ⟨hreached, hplace⟩ := hin.increment
  refine ⟨fun k => ?_, fun e he => ?_, fun k hk => ?_, fun e he => ?_, ?_, fun k => ?_,
    fun k hk => ?_⟩
  · have hold := h.order k
    rw [hissued, hkernels, List.filter_append, List.map_append, hold]
    rcases eq_or_ne k x.kernel with rfl | hk
    · rw [Function.update_self, hnext, List.filter_cons_of_pos (by simp [Cta.entry])]
      refine Eq.trans ?_ (congrArg List.range hplace).symm
      rw [List.range_succ, hctaid]
      simp [Cta.entry, hctaid]
    · rw [Function.update_of_ne hk, List.filter_cons_of_neg (by simp [Cta.entry, hk.symm])]
      simp
  · rcases List.mem_append.mp (hissued ▸ he) with he | he
    · exact h.inside e he
    · obtain rfl := List.mem_singleton.mp he
      exact hin
  · rw [hkernels]
    rcases eq_or_ne k x.kernel with rfl | hne
    · rw [Function.update_self, hnext]
      exact hreached
    · rw [Function.update_of_ne hne]
      exact h.reached k (hlaunched ▸ hk)
  · rw [hlaunched]
    rcases List.mem_append.mp (hissued ▸ he) with he | he
    · exact h.known e he
    · obtain rfl := List.mem_singleton.mp he
      exact hknown
  · rw [hissued, hlive, hcompleted, List.map_append, ← List.append_assoc]
    exact h.split.append_right _
  · rw [hkernels, hlive, List.countP_append, List.countP_singleton]
    rcases eq_or_ne k x.kernel with rfl | hk
    · rw [Function.update_self, hrunning, h.running]
      simp
    · rw [Function.update_of_ne hk, h.running]
      simp [hk.symm]
  · rw [hlaunched] at hk
    have hne : k ≠ x.kernel := fun heq => hk (heq ▸ hknown)
    rw [hkernels, Function.update_of_ne hne]
    exact h.fresh k hk

theorem finish (h : Counted launches g) (hsplit : g.live = l₁ ++ x :: l₂)
    (hissued : g'.issued = g.issued) (hlive : g'.live = l₁ ++ l₂)
    (hcompleted : g'.completed = g.completed ++ [x.entry]) (hlaunched : g'.launched = g.launched)
    (hkernels : g'.kernels = Function.update g.kernels x.kernel kernel)
    (hnext : kernel.m_next_cta = (g.kernels x.kernel).m_next_cta)
    (hrunning : kernel.m_num_cores_running = (g.kernels x.kernel).m_num_cores_running - 1) :
    Counted launches g' := by
  have hcta : ∀ k, (g'.kernels k).m_next_cta = (g.kernels k).m_next_cta := by
    intro k
    rw [hkernels]
    rcases eq_or_ne k x.kernel with rfl | hk
    · rw [Function.update_self, hnext]
    · rw [Function.update_of_ne hk]
  refine ⟨fun k => ?_, hissued ▸ h.inside, fun k hk => ?_, fun e he => ?_, ?_, fun k => ?_,
    fun k hk => ?_⟩
  · rw [hissued, hcta, h.order]
  · rw [hcta]
    exact h.reached k (hlaunched ▸ hk)
  · rw [hlaunched]
    exact h.known e (hissued ▸ he)
  · have hold := h.split
    rw [hsplit, List.map_append, List.map_cons] at hold
    rw [hissued, hlive, hcompleted, List.map_append, List.append_assoc, List.singleton_append]
    exact hold.trans (List.Perm.append_left _ List.perm_middle)
  · have hold := h.running k
    rw [hsplit] at hold
    simp only [List.countP_append, List.countP_cons] at hold
    rw [hkernels, hlive, List.countP_append]
    rcases eq_or_ne k x.kernel with rfl | hk
    · rw [Function.update_self, hrunning, hold]
      simp only [decide_true, if_true]
      omega
    · rw [Function.update_of_ne hk, hold]
      simp [hk.symm]
  · rw [hcta]
    exact h.fresh k (hlaunched ▸ hk)

/-- The CTAs of a kernel that was not launched. -/
theorem none_of (h : Counted launches g) (hk : k ∉ g.launched) :
    (g.kernels k).m_num_cores_running = 0 := by
  rw [h.running]
  refine List.countP_eq_zero.mpr fun x hx hcon => hk ?_
  rw [← of_decide_eq_true hcon]
  refine h.known x.entry (h.split.mem_iff.mpr (List.mem_append_right _ ?_))
  exact List.mem_map_of_mem hx

theorem launch (h : Counted launches g) (hpos : (launches k).m_grid_dim.Positive)
    (hk : k ∉ g.launched) (hissued : g'.issued = g.issued) (hlive : g'.live = g.live)
    (hcompleted : g'.completed = g.completed) (hlaunched : g'.launched = g.launched ++ [k])
    (hkernels : g'.kernels = Function.update g.kernels k kernel)
    (hnext : kernel.m_next_cta = ⟨0, 0, 0⟩) (hrunning : kernel.m_num_cores_running = 0) :
    Counted launches g' := by
  have hcta : ∀ j, (g'.kernels j).m_next_cta = (g.kernels j).m_next_cta := by
    intro j
    rw [hkernels]
    rcases eq_or_ne j k with rfl | hj
    · rw [Function.update_self, hnext, h.fresh j hk]
    · rw [Function.update_of_ne hj]
  refine ⟨fun j => ?_, hissued ▸ h.inside, fun j hj => ?_, fun e he => ?_, ?_, fun j => ?_,
    fun j hj => ?_⟩
  · rw [hissued, hcta, h.order]
  · rw [hcta]
    rcases List.mem_append.mp (hlaunched ▸ hj) with hj | hj
    · exact h.reached j hj
    · obtain rfl := List.mem_singleton.mp hj
      exact .inl (h.fresh j hk ▸ hpos.origin)
  · rw [hlaunched]
    exact List.mem_append_left _ (h.known e (hissued ▸ he))
  · rw [hissued, hlive, hcompleted]
    exact h.split
  · rw [hkernels, hlive]
    rcases eq_or_ne j k with rfl | hj
    · rw [Function.update_self, hrunning, ← h.running, h.none_of hk]
    · rw [Function.update_of_ne hj, h.running]
  · rw [hcta]
    exact h.fresh j fun hmem => hj (hlaunched ▸ List.mem_append_left _ hmem)

end Counted

/-! ## Selecting a kernel -/

theorem more_left_eq (hcount : g'.m_total_cta_launched = g.m_total_cta_launched)
    (hnext : (g'.kernels k).m_next_cta = (g.kernels k).m_next_cta) :
    g'.kernel_more_cta_left launches cfg (some k) =
      g.kernel_more_cta_left launches cfg (some k) := by
  unfold Gpu.kernel_more_cta_left Gpu.hit_max_cta_count Gpu.no_more_ctas_to_run
  simp only [hcount, Option.any_some, hnext]

/-- Once the count of CTAs is hit no kernel has CTAs left. -/
theorem more_left_mono (hcount : g.m_total_cta_launched ≤ g'.m_total_cta_launched)
    (hnext : (g'.kernels k).m_next_cta = (g.kernels k).m_next_cta)
    (h : g'.kernel_more_cta_left launches cfg (some k) = true) :
    g.kernel_more_cta_left launches cfg (some k) = true := by
  obtain ⟨hhit, hin⟩ := Gpu.more_left_iff.mp h
  refine Gpu.more_left_iff.mpr ⟨?_, hnext ▸ hin⟩
  unfold Gpu.hit_max_cta_count at hhit ⊢
  simp only [Bool.and_eq_false_iff, decide_eq_false_iff_not] at hhit ⊢
  exact hhit.imp_right fun hle hle' => hle (hle'.trans hcount)

theorem Placed.congr (h : Placed cfg g) (hlive : g'.live = g.live)
    (hcore : g'.m_core = g.m_core) : Placed cfg g' := by
  refine ⟨hlive ▸ h.apart, ?_, ?_, ?_, ?_, ?_, ?_⟩
  · rw [hlive, hcore]
    exact h.status
  · rw [hlive, hcore]
    exact h.owner
  · rw [hlive, hcore]
    exact h.active
  · rw [hlive, hcore]
    exact h.threads
  · rw [hlive, hcore]
    exact h.bound
  · rw [hcore]
    exact h.unbound

theorem Counted.congr (h : Counted launches g) (hissued : g'.issued = g.issued)
    (hlive : g'.live = g.live) (hcompleted : g'.completed = g.completed)
    (hlaunched : g'.launched = g.launched)
    (hnext : ∀ k, (g'.kernels k).m_next_cta = (g.kernels k).m_next_cta)
    (hrunning : ∀ k, (g'.kernels k).m_num_cores_running = (g.kernels k).m_num_cores_running) :
    Counted launches g' := by
  refine ⟨fun k => ?_, hissued ▸ h.inside, fun k hk => ?_, ?_, ?_, fun k => ?_, fun k hk => ?_⟩
  · rw [hissued, hnext, h.order]
  · rw [hnext]
    exact h.reached k (hlaunched ▸ hk)
  · rw [hissued, hlaunched]
    exact h.known
  · rw [hissued, hlive, hcompleted]
    exact h.split
  · rw [hrunning, hlive, h.running]
  · rw [hnext]
    exact h.fresh k (hlaunched ▸ hk)

/-- Kernels that changed in what the list does not ask for. -/
theorem Listed.congr (h : Listed launches cfg g) (hlaunched : g'.launched = g.launched)
    (hreported : g'.reported = g.reported) (hplaces : g'.m_running_kernels = g.m_running_kernels)
    (hended : ∀ k ∈ g.reported, (g'.kernels k).m_num_cores_running = 0 ∧
      g'.kernel_more_cta_left launches cfg (some k) = false)
    (hdone : ∀ k, some k ∈ g.m_running_kernels → g'.done launches k = false) :
    Listed launches cfg g' := by
  refine ⟨hlaunched ▸ h.once, fun k => ?_, ?_, hreported ▸ h.reportedOnce, ?_, ?_, ?_, ?_⟩
  · rw [hplaces, hlaunched, hreported]
    exact h.places k
  · rw [hplaces]
    exact h.single
  · rw [hreported, hlaunched]
    exact h.reportedOf
  · rw [hreported]
    exact hended
  · rw [hplaces]
    exact hdone
  · rw [hplaces]
    exact h.size

/-- Only the current kernel depends on the fields that steer the next selection. -/
theorem Sound.others (h : Sound launches cfg g) {last cluster : Nat} {uids finished : List Nat}
    {next : Nat → Nat}
    (hcurrent : Current launches cfg { g with
      m_last_issued_kernel := last
      m_executed_kernel_uids := uids
      m_finished_kernel := finished
      m_last_cluster_issue := cluster
      m_cta_issue_next_core := next }) :
    Sound launches cfg { g with
      m_last_issued_kernel := last
      m_executed_kernel_uids := uids
      m_finished_kernel := finished
      m_last_cluster_issue := cluster
      m_cta_issue_next_core := next } :=
  ⟨h.placed.congr rfl rfl, h.counted.congr rfl rfl rfl rfl (fun _ => rfl) fun _ => rfl,
    h.listed.congr rfl rfl rfl h.listed.ended h.listed.notDone, hcurrent⟩

namespace Gpu

theorem lastIssued_eq_some : g.lastIssued launches = some k ↔
    g.m_running_kernels[g.m_last_issued_kernel]? = some (some k) ∧
      g.no_more_ctas_to_run launches k = false ∧ (g.kernels k).m_kernel_TB_latency = 0 := by
  unfold lastIssued
  rw [Option.filter_eq_some_iff, Option.join_eq_some_iff]
  simp

theorem candidate_eq_some {i idx : Nat} (h : g.candidate launches cfg i = some (idx, k)) :
    g.m_running_kernels[idx]? = some (some k) ∧
      g.kernel_more_cta_left launches cfg (some k) = true ∧
      (g.kernels k).m_kernel_TB_latency = 0 := by
  unfold candidate at h
  obtain ⟨j, hj, heq⟩ := Option.map_eq_some_iff.mp h
  obtain ⟨rfl, rfl⟩ := Prod.mk.inj heq
  rw [Option.filter_eq_some_iff, Option.join_eq_some_iff] at hj
  simpa using hj

/-- The three ways in which `select_kernel` ends. -/
theorem select_kernel_cases {r : Option Nat}
    (h : g.select_kernel launches cfg = some (g', r)) :
    (∃ k uids, r = some k ∧ g.lastIssued launches = some k ∧
      (∀ j, j ∈ uids ↔ j ∈ g.m_executed_kernel_uids ∨ j = k) ∧
      g' = { g with m_executed_kernel_uids := uids }) ∨
    (∃ k idx, r = some k ∧ g.lastIssued launches = none ∧
      g.m_running_kernels[idx]? = some (some k) ∧ (g.kernels k).m_kernel_TB_latency = 0 ∧
      g' = { g with
        m_last_issued_kernel := idx
        m_executed_kernel_uids := g.m_executed_kernel_uids ++ [k] }) ∨
    (r = none ∧ g' = g) := by
  unfold select_kernel at h
  split at h
  · rename_i k hlast
    split at h
    · rename_i hmem
      obtain ⟨rfl, rfl⟩ := Prod.mk.inj (Option.some.inj h)
      refine .inl ⟨k, g.m_executed_kernel_uids, rfl, hlast, fun j => ?_, rfl⟩
      exact ⟨.inl, fun hj => hj.elim id fun heq => heq ▸ hmem⟩
    · obtain ⟨rfl, rfl⟩ := Prod.mk.inj (Option.some.inj h)
      exact .inl ⟨k, _, rfl, hlast, by simp, rfl⟩
  · rename_i hlast
    split at h
    · rename_i idx k hfind
      split at h
      · cases h
      · obtain ⟨rfl, rfl⟩ := Prod.mk.inj (Option.some.inj h)
        obtain ⟨n, -, hcandidate⟩ := List.exists_of_findSome?_eq_some hfind
        obtain ⟨hplace, -, hlatency⟩ := candidate_eq_some hcandidate
        exact .inr (.inl ⟨k, idx, rfl, hlast, hplace, hlatency, rfl⟩)
    · obtain ⟨rfl, rfl⟩ := Prod.mk.inj (Option.some.inj h)
      exact .inr (.inr ⟨rfl, rfl⟩)

end Gpu

/-- What a selection leaves as it is. -/
structure Selected (g g' : Gpu) (r : Option Nat) : Prop where
  core : g'.m_core = g.m_core
  kernels : g'.kernels = g.kernels
  live : g'.live = g.live
  issued : g'.issued = g.issued
  count : g'.m_total_cta_launched = g.m_total_cta_launched
  places : g'.m_running_kernels = g.m_running_kernels
  begun : ∀ k, r = some k → Begun g' k

theorem select_kernel_sound {r : Option Nat} (h : Sound launches cfg g)
    (hs : g.select_kernel launches cfg = some (g', r)) :
    Sound launches cfg g' ∧ Selected g g' r := by
  have hlisted : ∀ i k, g.m_running_kernels[i]? = some (some k) → k ∈ g.launched := fun i k hk =>
    ((h.listed.places k).mp (List.mem_of_getElem? hk)).1
  rcases Gpu.select_kernel_cases hs with ⟨k, uids, rfl, hlast, huids, rfl⟩ |
    ⟨k, idx, rfl, hlast, hplace, hlatency, rfl⟩ | ⟨rfl, rfl⟩
  · obtain ⟨hplace, -, hlatency⟩ := Gpu.lastIssued_eq_some.mp hlast
    have hbegun : ∀ j, Begun { g with m_executed_kernel_uids := uids } j → Begun g j ∨ j = k := by
      rintro j (hj | hj)
      · exact ((huids j).mp hj).imp_left .inl
      · exact .inl (.inr hj)
    refine ⟨h.others ⟨fun j hj hmore => ?_, fun j hj => ?_⟩, rfl, rfl, rfl, rfl, rfl, rfl, ?_⟩
    · rcases hbegun j hj with hj | rfl
      · exact h.current.first j hj hmore
      · exact ⟨hplace, hlatency⟩
    · rcases hbegun j hj with hj | rfl
      · exact h.current.known j hj
      · exact hlisted _ j hplace
    · intro j hj
      obtain rfl := Option.some.inj hj
      exact .inl ((huids _).mpr (.inr rfl))
  · have hbegun : ∀ j, Begun { g with
        m_last_issued_kernel := idx
        m_executed_kernel_uids := g.m_executed_kernel_uids ++ [k] } j → Begun g j ∨ j = k := by
      rintro j (hj | hj)
      · exact (List.mem_append.mp hj).imp .inl fun hj => List.mem_singleton.mp hj
      · exact .inl (.inr hj)
    refine ⟨h.others ⟨fun j hj hmore => ?_, fun j hj => ?_⟩, rfl, rfl, rfl, rfl, rfl, rfl, ?_⟩
    · rcases hbegun j hj with hj | rfl
      · -- a kernel that was begun and has CTAs left would have been asked first
        obtain ⟨hfirst, hzero⟩ := h.current.first j hj hmore
        have hno := Gpu.no_more_iff.mpr (Gpu.more_left_iff.mp hmore).2
        rw [Gpu.lastIssued_eq_some.mpr ⟨hfirst, hno, hzero⟩] at hlast
        cases hlast
      · exact ⟨hplace, hlatency⟩
    · rcases hbegun j hj with hj | rfl
      · exact h.current.known j hj
      · exact hlisted _ j hplace
    · intro j hj
      obtain rfl := Option.some.inj hj
      exact .inl (List.mem_append_right _ (List.mem_singleton.mpr rfl))
  · exact ⟨h, rfl, rfl, rfl, rfl, rfl, rfl, by simp⟩

/-- An empty core has no CTA. -/
theorem Placed.empty (h : Placed cfg g) (hzero : (g.m_core c).m_not_completed = 0) :
    ∀ x ∈ g.live, x.sid ≠ c := by
  rintro x hx rfl
  have hpos := (h.status x.sid x.slot).mpr (List.mem_map.mpr ⟨x, hx, rfl⟩)
  rw [h.threads, List.sum_eq_zero_iff] at hzero
  have hmem := hzero _ (List.mem_map.mpr ⟨x, List.mem_filter.mpr ⟨hx, by simp⟩, rfl⟩)
  omega

theorem setCore_self {core : Core} : (g.setCore c core).m_core c = core := Function.update_self ..

theorem setCore_of_ne {core : Core} {d : Sid} (h : d ≠ c) :
    (g.setCore c core).m_core d = g.m_core d := Function.update_of_ne h ..

/-- An empty core is bound to a kernel that was selected. -/
theorem bind_sound (h : Sound launches cfg g) (hk : Begun g k)
    (hoff : cfg.gpgpu_concurrent_kernel_sm = false) (hzero : (g.m_core c).m_not_completed = 0) :
    Sound launches cfg (g.setCore c { g.m_core c with m_kernel := some k }) := by
  have hbegun : ∀ j, Begun (g.setCore c { g.m_core c with m_kernel := some k }) j →
      Begun g j := by
    rintro j (hj | hj | ⟨d, hj⟩)
    · exact .inl hj
    · exact .inr (.inl hj)
    · rcases eq_or_ne d c with rfl | hd
      · rw [setCore_self] at hj
        exact Option.some.inj hj ▸ hk
      · rw [setCore_of_ne hd] at hj
        exact .inr (.inr ⟨d, hj⟩)
  refine ⟨h.placed.bind rfl rfl rfl rfl rfl rfl (fun _ x hx hsid => ?_) fun hon => ?_,
    h.counted.congr rfl rfl rfl rfl (fun _ => rfl) fun _ => rfl,
    h.listed.congr rfl rfl rfl h.listed.ended h.listed.notDone,
    ⟨fun j hj hmore => h.current.first j (hbegun j hj) hmore,
      fun j hj => h.current.known j (hbegun j hj)⟩⟩
  · exact absurd hsid (h.placed.empty hzero x hx)
  · rw [hoff] at hon
    cases hon

/-- What a core is given, and what that leaves as it is. -/
structure Offered (cfg : DispatchConfig) (g g' : Gpu) (c : Sid) (r : Option Nat) : Prop where
  kernels : g'.kernels = g.kernels
  live : g'.live = g.live
  issued : g'.issued = g.issued
  count : g'.m_total_cta_launched = g.m_total_cta_launched
  places : g'.m_running_kernels = g.m_running_kernels
  begun : ∀ k, r = some k → Begun g' k
  bound : cfg.gpgpu_concurrent_kernel_sm = false → ∀ k, r = some k →
    (g'.m_core c).m_kernel = some k

theorem kernelFor_sound {r : Option Nat} (h : Sound launches cfg g)
    (hs : g.kernelFor launches cfg c = some (g', r)) :
    Sound launches cfg g' ∧ Offered cfg g g' c r := by
  unfold Gpu.kernelFor at hs
  split at hs
  · rename_i hon
    obtain ⟨hsound, hsel⟩ := select_kernel_sound h hs
    refine ⟨hsound, hsel.kernels, hsel.live, hsel.issued, hsel.count, hsel.places, hsel.begun,
      fun hoff => ?_⟩
    rw [hon] at hoff
    cases hoff
  · rename_i hoff
    have hoff : cfg.gpgpu_concurrent_kernel_sm = false := Bool.eq_false_iff.mpr hoff
    have hkept : Sound launches cfg g ∧ Offered cfg g g c (g.m_core c).m_kernel :=
      ⟨h, rfl, rfl, rfl, rfl, rfl, fun k hk => .inr (.inr ⟨c, hk⟩), fun _ k hk => hk⟩
    split at hs
    · obtain ⟨rfl, rfl⟩ := Prod.mk.inj (Option.some.inj hs)
      exact hkept
    · split at hs
      · rename_i hzero
        obtain ⟨⟨g₁, r₁⟩, hsel, heq⟩ := Option.map_eq_some_iff.mp hs
        obtain ⟨hsound, hsel⟩ := select_kernel_sound h hsel
        cases r₁ with
        | none =>
          obtain ⟨rfl, rfl⟩ := Prod.mk.inj heq
          exact ⟨hsound, hsel.kernels, hsel.live, hsel.issued, hsel.count, hsel.places, by simp,
            by simp⟩
        | some k =>
          obtain ⟨rfl, rfl⟩ := Prod.mk.inj heq
          have hbegun := hsel.begun k rfl
          refine ⟨bind_sound hsound hbegun hoff (hsel.core ▸ hzero), hsel.kernels, hsel.live,
            hsel.issued, hsel.count, hsel.places, fun j hj => ?_, fun _ j hj => ?_⟩
          · obtain rfl := Option.some.inj hj
            refine .inr (.inr ⟨c, ?_⟩)
            rw [setCore_self]
          · obtain rfl := Option.some.inj hj
            rw [setCore_self]
      · obtain ⟨rfl, rfl⟩ := Prod.mk.inj (Option.some.inj hs)
        exact hkept

/-! ## Issuing CTAs -/

/-- A change of one core begins no kernel. -/
theorem Begun.of_update {core : Core} {j : Nat} (hj : Begun g' j)
    (hexecuted : g'.m_executed_kernel_uids = g.m_executed_kernel_uids)
    (hnext : (g'.kernels j).m_next_cta = (g.kernels j).m_next_cta)
    (hcore : g'.m_core = Function.update g.m_core c core)
    (hkernel : core.m_kernel = some j → (g.m_core c).m_kernel = some j) : Begun g j := by
  rcases hj with hj | hj | ⟨d, hj⟩
  · exact .inl (hexecuted ▸ hj)
  · exact .inr (.inl (hnext ▸ hj))
  · rw [hcore] at hj
    rcases eq_or_ne d c with rfl | hd
    · rw [Function.update_self] at hj
      exact .inr (.inr ⟨d, hkernel hj⟩)
    · rw [Function.update_of_ne hd] at hj
      exact .inr (.inr ⟨d, hj⟩)

/-- A kernel that was begun and has CTAs left is running, with its next CTA in the grid. -/
theorem Sound.ready (h : Sound launches cfg g) (hbegun : Begun g k)
    (hmore : g.kernel_more_cta_left launches cfg (some k) = true) :
    some k ∈ g.m_running_kernels ∧ (g.kernels k).m_next_cta.Inside (launches k).m_grid_dim :=
  ⟨List.mem_of_getElem? (h.current.first k hbegun hmore).1, (Gpu.more_left_iff.mp hmore).2⟩

theorem issueOnCore_sound (h : Sound launches cfg g) (hbegun : Begun g k)
    (hmore : g.kernel_more_cta_left launches cfg (some k) = true)
    (hbound : cfg.gpgpu_concurrent_kernel_sm = false → (g.m_core c).m_kernel = some k)
    (hs : g.issueOnCore launches cfg c k = some g') :
    Sound launches cfg g' ∧ (∃ e, g'.issued = g.issued ++ [e]) ∧
      g'.m_total_cta_launched = g.m_total_cta_launched := by
  obtain ⟨hrunning, hin⟩ := h.ready hbegun hmore
  unfold Gpu.issueOnCore at hs
  split at hs
  · cases hs
  · obtain ⟨⟨slot, hw⟩, htake, rfl⟩ := Option.map_eq_some_iff.mp hs
    obtain ⟨hfree, hst⟩ := takeSlot_spec htake
    have hnot := (h.listed.places k).mp hrunning
    refine ⟨⟨h.placed.issue (x := ⟨c, slot, k, (g.kernels k).m_next_cta⟩) rfl rfl
      (launches k).threads_pos hfree hst rfl rfl rfl rfl hbound,
      h.counted.issue (x := ⟨c, slot, k, (g.kernels k).m_next_cta⟩) rfl rfl rfl rfl rfl rfl rfl
        rfl hnot.1 hin, h.listed.congr rfl rfl rfl (fun j hj => ?_) fun j hj => ?_,
      ⟨fun j hj hleft => ?_, fun j hj => ?_⟩⟩, ⟨_, rfl⟩, rfl⟩
    · have hne : j ≠ k := fun heq => hnot.2 (heq ▸ hj)
      dsimp only
      rw [Function.update_of_ne hne]
      refine ⟨(h.listed.ended j hj).1, (more_left_eq ?_ ?_).trans (h.listed.ended j hj).2⟩
      · rfl
      · exact congrArg Kernel.m_next_cta (Function.update_of_ne hne _ _)
    · rw [Gpu.done_iff]
      dsimp only
      rcases eq_or_ne j k with rfl | hne
      · rw [Function.update_self]
        exact .inr (Nat.succ_pos _)
      · rw [Function.update_of_ne hne]
        exact Gpu.done_iff.mp (h.listed.notDone j hj)
    · rcases eq_or_ne j k with rfl | hne
      · dsimp only
        rw [Function.update_self]
        exact h.current.first j hbegun hmore
      · dsimp only at hleft ⊢
        rw [Function.update_of_ne hne]
        refine h.current.first j ?_ ((more_left_eq ?_ ?_).symm.trans hleft)
        · exact hj.of_update rfl (congrArg _ (Function.update_of_ne hne _ _)) rfl id
        · rfl
        · exact congrArg Kernel.m_next_cta (Function.update_of_ne hne _ _)
    · rcases eq_or_ne j k with rfl | hne
      · exact hnot.1
      · refine h.current.known j ?_
        exact hj.of_update rfl (congrArg _ (Function.update_of_ne hne _ _)) rfl id

end gpgpu_sim_uvm.cta_dispatch
