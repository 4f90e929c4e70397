-- Runs of the CTA dispatch: every CTA of a grid is issued once, in order, and a kernel is
-- reported when its last CTA is complete.
import GpgpuSimUvm.CtaDispatchLaws
import GpgpuSimUvm.Machines

namespace gpgpu_sim_uvm.cta_dispatch

variable {launches : Nat → Launch} {cfg : DispatchConfig} {g g' : Gpu} {c : Sid} {k : Nat}

/-! ## Issuing on the clusters -/

/-- What a cluster that issued `num` CTAs changed of the counts. -/
structure Issued (cfg : DispatchConfig) (g g' : Gpu) (num : Nat) : Prop where
  count : g'.m_total_cta_launched = g.m_total_cta_launched
  length : g'.issued.length = g.issued.length + num
  room : num = 0 ∨ num = 1 ∧ g.hit_max_cta_count cfg = false

theorem issueOnCluster_sound {cluster num : Nat} {cores : List Nat} (h : Sound launches cfg g)
    (hs : Gpu.issueOnCluster launches cfg cluster g cores = some (g', num)) :
    Sound launches cfg g' ∧ Issued cfg g g' num := by
  induction cores generalizing g with
  | nil =>
    obtain ⟨rfl, rfl⟩ := Prod.mk.inj (Option.some.inj hs)
    exact ⟨h, rfl, rfl, .inl rfl⟩
  | cons core cores ih =>
    unfold Gpu.issueOnCluster at hs
    obtain ⟨⟨g₁, r⟩, hfor, hs⟩ := Option.bind_eq_some_iff.mp hs
    obtain ⟨hsound, hoffer⟩ := kernelFor_sound h hfor
    -- the cores behind this one
    have hrest : Gpu.issueOnCluster launches cfg cluster g₁ cores = some (g', num) →
        Sound launches cfg g' ∧ Issued cfg g g' num := by
      intro hs
      obtain ⟨hsound', hissued⟩ := ih hsound hs
      refine ⟨hsound', hissued.count.trans hoffer.count, ?_, ?_⟩
      · rw [hissued.length, hoffer.issued]
      · have hroom := hissued.room
        unfold Gpu.hit_max_cta_count at hroom ⊢
        rwa [hoffer.count] at hroom
    cases r with
    | none => exact hrest hs
    | some k =>
      dsimp only at hs
      split at hs
      · rename_i hmore
        obtain ⟨ok, -, hs⟩ := Option.bind_eq_some_iff.mp hs
        split at hs
        · obtain ⟨g₂, hissue, heq⟩ := Option.map_eq_some_iff.mp hs
          obtain ⟨rfl, rfl⟩ := Prod.mk.inj heq
          obtain ⟨hsound', ⟨e, he⟩, hcount⟩ := issueOnCore_sound hsound (hoffer.begun k rfl) hmore
            (fun hoff => hoffer.bound hoff k rfl) hissue
          refine ⟨hsound'.others ⟨hsound'.current.first, hsound'.current.known⟩,
            hcount.trans hoffer.count, ?_, ?_⟩
          · rw [← hoffer.issued]
            exact (congrArg List.length he).trans (by simp)
          · have hroom := (Gpu.more_left_iff.mp hmore).1
            unfold Gpu.hit_max_cta_count at hroom ⊢
            rw [hoffer.count] at hroom
            exact .inr ⟨rfl, hroom⟩
        · exact hrest hs
      · exact hrest hs

/-- The count of CTAs, and its limit. -/
structure Numbered (cfg : DispatchConfig) (g : Gpu) : Prop where
  count : g.m_total_cta_launched = g.issued.length
  limit : cfg.gpu_max_cta_opt ≠ 0 → g.issued.length ≤ cfg.gpu_max_cta_opt

/-- The count of CTAs grows. -/
theorem count_sound {count : Nat} (h : Sound launches cfg g)
    (hle : g.m_total_cta_launched ≤ count) :
    Sound launches cfg { g with m_total_cta_launched := count } := by
  refine ⟨h.placed.congr rfl rfl, h.counted.congr rfl rfl rfl rfl (fun _ => rfl) fun _ => rfl,
    h.listed.congr rfl rfl rfl (fun j hj => ⟨(h.listed.ended j hj).1, ?_⟩) h.listed.notDone,
    fun j hj hmore => h.current.first j hj ?_, h.current.known⟩
  · rw [Bool.eq_false_iff]
    intro hmore
    have hold : g.kernel_more_cta_left launches cfg (some j) = true := by
      refine more_left_mono ?_ ?_ hmore
      · exact hle
      · rfl
    rw [(h.listed.ended j hj).2] at hold
    cases hold
  · refine more_left_mono ?_ ?_ hmore
    · exact hle
    · rfl

theorem issueOnClusters_sound {idxs : List Nat} (h : Sound launches cfg g)
    (hn : Numbered cfg g) (hs : Gpu.issueOnClusters launches cfg g idxs = some g') :
    Sound launches cfg g' ∧ Numbered cfg g' ∧ g.issued.length ≤ g'.issued.length := by
  induction idxs generalizing g with
  | nil =>
    obtain rfl := Option.some.inj hs
    exact ⟨h, hn, Nat.le_refl _⟩
  | cons idx idxs ih =>
    unfold Gpu.issueOnClusters at hs
    obtain ⟨⟨g₁, num⟩, hcluster, hs⟩ := Option.bind_eq_some_iff.mp hs
    obtain ⟨hsound, hissued⟩ := issueOnCluster_sound h hcluster
    dsimp only at hs
    split at hs
    · rename_i hzero
      have hlength := hissued.length
      rw [hzero, Nat.add_zero] at hlength
      obtain ⟨hsound', hn', hle⟩ := ih hsound ⟨hissued.count.trans (hn.count.trans hlength.symm),
        hlength ▸ hn.limit⟩ hs
      exact ⟨hsound', hn', hlength ▸ hle⟩
    · rename_i hne
      obtain ⟨rfl, hroom⟩ := hissued.room.resolve_left hne
      have hlength := hissued.length
      have hcount := count_sound hsound (Nat.le_succ g₁.m_total_cta_launched)
      have hnext : Sound launches cfg { g₁ with
          m_last_cluster_issue := idx
          m_total_cta_launched := g₁.m_total_cta_launched + 1 } :=
        hcount.others ⟨hcount.current.first, hcount.current.known⟩
      have hnumbered : Numbered cfg { g₁ with
          m_last_cluster_issue := idx
          m_total_cta_launched := g₁.m_total_cta_launched + 1 } := by
        refine ⟨?_, fun hopt => ?_⟩
        · dsimp only
          rw [hissued.count, hn.count, hlength]
        · unfold Gpu.hit_max_cta_count at hroom
          simp only [hopt, ne_eq, not_false_eq_true, decide_true, Bool.true_and,
            decide_eq_false_iff_not] at hroom
          have hcount := hn.count
          dsimp only
          omega
      obtain ⟨hsound', hn', hle⟩ := ih hnext hnumbered hs
      refine ⟨hsound', hn', Nat.le_trans ?_ hle⟩
      dsimp only
      omega

/-! ## Launching and finishing kernels -/

theorem findIdx?_getElem? {A : Type} {p : A → Bool} {l : List A} {n : Nat}
    (h : l.findIdx? p = some n) : ∃ a, l[n]? = some a ∧ p a = true := by
  obtain ⟨hlt, hp, -⟩ := List.findIdx?_eq_some_iff_getElem.mp h
  exact ⟨l[n], List.getElem?_eq_getElem hlt, hp⟩

theorem getElem?_set_some {l : List (Option Nat)} {n j m : Nat} (h : l[n]? = some none) :
    (l.set n (some k))[j]? = some (some m) ↔ j = n ∧ m = k ∨ l[j]? = some (some m) := by
  have hlt : n < l.length := (List.getElem?_eq_some_iff.mp h).1
  rw [List.getElem?_set]
  by_cases hj : j = n
  · subst hj
    rw [if_pos rfl, if_pos hlt, h]
    simp [eq_comm]
  · rw [if_neg fun heq => hj heq.symm]
    simp [hj]

theorem getElem?_set_none {l : List (Option Nat)} {n j m : Nat} :
    (l.set n none)[j]? = some (some m) ↔ j ≠ n ∧ l[j]? = some (some m) := by
  rw [List.getElem?_set]
  by_cases hj : j = n
  · subst hj
    simp
  · rw [if_neg fun heq => hj heq.symm]
    simp [hj]

theorem launch_sound (h : Sound launches cfg g) (hnew : k ∉ g.launched)
    (hpos : (launches k).m_grid_dim.Positive) (hs : g.launch launches cfg k = some g') :
    Sound launches cfg g' ∧ g'.issued = g.issued ∧
      g'.m_total_cta_launched = g.m_total_cta_launched := by
  unfold Gpu.launch at hs
  split at hs
  · cases hs
  · obtain ⟨n, hfind, rfl⟩ := Option.map_eq_some_iff.mp hs
    obtain ⟨e, hplace, hfree⟩ := findIdx?_getElem? hfind
    -- no kernel that is done has a place
    have hnone : g.m_running_kernels[n]? = some none := by
      cases e with
      | none => exact hplace
      | some j =>
        have hdone : g.done launches j = true := hfree
        rw [h.listed.notDone j (List.mem_of_getElem? hplace)] at hdone
        cases hdone
    have hmem : ∀ j, some j ∈ g.m_running_kernels.set n (some k) ↔
        j = k ∨ some j ∈ g.m_running_kernels := by
      intro j
      simp only [List.mem_iff_getElem?, getElem?_set_some hnone]
      constructor
      · rintro ⟨i, ⟨-, rfl⟩ | hi⟩
        · exact .inl rfl
        · exact .inr ⟨i, hi⟩
      · rintro (rfl | ⟨i, hi⟩)
        · exact ⟨n, .inl ⟨rfl, rfl⟩⟩
        · exact ⟨i, .inr hi⟩
    have hreported : k ∉ g.reported := fun hk => hnew (h.listed.reportedOf k hk)
    have hplaced : ∀ i, g.m_running_kernels[i]? ≠ some (some k) := fun i hi =>
      hnew ((h.listed.places k).mp (List.mem_of_getElem? hi)).1
    have hkernel : ∀ j, j ≠ k → Function.update g.kernels k
        { m_kernel_TB_latency := (launches k).m_kernel_TB_latency } j = g.kernels j :=
      fun j hj => Function.update_of_ne hj ..
    have hmore : ∀ j, j ≠ k → Gpu.kernel_more_cta_left launches cfg { g with
        m_running_kernels := g.m_running_kernels.set n (some k)
        kernels := Function.update g.kernels k
          { m_kernel_TB_latency := (launches k).m_kernel_TB_latency }
        launched := g.launched ++ [k] } (some j) =
          g.kernel_more_cta_left launches cfg (some j) := fun j hj =>
      more_left_eq rfl (congrArg Kernel.m_next_cta (hkernel j hj))
    have hbegun : ∀ j, Begun { g with
        m_running_kernels := g.m_running_kernels.set n (some k)
        kernels := Function.update g.kernels k
          { m_kernel_TB_latency := (launches k).m_kernel_TB_latency }
        launched := g.launched ++ [k] } j → j ≠ k ∧ Begun g j := by
      intro j hj
      have hne : j ≠ k := by
        rintro rfl
        refine hnew (h.current.known j ?_)
        rcases hj with hj | hj | hj
        · exact .inl hj
        · dsimp only at hj
          rw [Function.update_self] at hj
          exact absurd rfl hj
        · exact .inr (.inr hj)
      refine ⟨hne, hj.imp_right fun hj => hj.imp_left fun hj => ?_⟩
      dsimp only at hj
      rwa [hkernel j hne] at hj
    refine ⟨⟨h.placed.congr rfl rfl, h.counted.launch hpos hnew rfl rfl rfl rfl rfl rfl rfl,
      ⟨?_, fun j => ?_, fun i j m hi hj => ?_, h.listed.reportedOnce, fun j hj => ?_,
        fun j hj => ?_, fun j hj => ?_, ?_⟩, ⟨fun j hj hleft => ?_, fun j hj => ?_⟩⟩, rfl, rfl⟩
    · exact List.nodup_append.mpr ⟨h.listed.once, List.nodup_singleton k, fun a ha b hb heq =>
        hnew (List.mem_singleton.mp hb ▸ heq ▸ ha)⟩
    · dsimp only
      rw [hmem, h.listed.places, List.mem_append, List.mem_singleton]
      constructor
      · rintro (rfl | ⟨hj, hnot⟩)
        · exact ⟨.inr rfl, hreported⟩
        · exact ⟨.inl hj, hnot⟩
      · rintro ⟨hj | rfl, hnot⟩
        · exact .inr ⟨hj, hnot⟩
        · exact .inl rfl
    · rcases (getElem?_set_some hnone).mp hi with ⟨rfl, rfl⟩ | hi'
      · rcases (getElem?_set_some hnone).mp hj with ⟨rfl, -⟩ | hj'
        · rfl
        · exact absurd hj' (hplaced j)
      · rcases (getElem?_set_some hnone).mp hj with ⟨-, rfl⟩ | hj'
        · exact absurd hi' (hplaced i)
        · exact h.listed.single i j m hi' hj'
    · exact List.mem_append_left _ (h.listed.reportedOf j hj)
    · have hne : j ≠ k := fun heq => hreported (heq ▸ hj)
      rw [hmore j hne]
      dsimp only
      rw [hkernel j hne]
      exact h.listed.ended j hj
    · rw [Gpu.done_iff]
      dsimp only
      rcases (hmem j).mp hj with rfl | hj
      · rw [Function.update_self]
        exact .inl hpos.origin
      · have hne : j ≠ k := fun heq => hnew ((h.listed.places k).mp (heq ▸ hj)).1
        rw [hkernel j hne]
        exact Gpu.done_iff.mp (h.listed.notDone j hj)
    · exact List.length_set.trans h.listed.size
    · obtain ⟨hne, hj⟩ := hbegun j hj
      rw [hmore j hne] at hleft
      obtain ⟨hfirst, hlatency⟩ := h.current.first j hj hleft
      dsimp only
      rw [hkernel j hne]
      exact ⟨(getElem?_set_some hnone).mpr (.inr hfirst), hlatency⟩
    · exact List.mem_append_left _ (h.current.known j (hbegun j hj).2)

/-- A kernel that has no CTA any more leaves its place. -/
theorem set_kernel_done_sound (hplaced : Placed cfg g) (hcounted : Counted launches g)
    (hcurrent : Current launches cfg g) (honce : g.launched.Nodup)
    (hplaces : ∀ j, some j ∈ g.m_running_kernels ↔ j ∈ g.launched ∧ j ∉ g.reported)
    (hsingle : ∀ (i j m : Nat), g.m_running_kernels[i]? = some (some m) →
      g.m_running_kernels[j]? = some (some m) → i = j)
    (hreported : g.reported.Nodup) (hof : ∀ j ∈ g.reported, j ∈ g.launched)
    (hended : ∀ j, j ∈ g.reported ∨ j = k → (g.kernels j).m_num_cores_running = 0 ∧
      g.kernel_more_cta_left launches cfg (some j) = false)
    (hdone : ∀ j, j ≠ k → some j ∈ g.m_running_kernels → g.done launches j = false)
    (hsize : g.m_running_kernels.length = cfg.max_concurrent_kernel)
    (hs : g.set_kernel_done k = some g') :
    Sound launches cfg g' ∧ g'.issued = g.issued ∧
      g'.m_total_cta_launched = g.m_total_cta_launched := by
  unfold Gpu.set_kernel_done at hs
  obtain ⟨n, hfind, rfl⟩ := Option.map_eq_some_iff.mp hs
  obtain ⟨e, hplace, he⟩ := findIdx?_getElem? hfind
  obtain rfl := of_decide_eq_true he
  have hmem : ∀ j, some j ∈ g.m_running_kernels.set n none ↔
      some j ∈ g.m_running_kernels ∧ j ≠ k := by
    intro j
    simp only [List.mem_iff_getElem?, getElem?_set_none]
    constructor
    · rintro ⟨i, hi, hj⟩
      refine ⟨⟨i, hj⟩, ?_⟩
      rintro rfl
      exact hi (hsingle i n j hj hplace)
    · rintro ⟨⟨i, hi⟩, hj⟩
      refine ⟨i, ?_, hi⟩
      rintro rfl
      exact hj (Option.some.inj (Option.some.inj (hi.symm.trans hplace)))
  have hk := (hplaces k).mp (List.mem_of_getElem? hplace)
  refine ⟨⟨hplaced.congr rfl rfl, hcounted.congr rfl rfl rfl rfl (fun _ => rfl) fun _ => rfl,
    ⟨honce, fun j => ?_, fun i j m hi hj => ?_, ?_, fun j hj => ?_, fun j hj => ?_,
      fun j hj => ?_, List.length_set.trans hsize⟩, fun j hj hleft => ?_, hcurrent.known⟩,
    rfl, rfl⟩
  · dsimp only
    rw [hmem, hplaces, List.mem_append, List.mem_singleton, not_or, and_assoc]
  · exact hsingle i j m (getElem?_set_none.mp hi).2 (getElem?_set_none.mp hj).2
  · exact List.nodup_append.mpr ⟨hreported, List.nodup_singleton k, fun a ha b hb heq =>
      hk.2 (List.mem_singleton.mp hb ▸ heq ▸ ha)⟩
  · rcases List.mem_append.mp hj with hj | hj
    · exact hof j hj
    · exact List.mem_singleton.mp hj ▸ hk.1
  · exact hended j ((List.mem_append.mp hj).imp_right List.mem_singleton.mp)
  · obtain ⟨hj, hne⟩ := (hmem j).mp hj
    exact hdone j hne hj
  · obtain ⟨hfirst, hlatency⟩ := hcurrent.first j hj hleft
    refine ⟨getElem?_set_none.mpr ⟨?_, hfirst⟩, hlatency⟩
    intro heq
    dsimp only at heq
    rw [heq, hplace] at hfirst
    obtain rfl := Option.some.inj (Option.some.inj hfirst)
    have hleft' : g.kernel_more_cta_left launches cfg (some k) = true := hleft
    rw [(hended k (.inr rfl)).2] at hleft'
    cases hleft'

section

variable {core : Core} {slot j : Nat} {m : Option Nat}

theorem retire_self (hk : (core.cta_of slot).1 = k) :
    ((g.retire c core slot m).kernels k).m_num_cores_running =
      (g.kernels k).m_num_cores_running - 1 := by
  subst hk
  unfold Gpu.retire
  dsimp only
  rw [Function.update_self]

theorem retire_other (hj : j ≠ (core.cta_of slot).1) :
    (g.retire c core slot m).kernels j = g.kernels j := Function.update_of_ne hj ..

theorem retire_next : ((g.retire c core slot m).kernels j).m_next_cta =
    (g.kernels j).m_next_cta ∧ ((g.retire c core slot m).kernels j).m_kernel_TB_latency =
      (g.kernels j).m_kernel_TB_latency := by
  unfold Gpu.retire
  dsimp only
  rcases eq_or_ne j (core.cta_of slot).1 with rfl | hj
  · rw [Function.update_self]
    exact ⟨rfl, rfl⟩
  · rw [Function.update_of_ne hj]
    exact ⟨rfl, rfl⟩

theorem retire_more : (g.retire c core slot m).kernel_more_cta_left launches cfg (some j) =
    g.kernel_more_cta_left launches cfg (some j) := by
  refine more_left_eq ?_ retire_next.1
  rfl

end

/-- The state in which a CTA is complete and its kernel has its place still. -/
theorem retire_keeps (core : Core) {x : Cta} {m_kernel : Option Nat} (h : Sound launches cfg g)
    (hone : (g.m_core x.sid).hw.m_cta_status x.slot = 1)
    (hst : core.hw.m_cta_status =
      Function.update (g.m_core x.sid).hw.m_cta_status x.slot 0)
    (hof : core.cta_of = (g.m_core x.sid).cta_of) (hx : core.cta_of x.slot = x.entry)
    (hactive : core.m_n_active_cta = (g.m_core x.sid).m_n_active_cta)
    (hleft : core.m_not_completed = (g.m_core x.sid).m_not_completed - 1)
    (hkernel : ∀ j, m_kernel = some j → (g.m_core x.sid).m_kernel = some j)
    (hbound : cfg.gpgpu_concurrent_kernel_sm = false →
      ∀ y ∈ (g.retire x.sid core x.slot m_kernel).live, y.sid = x.sid → m_kernel = some y.kernel)
    (hsplit : ∃ l₁ l₂, g.live = l₁ ++ x :: l₂ ∧
      (g.retire x.sid core x.slot m_kernel).live = l₁ ++ l₂) :
    Placed cfg (g.retire x.sid core x.slot m_kernel) ∧
      Counted launches (g.retire x.sid core x.slot m_kernel) ∧
      Current launches cfg (g.retire x.sid core x.slot m_kernel) := by
  obtain ⟨l₁, l₂, hsplit, hlive⟩ := hsplit
  refine ⟨h.placed.finish rfl rfl hone hst hof (congrArg (· - 1) hactive) hleft hbound
    fun hon => ?_, ?_, fun j hj hmore => ?_, fun j hj => ?_⟩
  · dsimp only
    rcases hm : m_kernel with _ | j
    · rfl
    · have hsome := hkernel j hm
      rw [h.placed.unbound hon] at hsome
      cases hsome
  · have hk : (core.cta_of x.slot).1 = x.kernel := congrArg Prod.fst hx
    have hkernels : (g.retire x.sid core x.slot m_kernel).kernels =
        Function.update g.kernels x.kernel { g.kernels x.kernel with
          m_num_cores_running := (g.kernels x.kernel).m_num_cores_running - 1 } := by
      unfold Gpu.retire
      rw [hk]
    exact h.counted.finish hsplit rfl hlive (congrArg (g.completed ++ [·]) hx) rfl hkernels rfl rfl
  · rw [retire_next.2]
    refine h.current.first j (hj.of_update rfl retire_next.1 rfl (hkernel j)) ?_
    exact retire_more.symm.trans hmore
  · exact h.current.known j (hj.of_update rfl retire_next.1 rfl (hkernel j))

/-- The two ways in which the end of a CTA ends. -/
theorem finishCta_cases {core : Core} {slot : Nat}
    (hs : g.finishCta launches cfg c core slot = some g') (hk : (core.cta_of slot).1 = k) :
    ((g.kernels k).m_num_cores_running - 1 = 0 ∧
      g.kernel_more_cta_left launches cfg (some k) = false ∧
      ∃ m, (∀ j, m = some j → core.m_kernel = some j) ∧
        (g.retire c core slot m).set_kernel_done k = some g') ∨
    (((g.kernels k).m_num_cores_running - 1 = 0 →
      g.kernel_more_cta_left launches cfg (some k) = true) ∧
      g' = g.retire c core slot
        (if core.m_n_active_cta - 1 = 0 then none else core.m_kernel)) := by
  unfold Gpu.finishCta at hs
  dsimp only at hs
  rw [hk] at hs
  split at hs
  · cases hs
  · split at hs
    · cases hs
    · split at hs
      · rename_i hlast
        refine .inl ⟨hlast.1, hlast.2, _, fun j hj => ?_, hs⟩
        exact (Option.ite_none_left_eq_some.mp (Option.ite_none_left_eq_some.mp hj).2).2
      · rename_i hlast
        rw [if_neg fun hcon => hlast hcon.1] at hs
        obtain rfl := Option.some.inj hs
        refine .inr ⟨fun hzero => ?_, rfl⟩
        by_contra hmore
        exact hlast ⟨hzero, Bool.eq_false_iff.mpr hmore⟩

theorem Sound.kernel_of_live (h : Sound launches cfg g) {x : Cta} (hx : x ∈ g.live) :
    0 < (g.kernels x.kernel).m_num_cores_running ∧ some x.kernel ∈ g.m_running_kernels := by
  have hlive : 0 < (g.kernels x.kernel).m_num_cores_running := by
    rw [h.counted.running]
    exact List.countP_pos_iff.mpr ⟨x, hx, by simp⟩
  refine ⟨hlive, (h.listed.places _).mpr ⟨h.counted.known x.entry ?_, fun hcon => ?_⟩⟩
  · exact h.counted.split.mem_iff.mpr (List.mem_append_right _ (List.mem_map_of_mem hx))
  · have hzero := (h.listed.ended _ hcon).1
    omega

/-- Another CTA on the core of one that runs: the core is not empty without that one, and
where kernels do not share a core both belong to one kernel. -/
theorem Sound.sharing (h : Sound launches cfg g) {x : Cta} {l₁ l₂ : List Cta}
    (hsplit : g.live = l₁ ++ x :: l₂) (hoff : cfg.gpgpu_concurrent_kernel_sm = false) :
    ∀ y ∈ l₁ ++ l₂, y.sid = x.sid → (g.m_core x.sid).m_n_active_cta - 1 ≠ 0 ∧
      (g.m_core x.sid).m_kernel = some y.kernel ∧
        (g.kernels x.kernel).m_num_cores_running - 1 ≠ 0 := by
  intro y hy hsid
  have hx : x ∈ g.live := hsplit ▸ List.mem_append_right _ List.mem_cons_self
  have hmem : y ∈ g.live := by
    rw [hsplit]
    rcases List.mem_append.mp hy with hy | hy
    · exact List.mem_append_left _ hy
    · exact List.mem_append_right _ (List.mem_cons_of_mem _ hy)
  have hy' := h.placed.bound hoff y hmem
  rw [hsid] at hy'
  have hsame : y.kernel = x.kernel :=
    Option.some.inj (hy'.symm.trans (h.placed.bound hoff x hx))
  -- each count has the CTA and the other one
  have hcounts : ∀ p : Cta → Bool, p x = true → p y = true → g.live.countP p - 1 ≠ 0 := by
    intro p hpx hpy
    have hothers := List.countP_pos_iff.mpr ⟨y, hy, hpy⟩
    rw [List.countP_append] at hothers
    rw [hsplit, List.countP_append, List.countP_cons_of_pos hpx]
    omega
  refine ⟨?_, hy', ?_⟩
  · rw [h.placed.active]
    exact hcounts _ (by simp) (by simp [hsid])
  · rw [h.counted.running]
    exact hcounts _ (by simp) (by simp [hsame])

theorem thread_exit_sound {slot : Nat} (h : Sound launches cfg g)
    (hs : g.thread_exit launches cfg c slot = some g') :
    Sound launches cfg g' ∧ g'.issued = g.issued ∧
      g'.m_total_cta_launched = g.m_total_cta_launched := by
  unfold Gpu.thread_exit at hs
  obtain ⟨hw, hexit, hs⟩ := Option.bind_eq_some_iff.mp hs
  obtain ⟨hpos, hst⟩ := exitSlot_spec hexit
  dsimp only at hs
  split at hs
  · rename_i hzero
    have hone : (g.m_core c).hw.m_cta_status slot = 1 := by
      rw [hst, Function.update_self] at hzero
      omega
    obtain ⟨l₁, x, l₂, hsplit, rfl, rfl, hother, hfilter⟩ := h.placed.cta_at hpos
    have hx : x ∈ g.live := hsplit ▸ List.mem_append_right _ List.mem_cons_self
    have howner := h.placed.owner x hx
    have hothers := h.sharing hsplit
    have hunreported := ((h.listed.places _).mp (h.kernel_of_live hx).2).2
    rw [hone] at hst
    generalize hcore : ({ g.m_core x.sid with
      hw := hw
      m_not_completed := (g.m_core x.sid).m_not_completed - 1 } : Core) = core at hs
    have hof : core.cta_of = (g.m_core x.sid).cta_of := by rw [← hcore]
    have hwst : core.hw.m_cta_status =
        Function.update (g.m_core x.sid).hw.m_cta_status x.slot 0 := by rw [← hcore, hst]
    have hsame : core.m_n_active_cta = (g.m_core x.sid).m_n_active_cta := by rw [← hcore]
    have hcompleted : core.m_not_completed = (g.m_core x.sid).m_not_completed - 1 := by
      rw [← hcore]
    have hkernel : core.m_kernel = (g.m_core x.sid).m_kernel := by rw [← hcore]
    rw [← hof] at howner
    have hk : (core.cta_of x.slot).1 = x.kernel := congrArg Prod.fst howner
    rcases finishCta_cases hs hk with
      ⟨hlast, hleft, m, hm, hdone⟩ | ⟨hmore, rfl⟩
    · obtain ⟨hplaced, hcounted, hcurrent⟩ := retire_keeps core h hone hwst hof howner hsame
        hcompleted (fun j hj => hkernel ▸ hm j hj)
        (fun hoff y hy hsid => absurd hlast (hothers hoff y (hfilter ▸ hy) hsid).2.2)
        ⟨l₁, l₂, hsplit, hfilter⟩
      refine set_kernel_done_sound (g := g.retire ..) hplaced hcounted hcurrent h.listed.once
        h.listed.places h.listed.single h.listed.reportedOnce h.listed.reportedOf
        (fun j hj => ?_) (fun j hne hj => ?_) h.listed.size hdone
      · rw [retire_more]
        by_cases hne : j = x.kernel
        · subst hne
          exact ⟨(retire_self hk).trans hlast, hleft⟩
        · rw [retire_other (hk.symm ▸ hne)]
          exact h.listed.ended j (hj.resolve_right hne)
      · rw [Gpu.done_iff, retire_other (hk.symm ▸ hne)]
        exact Gpu.done_iff.mp (h.listed.notDone j hj)
    · have hbound : cfg.gpgpu_concurrent_kernel_sm = false → ∀ y ∈ l₁ ++ l₂, y.sid = x.sid →
          (if core.m_n_active_cta - 1 = 0 then none else core.m_kernel) = some y.kernel := by
        intro hoff y hy hsid
        obtain ⟨hactive', hbound, -⟩ := hothers hoff y hy hsid
        rw [hsame, if_neg hactive', hkernel, hbound]
      obtain ⟨hplaced, hcounted, hcurrent⟩ := retire_keeps core h hone hwst hof howner hsame
        hcompleted (fun j hj => hkernel ▸ (Option.ite_none_left_eq_some.mp hj).2)
        (fun hoff y hy => hbound hoff y (hfilter ▸ hy)) ⟨l₁, l₂, hsplit, hfilter⟩
      refine ⟨⟨hplaced, hcounted, h.listed.congr rfl rfl rfl (fun j hj => ?_) fun j hj => ?_,
        hcurrent⟩, rfl, rfl⟩
      · have hne : j ≠ x.kernel := fun heq => hunreported (heq ▸ hj)
        rw [retire_more, retire_other (hk.symm ▸ hne)]
        exact h.listed.ended j hj
      · rw [Gpu.done_iff]
        by_cases hne : j = x.kernel
        · subst hne
          rw [retire_next.1, retire_self hk]
          rcases Nat.eq_zero_or_pos ((g.kernels x.kernel).m_num_cores_running - 1) with hz | hp
          · exact .inl (Gpu.more_left_iff.mp (hmore hz)).2
          · exact .inr hp
        · rw [retire_other (hk.symm ▸ hne)]
          exact Gpu.done_iff.mp (h.listed.notDone j hj)
  · rename_i hne
    obtain rfl := Option.some.inj hs
    obtain ⟨n, hn⟩ : ∃ n, (g.m_core c).hw.m_cta_status slot = n + 2 := by
      rw [hst, Function.update_self] at hne
      exact ⟨(g.m_core c).hw.m_cta_status slot - 2, by omega⟩
    rw [hn] at hst
    refine ⟨⟨h.placed.exit rfl rfl hn hst rfl rfl rfl rfl,
      h.counted.congr rfl rfl rfl rfl (fun _ => rfl) fun _ => rfl,
      h.listed.congr rfl rfl rfl h.listed.ended h.listed.notDone,
      fun j hj hmore => h.current.first j ?_ hmore, fun j hj => h.current.known j ?_⟩, rfl, rfl⟩
    · exact hj.of_update rfl rfl rfl id
    · exact hj.of_update rfl rfl rfl id

/-! ## The other calls -/

theorem decrement_next : (g.decrement_kernel_latency.kernels k).m_next_cta =
    (g.kernels k).m_next_cta ∧ (g.decrement_kernel_latency.kernels k).m_num_cores_running =
      (g.kernels k).m_num_cores_running := by
  unfold Gpu.decrement_kernel_latency
  dsimp only
  split <;> exact ⟨rfl, rfl⟩

theorem decrement_zero (h : (g.kernels k).m_kernel_TB_latency = 0) :
    (g.decrement_kernel_latency.kernels k).m_kernel_TB_latency = 0 := by
  unfold Gpu.decrement_kernel_latency
  dsimp only
  split
  · rw [h]
  · exact h

theorem decrement_more : g.decrement_kernel_latency.kernel_more_cta_left launches cfg (some k) =
    g.kernel_more_cta_left launches cfg (some k) := by
  refine more_left_eq ?_ decrement_next.1
  rfl

theorem decrement_sound (h : Sound launches cfg g) :
    Sound launches cfg g.decrement_kernel_latency := by
  have hbegun : ∀ j, Begun g.decrement_kernel_latency j → Begun g j := by
    rintro j (hj | hj | hj)
    · exact .inl hj
    · exact .inr (.inl (decrement_next.1 ▸ hj))
    · exact .inr (.inr hj)
  refine ⟨h.placed.congr rfl rfl, h.counted.congr rfl rfl rfl rfl (fun _ => decrement_next.1)
    fun _ => decrement_next.2, h.listed.congr rfl rfl rfl (fun j hj => ?_) fun j hj => ?_,
    fun j hj hmore => ?_, fun j hj => h.current.known j (hbegun j hj)⟩
  · rw [decrement_more, decrement_next.2]
    exact h.listed.ended j hj
  · rw [Gpu.done_iff, decrement_next.1, decrement_next.2]
    exact Gpu.done_iff.mp (h.listed.notDone j hj)
  · obtain ⟨hfirst, hzero⟩ := h.current.first j (hbegun j hj) (decrement_more.symm.trans hmore)
    exact ⟨hfirst, decrement_zero hzero⟩

theorem clear_sound (h : Sound launches cfg g) :
    Sound launches cfg { g with m_executed_kernel_uids := [] } := by
  have hbegun : ∀ j, Begun { g with m_executed_kernel_uids := [] } j → Begun g j := by
    rintro j (hj | hj)
    · cases hj
    · exact .inr hj
  exact h.others ⟨fun j hj hmore => h.current.first j (hbegun j hj) hmore,
    fun j hj => h.current.known j (hbegun j hj)⟩

theorem finished_sound (h : Sound launches cfg g) :
    Sound launches cfg { g with m_finished_kernel := g.m_finished_kernel.tail } :=
  h.others ⟨h.current.first, h.current.known⟩

theorem start_sound : Sound launches cfg (.start cfg) := by
  have hnone : ∀ (i k : Nat), (Gpu.start cfg).m_running_kernels[i]? ≠ some (some k) := by
    intro i k hi
    have hmem := List.eq_of_mem_replicate (List.mem_of_getElem? hi)
    cases hmem
  have hplace : ∀ k, some k ∉ (Gpu.start cfg).m_running_kernels := by
    intro k hk
    obtain ⟨i, hi⟩ := List.mem_iff_getElem?.mp hk
    exact hnone i k hi
  have hbegun : ∀ k, ¬ Begun (Gpu.start cfg) k := by
    rintro k (hk | hk | ⟨c, hk⟩)
    · cases hk
    · exact hk rfl
    · cases hk
  refine ⟨⟨List.nodup_nil, fun c i => ?_, ?_, fun _ => rfl, fun _ => rfl, ?_, fun _ _ => rfl⟩,
    ⟨fun k => ?_, ?_, ?_, ?_, .nil, fun _ => rfl, fun _ _ => rfl⟩,
    ⟨List.nodup_nil, fun k => ?_, fun i j k hi => absurd hi (hnone i k), List.nodup_nil, ?_, ?_,
      fun k hk => absurd hk (hplace k), List.length_replicate⟩,
    fun k hk => absurd hk (hbegun k), fun k hk => absurd hk (hbegun k)⟩
  · simp [Gpu.start]
  · rintro x ⟨⟩
  · rintro - x ⟨⟩
  · exact (congrArg List.range (place_origin _)).symm
  · rintro e ⟨⟩
  · rintro k ⟨⟩
  · rintro e ⟨⟩
  · exact ⟨fun hk => absurd hk (hplace k), fun hk => nomatch hk.1⟩
  · rintro k ⟨⟩
  · rintro k ⟨⟩

theorem Numbered.congr (h : Numbered cfg g) (hissued : g'.issued = g.issued)
    (hcount : g'.m_total_cta_launched = g.m_total_cta_launched) : Numbered cfg g' := by
  refine ⟨?_, ?_⟩
  · rw [hcount, hissued, h.count]
  · rw [hissued]
    exact h.limit

theorem step_sound (h : Sound launches cfg g ∧ Numbered cfg g) {call : GpuCall}
    (hok : g.Proper launches call) (hs : g.step launches cfg call = some g') :
    Sound launches cfg g' ∧ Numbered cfg g' := by
  obtain ⟨h, hn⟩ := h
  cases call with
  | launch k =>
    obtain ⟨hsound, hissued, hcount⟩ := launch_sound h hok.1 hok.2 hs
    exact ⟨hsound, hn.congr hissued hcount⟩
  | issue_block2core =>
    obtain ⟨hsound, hn', -⟩ := issueOnClusters_sound h hn hs
    exact ⟨hsound, hn'⟩
  | thread_exit c slot =>
    obtain ⟨hsound, hissued, hcount⟩ := thread_exit_sound h hs
    exact ⟨hsound, hn.congr hissued hcount⟩
  | finished_kernel =>
    obtain rfl := Option.some.inj hs
    exact ⟨finished_sound h, hn.congr rfl rfl⟩
  | decrement_kernel_latency =>
    obtain rfl := Option.some.inj hs
    exact ⟨decrement_sound h, hn.congr rfl rfl⟩
  | clear_executed_kernel_info =>
    obtain rfl := Option.some.inj hs
    exact ⟨clear_sound h, hn.congr rfl rfl⟩

/-! ## What the invariant says -/

namespace Sound

/-- The assertion of `select_kernel` holds: what the loop selects was not selected before. -/
theorem selects (h : Sound launches cfg g) : ∃ r, g.select_kernel launches cfg = some r := by
  unfold Gpu.select_kernel
  split
  · split <;> exact ⟨_, rfl⟩
  · rename_i hlast
    split
    · rename_i idx k hfind
      obtain ⟨n, -, hcandidate⟩ := List.exists_of_findSome?_eq_some hfind
      obtain ⟨-, hmore, -⟩ := Gpu.candidate_eq_some hcandidate
      rw [if_neg]
      · exact ⟨_, rfl⟩
      · intro hk
        obtain ⟨hfirst, hzero⟩ := h.current.first k (.inl hk) hmore
        have hno := Gpu.no_more_iff.mpr (Gpu.more_left_iff.mp hmore).2
        rw [Gpu.lastIssued_eq_some.mpr ⟨hfirst, hno, hzero⟩] at hlast
        cases hlast
    · exact ⟨_, rfl⟩

/-- Where the context takes the exit of a thread, the core and its kernel do. -/
theorem exits (h : Sound launches cfg g) {slot : Nat} {hw : ShaderCore}
    (hexit : exitSlot cfg (g.m_core c).hw slot = some hw) :
    ∃ g', g.thread_exit launches cfg c slot = some g' := by
  obtain ⟨hpos, -⟩ := exitSlot_spec hexit
  obtain ⟨l₁, x, l₂, hsplit, rfl, rfl, -, -⟩ := h.placed.cta_at hpos
  have hx : x ∈ g.live := hsplit ▸ List.mem_append_right _ List.mem_cons_self
  obtain ⟨hlive, hrunning⟩ := h.kernel_of_live hx
  have hk : ((g.m_core x.sid).cta_of x.slot).1 = x.kernel :=
    congrArg Prod.fst (h.placed.owner x hx)
  have hcore : (g.m_core x.sid).m_kernel ≠ some x.kernel →
      g.kernel_more_cta_left launches cfg (g.m_core x.sid).m_kernel = false := by
    intro hne
    rcases Bool.eq_false_or_eq_true cfg.gpgpu_concurrent_kernel_sm with hon | hoff
    · rw [h.placed.unbound hon]
      simp [Gpu.kernel_more_cta_left]
    · exact absurd (h.placed.bound hoff x hx) hne
  unfold Gpu.thread_exit
  rw [hexit, Option.bind_some]
  dsimp only
  split
  · unfold Gpu.finishCta
    dsimp only
    rw [hk, if_neg, if_neg (Nat.ne_of_gt hlive)]
    · split
      · unfold Gpu.set_kernel_done
        have hfound : (g.m_running_kernels.findIdx? fun kernel =>
            decide (kernel = some x.kernel)).isSome = true := by
          rw [List.findIdx?_isSome, List.any_eq_true]
          exact ⟨some x.kernel, hrunning, decide_eq_true rfl⟩
        obtain ⟨n, hn⟩ := Option.isSome_iff_exists.mp hfound
        exact ⟨_, Option.map_eq_some_iff.mpr ⟨n, hn, rfl⟩⟩
      · exact ⟨_, rfl⟩
    · rintro ⟨-, hne, hmore⟩
      rw [hcore hne] at hmore
      cases hmore
  · exact ⟨_, rfl⟩

theorem begun_of_issued (h : Sound launches cfg g) {e : Nat × Dim3} (he : e ∈ g.issued) :
    Begun g e.1 := by
  refine .inr (.inl fun hzero => ?_)
  have hmem : e.2.place (launches e.1).m_grid_dim ∈
      List.range ((g.kernels e.1).m_next_cta.place (launches e.1).m_grid_dim) := by
    rw [← h.counted.order]
    exact List.mem_map.mpr ⟨e, List.mem_filter.mpr ⟨he, by simp⟩, rfl⟩
  rw [hzero, place_origin] at hmem
  cases hmem

/-- Of the kernels that have issued CTAs at most one has CTAs left. -/
theorem one_under_way (h : Sound launches cfg g) {d e : Nat × Dim3} (hd : d ∈ g.issued)
    (he : e ∈ g.issued) (hdmore : g.kernel_more_cta_left launches cfg (some d.1) = true)
    (hemore : g.kernel_more_cta_left launches cfg (some e.1) = true) : d.1 = e.1 := by
  have hfirst := (h.current.first _ (h.begun_of_issued hd) hdmore).1
  rw [(h.current.first _ (h.begun_of_issued he) hemore).1] at hfirst
  exact (Option.some.inj (Option.some.inj hfirst)).symm

theorem issued_once (h : Sound launches cfg g) : g.issued.Nodup := by
  refine List.nodup_iff_count_le_one.mpr fun e => ?_
  have hplaces : ((g.issued.filter fun d => decide (d.1 = e.1)).map fun d =>
      d.2.place (launches e.1).m_grid_dim).Nodup := by
    rw [h.counted.order]
    exact List.nodup_range
  calc g.issued.count e
      = (g.issued.filter fun d => decide (d.1 = e.1)).count e :=
        (List.count_filter (by simp)).symm
    _ ≤ _ := List.count_le_count_map
    _ ≤ 1 := List.nodup_iff_count_le_one.mp hplaces _

/-- A kernel that was reported has no CTA that runs, and with no limit its grid is complete. -/
theorem reported_complete (h : Sound launches cfg g) (hk : k ∈ g.reported) :
    (∀ x ∈ g.live, x.kernel ≠ k) ∧ (cfg.gpu_max_cta_opt = 0 →
      ((g.completed.filter fun e => decide (e.1 = k)).map fun e =>
        e.2.place (launches k).m_grid_dim).Perm (List.range (launches k).m_grid_dim.volume)) := by
  obtain ⟨hzero, hmore⟩ := h.listed.ended k hk
  have hlive : ∀ x ∈ g.live, x.kernel ≠ k := by
    rintro x hx rfl
    have hpos := (h.kernel_of_live hx).1
    omega
  refine ⟨hlive, fun hopt => ?_⟩
  -- the next CTA of the kernel is behind the grid
  have hplace : (launches k).m_grid_dim.volume ≤
      (g.kernels k).m_next_cta.place (launches k).m_grid_dim := by
    rw [← not_lt, ← (h.counted.reached k (h.listed.reportedOf k hk)).inside_iff]
    intro hin
    have hleft := Gpu.more_left_iff.mpr
      ⟨(by simp [Gpu.hit_max_cta_count, hopt] : g.hit_max_cta_count cfg = false), hin⟩
    rw [hmore] at hleft
    cases hleft
  have hle : (g.kernels k).m_next_cta.place (launches k).m_grid_dim ≤
      (launches k).m_grid_dim.volume := by
    rw [← not_lt]
    intro hlt
    have hmem := List.mem_range.mpr hlt
    rw [← h.counted.order] at hmem
    obtain ⟨e, he, heq⟩ := List.mem_map.mp hmem
    obtain ⟨hissued, hek⟩ := List.mem_filter.mp he
    obtain rfl := of_decide_eq_true hek
    exact absurd heq (Nat.ne_of_lt (h.counted.inside e hissued).place_lt)
  have hnone : (g.live.map Cta.entry).filter (fun e => decide (e.1 = k)) = [] := by
    refine List.filter_eq_nil_iff.mpr fun e he hek => ?_
    obtain ⟨x, hx, rfl⟩ := List.mem_map.mp he
    exact hlive x hx (of_decide_eq_true hek)
  have hsplit := (h.counted.split.filter fun e => decide (e.1 = k)).map fun e =>
    e.2.place (launches k).m_grid_dim
  rw [h.counted.order, List.filter_append, hnone, List.append_nil, Nat.le_antisymm hle hplace]
    at hsplit
  exact hsplit.symm

end Sound

/-! ## Every run -/

/-- After any calls the CTAs of a grid are issued once each and in order, one kernel after
the other, and each runs or is complete. A kernel is reported once, when none of its CTAs
runs or is left, and not forgotten. No assertion stops a selection or the end of a CTA. -/
theorem grids_are_issued_in_order {calls : List GpuCall}
    (hproper : machines.Allowed (Gpu.step launches cfg) (Gpu.Proper launches) (.start cfg) calls)
    (hrun : machines.run (Gpu.step launches cfg) (.start cfg) calls = some g) :
    (∀ k, ((g.issued.filter fun e => decide (e.1 = k)).map fun e =>
      e.2.place (launches k).m_grid_dim) =
        List.range ((g.kernels k).m_next_cta.place (launches k).m_grid_dim)) ∧
      g.issued.Nodup ∧
      (∀ e ∈ g.issued, e.1 ∈ g.launched ∧ e.2.Inside (launches e.1).m_grid_dim) ∧
      g.issued.Perm (g.completed ++ g.live.map Cta.entry) ∧
      g.m_total_cta_launched = g.issued.length ∧
      (cfg.gpu_max_cta_opt ≠ 0 → g.issued.length ≤ cfg.gpu_max_cta_opt) ∧
      (∀ d ∈ g.issued, ∀ e ∈ g.issued, g.kernel_more_cta_left launches cfg (some d.1) = true →
        g.kernel_more_cta_left launches cfg (some e.1) = true → d.1 = e.1) ∧
      (cfg.gpgpu_concurrent_kernel_sm = false →
        ∀ x ∈ g.live, ∀ y ∈ g.live, x.sid = y.sid → x.kernel = y.kernel) ∧
      g.reported.Nodup ∧
      (∀ k ∈ g.reported, (∀ x ∈ g.live, x.kernel ≠ k) ∧ (cfg.gpu_max_cta_opt = 0 →
        ((g.completed.filter fun e => decide (e.1 = k)).map fun e =>
          e.2.place (launches k).m_grid_dim).Perm (List.range (launches k).m_grid_dim.volume))) ∧
      (∀ k ∈ g.launched, k ∉ g.reported →
        g.no_more_ctas_to_run launches k = false ∨ ∃ x ∈ g.live, x.kernel = k) ∧
      (∃ r, g.select_kernel launches cfg = some r) ∧
      ∀ c slot hw, exitSlot cfg (g.m_core c).hw slot = some hw →
        ∃ g', g.thread_exit launches cfg c slot = some g' := by
  have hstart : Numbered cfg (.start cfg) := ⟨rfl, fun _ => Nat.zero_le _⟩
  obtain ⟨h, hn⟩ := machines.keeps_allowed (fun _ _ _ h hok hs => step_sound h hok hs) hproper
    ⟨start_sound, hstart⟩ hrun
  refine ⟨h.counted.order, h.issued_once, fun e he => ⟨h.counted.known e he,
    h.counted.inside e he⟩, h.counted.split, hn.count, hn.limit,
    fun d hd e he => h.one_under_way hd he, fun hoff x hx y hy hsid => ?_,
    h.listed.reportedOnce, fun k hk => h.reported_complete hk, fun k hk hnot => ?_, h.selects,
    fun c slot hw hexit => h.exits hexit⟩
  · have hx' := h.placed.bound hoff x hx
    rw [hsid, h.placed.bound hoff y hy] at hx'
    exact (Option.some.inj hx').symm
  · have hdone := h.listed.notDone k ((h.listed.places k).mpr ⟨hk, hnot⟩)
    rw [Gpu.done_iff, ← Gpu.no_more_iff, h.counted.running, List.countP_pos_iff] at hdone
    exact hdone.imp_right fun ⟨x, hx, heq⟩ => ⟨x, hx, of_decide_eq_true heq⟩

instance decidablePositive (bound : Dim3) : Decidable bound.Positive :=
  decidable_of_iff (0 < bound.x.toNat ∧ 0 < bound.y.toNat ∧ 0 < bound.z.toNat)
    ⟨fun h => ⟨h.1, h.2.1, h.2.2⟩, fun h => ⟨h.x, h.y, h.z⟩⟩

instance decidableProper (g : Gpu) : ∀ call, Decidable (g.Proper launches call)
  | .launch k =>
    inferInstanceAs (Decidable (k ∉ g.launched ∧ (launches k).m_grid_dim.Positive))
  | .issue_block2core | .thread_exit _ _ | .finished_kernel | .decrement_kernel_latency
  | .clear_executed_kernel_info => inferInstanceAs (Decidable True)

/-- Two cores, each with room for two CTAs. -/
def twoCores : DispatchConfig where
  n_thread_per_shader := 64
  warp_size := 32
  gpgpu_shmem_size := 1024
  gpgpu_shader_registers := 1024
  max_cta_per_core := 2
  MAX_THREAD_PER_SM := 64
  n_simt_clusters := 1
  n_simt_cores_per_cluster := 2
  max_concurrent_kernel := 2

/-- Grids of three CTAs. -/
def threeBlocks (_ : Nat) : Launch where
  m_grid_dim := ⟨3, 1, 1⟩
  m_block_dim := ⟨1, 1, 1⟩
  threads_pos := by decide

def twoGrids : List GpuCall :=
  [.launch 4, .launch 5, .issue_block2core, .issue_block2core, .issue_block2core,
    .issue_block2core, .thread_exit (0, 1) 0, .issue_block2core, .thread_exit (0, 0) 0,
    .thread_exit (0, 0) 1]

/-- The second grid starts on the core that is empty first, and the first grid is reported
with its third CTA. -/
theorem second_grid_follows : ∃ g,
    machines.run (Gpu.step threeBlocks twoCores) (.start twoCores) twoGrids = some g ∧
      g.issued = [(4, ⟨0, 0, 0⟩), (4, ⟨1, 0, 0⟩), (4, ⟨2, 0, 0⟩), (5, ⟨0, 0, 0⟩)] ∧
      g.reported = [4] ∧ ∀ x ∈ g.live, x.kernel ≠ 4 := by
  have hproper : machines.Allowed (Gpu.step threeBlocks twoCores) (Gpu.Proper threeBlocks)
      (.start twoCores) twoGrids := by
    decide +kernel
  have hends : (machines.run (Gpu.step threeBlocks twoCores) (.start twoCores) twoGrids).map
      (fun g => (g.issued, g.reported)) =
        some ([(4, ⟨0, 0, 0⟩), (4, ⟨1, 0, 0⟩), (4, ⟨2, 0, 0⟩), (5, ⟨0, 0, 0⟩)], [4]) := by
    decide +kernel
  obtain ⟨g, hrun, heq⟩ := Option.map_eq_some_iff.mp hends
  obtain ⟨hissued, hreported⟩ := Prod.mk.inj heq
  obtain ⟨-, -, -, -, -, -, -, -, -, hcomplete, -⟩ := grids_are_issued_in_order hproper hrun
  exact ⟨g, hrun, hissued, hreported, (hcomplete 4 (by rw [hreported]; decide)).1⟩

end gpgpu_sim_uvm.cta_dispatch
