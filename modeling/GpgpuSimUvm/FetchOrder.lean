-- The order in which the translation requests of one core reach the page table
-- walk. A cluster queue takes its requests in front and gives them away in
-- front, so that two requests of one core that meet there change places.
import GpgpuSimUvm.Frames

namespace gpgpu_sim_uvm

open monitor

variable (cfg : Config)

/-! ## The requests of one core -/

/-- The fetch is one of the core `sid`. -/
def MemFetch.isOf (sid : Nat) (mf : MemFetch) : Bool := decide (mf.sid = sid)

/-- The fetches of the core `sid` that the GMMU has taken, the oldest first. -/
def walkedBy (g : Gpu) (sid : Nat) : List MemFetch := g.walked.reverse.filter (MemFetch.isOf sid)

/-- The fetches of the core `sid` in the queue of its cluster, the front first. -/
def waitingIn (g : Gpu) (sid : Nat) : List MemFetch :=
  (g.m_cu_gmmu_queue (sid / cfg.n_simt_cores_per_cluster)).filter (MemFetch.isOf sid)

/-- All requests of the core `sid`: those that the GMMU has taken, those of the
cluster queue, and those of its own queue. -/
def requests (g : Gpu) (sid : Nat) : List MemFetch :=
  walkedBy g sid ++ (waitingIn cfg g sid ++ (g.ldst sid).m_cu_gmmu_queue)

/-- The requests of each core are where they belong, and their serial numbers,
which count the requests as they are made, stand in the relation `R`. -/
structure Requested (R : Nat → Nat → Prop) (g : Gpu) : Prop where
  related : ∀ sid, (requests cfg g sid).Pairwise (fun a b => R a.serial b.serial)
  fresh : ∀ sid, ∀ mf ∈ requests cfg g sid, mf.serial < g.next_fetch
  own : ∀ sid, ∀ mf ∈ (g.ldst sid).m_cu_gmmu_queue, mf.sid = sid
  home : ∀ c, ∀ mf ∈ g.m_cu_gmmu_queue c, mf.sid / cfg.n_simt_cores_per_cluster = c

/-- The requests of each core stand in the order in which it made them. -/
abbrev InOrder : Gpu → Prop := Requested cfg (· < ·)

section

variable {cfg} {R : Nat → Nat → Prop} {g g' : Gpu}

/-- A step that spares the three queues. -/
theorem Requested.same (h : Requested cfg R g) (hwalked : g'.walked = g.walked)
    (hcluster : g'.m_cu_gmmu_queue = g.m_cu_gmmu_queue) (hnext : g'.next_fetch = g.next_fetch)
    (hcore : ∀ sid, (g'.ldst sid).m_cu_gmmu_queue = (g.ldst sid).m_cu_gmmu_queue) :
    Requested cfg R g' := by
  have hreq : ∀ sid, requests cfg g' sid = requests cfg g sid := by
    intro sid
    simp only [requests, walkedBy, waitingIn, hwalked, hcluster, hcore]
  refine ⟨?_, ?_, ?_, ?_⟩
  · intro sid
    rw [hreq]
    exact h.related sid
  · intro sid mf hmf
    rw [hreq] at hmf
    rw [hnext]
    exact h.fresh sid mf hmf
  · intro sid mf hmf
    rw [hcore] at hmf
    exact h.own sid mf hmf
  · intro c mf hmf
    rw [hcluster] at hmf
    exact h.home c mf hmf

/-- A step that leaves every core's requests the same, wherever they are now, or
moves one over others where the relation does not mind. -/
theorem Requested.moved (h : Requested cfg R g)
    (hreq : ∀ sid, (requests cfg g' sid).Perm (requests cfg g sid))
    (hsame : (∀ sid, requests cfg g' sid = requests cfg g sid) ∨ Std.Symm R)
    (hnext : g'.next_fetch = g.next_fetch)
    (hown : ∀ sid, ∀ mf ∈ (g'.ldst sid).m_cu_gmmu_queue, mf.sid = sid)
    (hhome : ∀ c, ∀ mf ∈ g'.m_cu_gmmu_queue c, mf.sid / cfg.n_simt_cores_per_cluster = c) :
    Requested cfg R g' := by
  refine ⟨?_, ?_, hown, hhome⟩
  · intro sid
    rcases hsame with hsame | hsymm
    · rw [hsame]
      exact h.related sid
    · exact ((hreq sid).pairwise_iff fun hab => hsymm.symm _ _ hab).mpr (h.related sid)
  · intro sid mf hmf
    rw [hnext]
    exact h.fresh sid mf ((hreq sid).mem_iff.mp hmf)

/-! ## A new request -/

theorem Requested.tlbMiss (hR : ∀ a b, a < b → R a b) (h : Requested cfg R g) (sid : Nat)
    (w : WarpInst) (a : MemAccess) (rest : List MemAccess) :
    Requested cfg R (tlbMiss g sid w a rest) := by
  have hself : requests cfg (gpgpu_sim_uvm.tlbMiss g sid w a rest) sid =
      requests cfg g sid ++ [⟨g.next_fetch, sid, a, w.info⟩] := by
    simp only [requests, walkedBy, waitingIn, gpgpu_sim_uvm.tlbMiss, setLdst_self, List.append_assoc]
  have hothers : ∀ s, s ≠ sid → requests cfg (gpgpu_sim_uvm.tlbMiss g sid w a rest) s =
      requests cfg g s := by
    intro s hs
    simp only [requests, walkedBy, waitingIn, gpgpu_sim_uvm.tlbMiss, setLdst_ne g _ hs]
  refine ⟨?_, ?_, ?_, h.home⟩
  · intro s
    by_cases hs : s = sid
    · subst hs
      rw [hself]
      apply List.pairwise_append.mpr
      refine ⟨h.related s, List.pairwise_singleton _ _, ?_⟩
      intro x hx y hy
      rw [List.mem_singleton.mp hy]
      exact hR _ _ (h.fresh s x hx)
    · rw [hothers s hs]
      exact h.related s
  · intro s mf hmf
    have hnext : (gpgpu_sim_uvm.tlbMiss g sid w a rest).next_fetch = g.next_fetch + 1 := rfl
    rw [hnext]
    by_cases hs : s = sid
    · subst hs
      rw [hself] at hmf
      rcases List.mem_append.mp hmf with hmf | hmf
      · exact Nat.lt_succ_of_lt (h.fresh s mf hmf)
      · rw [List.mem_singleton.mp hmf]
        exact Nat.lt_succ_self _
    · rw [hothers s hs] at hmf
      exact Nat.lt_succ_of_lt (h.fresh s mf hmf)
  · intro s mf hmf
    by_cases hs : s = sid
    · subst hs
      simp only [gpgpu_sim_uvm.tlbMiss, setLdst_self] at hmf
      rcases List.mem_append.mp hmf with hmf | hmf
      · exact h.own s mf hmf
      · rw [List.mem_singleton.mp hmf]
    · simp only [gpgpu_sim_uvm.tlbMiss, setLdst_ne g _ hs] at hmf
      exact h.own s mf hmf

/-! ## From the core to its cluster -/

/-- The queue of the cluster has no fetch of the core, or the core none for it. -/
def KeepsApart (c : Nat) (g : Gpu) (sid : Nat) : Prop :=
  (g.ldst sid).m_cu_gmmu_queue = [] ∨ (g.m_cu_gmmu_queue c).filter (MemFetch.isOf sid) = []

/-- Where the fetch in front of a core joins the queue of its cluster. -/
theorem core_request_cons {c sid : Nat} {mf : MemFetch} {rest : List MemFetch}
    (hq : (g.ldst sid).m_cu_gmmu_queue = mf :: rest) :
    core_request c g sid =
      { g with
        m_cu_gmmu_queue := fun d =>
          if d = c then mf :: g.m_cu_gmmu_queue d else g.m_cu_gmmu_queue d
        ldst := setLdst g sid { g.ldst sid with m_cu_gmmu_queue := rest } } := by
  simp only [core_request, hq]

/-- The fetch in front goes past the fetches of its core that wait in the
cluster. -/
theorem requests_core_request (h : Requested cfg R g) {c sid : Nat}
    (hc : sid / cfg.n_simt_cores_per_cluster = c) (s : Nat) :
    (requests cfg (core_request c g sid) s).Perm (requests cfg g s) ∧
      (KeepsApart c g sid → requests cfg (core_request c g sid) s = requests cfg g s) := by
  cases hq : (g.ldst sid).m_cu_gmmu_queue with
  | nil =>
    have hsame : core_request c g sid = g := by simp only [core_request, hq]
    rw [hsame]
    exact ⟨List.Perm.refl _, fun _ => rfl⟩
  | cons mf rest =>
    have hmf : mf.sid = sid := h.own sid mf (by rw [hq]; exact List.mem_cons_self)
    rw [core_request_cons hq]
    by_cases hs : s = sid
    · subst hs
      simp only [requests, walkedBy, waitingIn, setLdst_self, hc, if_true, hq, List.filter_cons,
        MemFetch.isOf, hmf, decide_true]
      refine ⟨List.Perm.append_left _ List.perm_middle.symm, ?_⟩
      rintro (hnone | hnone)
      · rw [hq] at hnone
        cases hnone
      · rw [hnone]
        rfl
    · have hsame : requests cfg
          { g with
            m_cu_gmmu_queue := fun d =>
              if d = c then mf :: g.m_cu_gmmu_queue d else g.m_cu_gmmu_queue d
            ldst := setLdst g sid { g.ldst sid with m_cu_gmmu_queue := rest } } s =
          requests cfg g s := by
        simp only [requests, walkedBy, waitingIn, setLdst_ne g _ hs]
        split
        · have hout : MemFetch.isOf s mf = false := by
            simp only [MemFetch.isOf, hmf, decide_eq_false_iff_not]
            exact Ne.symm hs
          rw [List.filter_cons_of_neg (by simp [hout])]
        · rfl
      rw [hsame]
      exact ⟨List.Perm.refl _, fun _ => rfl⟩

theorem Requested.core_request (h : Requested cfg R g) {c sid : Nat}
    (hc : sid / cfg.n_simt_cores_per_cluster = c) (hapart : KeepsApart c g sid ∨ Std.Symm R) :
    Requested cfg R (core_request c g sid) := by
  have hreq := requests_core_request h hc
  apply h.moved (fun s => (hreq s).1)
  · rcases hapart with hapart | hsymm
    · exact Or.inl fun s => (hreq s).2 hapart
    · exact Or.inr hsymm
  · rw [core_request_frame]
  · intro s x hx
    cases hq : (g.ldst sid).m_cu_gmmu_queue with
    | nil =>
      simp only [gpgpu_sim_uvm.core_request, hq] at hx
      exact h.own s x hx
    | cons mf rest =>
      rw [core_request_cons hq] at hx
      by_cases hs : s = sid
      · subst hs
        simp only [setLdst_self] at hx
        exact h.own s x (by rw [hq]; exact List.mem_cons_of_mem _ hx)
      · simp only [setLdst_ne g _ hs] at hx
        exact h.own s x hx
  · intro d x hx
    cases hq : (g.ldst sid).m_cu_gmmu_queue with
    | nil =>
      simp only [gpgpu_sim_uvm.core_request, hq] at hx
      exact h.home d x hx
    | cons mf rest =>
      have hmf : mf.sid = sid := h.own sid mf (by rw [hq]; exact List.mem_cons_self)
      rw [core_request_cons hq] at hx
      by_cases hd : d = c
      · subst hd
        simp only [if_true] at hx
        rcases List.mem_cons.mp hx with rfl | hx
        · rw [hmf, hc]
        · exact h.home d x hx
      · simp only [hd, if_false] at hx
        exact h.home d x hx

/-- The cores of a cluster, one after the other. -/
theorem Requested.core_requests {c : Nat} {sids : List Nat} (h : Requested cfg R g)
    (hc : ∀ sid ∈ sids, sid / cfg.n_simt_cores_per_cluster = c) (hnodup : sids.Nodup)
    (hapart : (∀ sid ∈ sids, KeepsApart c g sid) ∨ Std.Symm R) :
    Requested cfg R (sids.foldl (gpgpu_sim_uvm.core_request c) g) := by
  induction sids generalizing g with
  | nil => exact h
  | cons sid sids ih =>
    obtain ⟨hnot, hnodup⟩ := List.nodup_cons.mp hnodup
    have hstep := h.core_request (hc sid List.mem_cons_self)
      (hapart.imp_left fun hapart => hapart sid List.mem_cons_self)
    apply ih hstep (fun s hs => hc s (List.mem_cons_of_mem _ hs)) hnodup
    apply hapart.imp_left
    intro hapart s hs
    have hne : s ≠ sid := by
      rintro rfl
      exact hnot hs
    have hs' := hapart s (List.mem_cons_of_mem _ hs)
    unfold gpgpu_sim_uvm.core_request
    split
    · exact hs'
    · rename_i mf rest hq
      have hmf : mf.sid = sid := h.own sid mf (by rw [hq]; exact List.mem_cons_self)
      have hout : ¬ MemFetch.isOf s mf = true := by
        simp only [MemFetch.isOf, hmf, decide_eq_true_eq]
        exact Ne.symm hne
      unfold KeepsApart at hs' ⊢
      simp only [setLdst_ne g _ hne, if_true, List.filter_cons_of_neg hout]
      exact hs'

theorem Requested.cluster_reply (h : Requested cfg R g) (c : Nat) :
    Requested cfg R (cluster_reply g c) := by
  have hcore : ∀ sid, ((gpgpu_sim_uvm.cluster_reply g c).ldst sid).m_cu_gmmu_queue =
      (g.ldst sid).m_cu_gmmu_queue := by
    intro sid
    unfold gpgpu_sim_uvm.cluster_reply
    split
    · rfl
    · exact unit_same Ldst.m_cu_gmmu_queue (by rfl) (by rfl) sid
  apply h.same _ _ _ hcore
  · rw [cluster_reply_frame]
  · rw [cluster_reply_frame]
  · rw [cluster_reply_frame]

/-! ## From the cluster to the GMMU -/

theorem fetchFrom_cons {c : Nat} {mf : MemFetch} {rest : List MemFetch}
    (hq : g.m_cu_gmmu_queue c = mf :: rest) :
    fetchFrom cfg g c =
      { g with
        page_table_walk_queue :=
          g.page_table_walk_queue ++ [(mf, g.sim_cycle + cfg.page_table_walk_latency)]
        m_cu_gmmu_queue := fun d => if d = c then rest else g.m_cu_gmmu_queue d
        walked := mf :: g.walked } := by
  simp only [fetchFrom, hq]

theorem Requested.fetchFrom (h : Requested cfg R g) (c : Nat) :
    Requested cfg R (fetchFrom cfg g c) := by
  cases hq : g.m_cu_gmmu_queue c with
  | nil =>
    have hsame : gpgpu_sim_uvm.fetchFrom cfg g c = g := by simp only [gpgpu_sim_uvm.fetchFrom, hq]
    rw [hsame]
    exact h
  | cons mf rest =>
    have hhome := h.home c mf (by rw [hq]; exact List.mem_cons_self)
    rw [fetchFrom_cons hq]
    have hreq : ∀ s, requests cfg
        { g with
          page_table_walk_queue :=
            g.page_table_walk_queue ++ [(mf, g.sim_cycle + cfg.page_table_walk_latency)]
          m_cu_gmmu_queue := fun d => if d = c then rest else g.m_cu_gmmu_queue d
          walked := mf :: g.walked } s = requests cfg g s := by
      intro s
      simp only [requests, walkedBy, waitingIn, List.reverse_cons, List.filter_append]
      by_cases hs : mf.sid = s
      · subst hs
        have hin : MemFetch.isOf mf.sid mf = true := by simp [MemFetch.isOf]
        simp only [hhome, if_true, hq, List.filter_cons_of_pos hin, List.filter_nil,
          List.append_assoc, List.cons_append, List.nil_append]
      · have hout : ¬ MemFetch.isOf s mf = true := by simpa [MemFetch.isOf] using hs
        rw [List.filter_cons_of_neg hout, List.filter_nil, List.append_nil]
        by_cases hc : s / cfg.n_simt_cores_per_cluster = c
        · rw [if_pos hc, hc, hq, List.filter_cons_of_neg hout]
        · rw [if_neg hc]
    apply h.moved (fun s => by rw [hreq]) (Or.inl hreq)
    · rfl
    · exact h.own
    · intro d x hx
      by_cases hd : d = c
      · subst hd
        simp only [if_true] at hx
        exact h.home d x (by rw [hq]; exact List.mem_cons_of_mem _ hx)
      · simp only [hd, if_false] at hx
        exact h.home d x hx

theorem Requested.fetch_from_clusters (h : Requested cfg R g) : Requested cfg R (fetch_from_clusters cfg g) := by
  unfold gpgpu_sim_uvm.fetch_from_clusters
  induction List.range cfg.n_simt_clusters generalizing g with
  | nil => exact h
  | cons c cs ih => exact ih (h.fetchFrom c)

/-! ## Cycles -/

theorem Requested.gmmu_cycle (h : Requested cfg R g) : Requested cfg R (gmmu_cycle cfg g) := by
  apply gmmu_cycle_keeps cfg _ _ _ _ _ _ _ _ _ h
  · intro g h
    rw [eviction_check_frame]
    exact h.same rfl rfl rfl fun _ => rfl
  · intro g h
    exact h.same rfl rfl rfl fun _ => rfl
  · intro g h
    have hcore : ∀ sid, ((write_back_schedule cfg g).ldst sid).m_cu_gmmu_queue =
        (g.ldst sid).m_cu_gmmu_queue := by
      intro sid
      unfold write_back_schedule
      split <;> rfl
    rw [write_back_schedule_frame]
    exact h.same rfl rfl rfl hcore
  · intro g h
    rw [read_done_frame]
    exact h.same rfl rfl rfl fun _ => rfl
  · intro g h
    rw [read_schedule_frame]
    exact h.same rfl rfl rfl fun _ => rfl
  · intro g h
    rw [page_table_walk_frame]
    exact h.same rfl rfl rfl fun _ => rfl
  · intro g h
    rw [do_hardware_prefetch_frame]
    exact h.same rfl rfl rfl fun _ => rfl
  · intro g h
    exact h.fetch_from_clusters
  · intro g h
    rw [user_prefetch_frame]
    exact h.same rfl rfl rfl fun _ => rfl

theorem Requested.ldst_cycle (hR : ∀ a b, a < b → R a b) (h : Requested cfg R g) (sid : Nat)
    (p : Port) : Requested cfg R (ldst_cycle cfg g sid p) := by
  apply ldst_cycle_keeps cfg _ _ _ h
  · intro g h
    have hnoted : ∀ a rest,
        Requested cfg R (noteAccess cfg (meetAccesses cfg g sid a rest) a rest) :=
      fun _ _ => h.same rfl rfl rfl fun _ => rfl
    have hcase := access_cycle_cases cfg g sid
    generalize access_cycle cfg g sid = s at hcase ⊢
    cases hcase with
    | idle => exact h
    | passes => exact h.same rfl rfl rfl fun _ => rfl
    | @hits w a rest =>
      apply (hnoted a rest).same _ _ _ (tlbHit_unit cfg _ (fun _ _ _ => rfl) _ sid _)
      · rw [tlbHit_frame]
      · rw [tlbHit_frame]
      · rw [tlbHit_frame]
    | misses => exact (hnoted _ _).tlbMiss hR sid _ _ _
  · intro g h
    apply h.same _ _ _ (memory_cycle_cu_gmmu cfg g sid p)
    · rw [memory_cycle_frame]
    · rw [memory_cycle_frame]
    · rw [memory_cycle_frame]
  · intro g h
    exact h.same rfl rfl rfl (unit_same Ldst.m_cu_gmmu_queue (by rfl) (by rfl))

end

/-! ## Runs -/

/-- The cores of a cluster. -/
def coresOf (c : Nat) : List Nat :=
  List.range' (c * cfg.n_simt_cores_per_cluster) cfg.n_simt_cores_per_cluster

/-- Where the step moves requests into the queue of a cluster, none of them
meets a request of its own core there. -/
def meetsNone (g : Gpu) : Action → Bool
  | .icnt_cycle c => (coresOf cfg c).all fun sid =>
      (g.ldst sid).m_cu_gmmu_queue.isEmpty ||
        ((g.m_cu_gmmu_queue c).filter (MemFetch.isOf sid)).isEmpty
  | _ => true

theorem Requested.icnt_cycle {R : Nat → Nat → Prop} {g : Gpu} (h : Requested cfg R g) {c : Nat}
    (hapart : meetsNone cfg g (.icnt_cycle c) = true ∨ Std.Symm R) :
    Requested cfg R (icnt_cycle cfg g c) := by
  simp only [meetsNone, List.all_eq_true, Bool.or_eq_true, List.isEmpty_iff] at hapart
  have hreply := h.cluster_reply c
  apply hreply.core_requests
  · intro sid hs
    obtain ⟨i, hi, rfl⟩ := List.mem_range'.mp hs
    rw [Nat.one_mul, Nat.mul_comm, Nat.mul_add_div (by omega), Nat.div_eq_of_lt hi, Nat.add_zero]
  · exact List.nodup_range'
  · apply hapart.imp_left
    intro hapart sid hs
    have hcore : ((gpgpu_sim_uvm.cluster_reply g c).ldst sid).m_cu_gmmu_queue =
        (g.ldst sid).m_cu_gmmu_queue := by
      unfold gpgpu_sim_uvm.cluster_reply
      split
      · rfl
      · exact unit_same Ldst.m_cu_gmmu_queue (by rfl) (by rfl) sid
    have hcluster : (gpgpu_sim_uvm.cluster_reply g c).m_cu_gmmu_queue = g.m_cu_gmmu_queue := by
      rw [cluster_reply_frame]
    unfold KeepsApart
    rw [hcore, hcluster]
    exact hapart sid hs

theorem Requested.perform {R : Nat → Nat → Prop} (hR : ∀ a b, a < b → R a b) {g : Gpu}
    (h : Requested cfg R g) {a : Action} (hapart : meetsNone cfg g a = true ∨ Std.Symm R) :
    Requested cfg R (perform cfg g a) := by
  cases a with
  | issue sid w bytes =>
    exact h.same rfl rfl rfl (unit_same Ldst.m_cu_gmmu_queue (by rfl) (by rfl))
  | dispatch sid k => exact h.same rfl rfl rfl (unit_same Ldst.m_cu_gmmu_queue (by rfl) (by rfl))
  | ldst_cycle sid p => exact h.ldst_cycle hR sid p
  | icnt_cycle c => exact h.icnt_cycle cfg hapart
  | gmmu_cycle => exact h.gmmu_cycle
  | answer sid k how =>
    have hcore := answer_unit cfg Ldst.m_cu_gmmu_queue (fun _ _ => rfl) g sid k how
    simp only [gpgpu_sim_uvm.perform]
    rw [answer_frame]
    exact h.same rfl rfl rfl hcore
  | cudaSetupArgument p =>
    simp only [gpgpu_sim_uvm.perform]
    rw [cudaSetupArgument_frame]
    exact h.same rfl rfl rfl fun _ => rfl
  | cudaMemPrefetchAsync p n s =>
    simp only [gpgpu_sim_uvm.perform]
    rw [cudaMemPrefetchAsync_frame]
    exact h.same rfl rfl rfl fun _ => rfl
  | cudaMallocManaged _ _ | cudaMalloc _ | host_write _ _ | activate_prefetch _ _ _
  | log_kernel_start _ | log_kernel_finish _ | cudaDeviceSynchronize | do_atomic _ _ _ | tick =>
    exact h.same rfl rfl rfl fun _ => rfl

theorem requested_boot (R : Nat → Nat → Prop) : Requested cfg R (boot cfg) := by
  refine ⟨?_, ?_, ?_, ?_⟩
  · intro sid
    simp [requests, walkedBy, waitingIn, boot]
  · intro sid mf hmf
    simp [requests, walkedBy, waitingIn, boot] at hmf
  · intro sid mf hmf
    simp [boot] at hmf
  · intro c mf hmf
    simp [boot] at hmf

/-- However the requests meet, no two of a core are the same. -/
theorem requests_are_distinct {g : Gpu} (hr : Reachable cfg g) : Requested cfg (· ≠ ·) g := by
  have hsymm : Std.Symm fun a b : Nat => a ≠ b := ⟨fun _ _ h => h.symm⟩
  induction hr with
  | start => exact requested_boot cfg _
  | step _ hn ih =>
    obtain ⟨a, ha⟩ := hn
    obtain ⟨_, rfl, _⟩ := step_eq_some cfg ha
    exact ih.perform cfg (fun _ _ => Nat.ne_of_lt) (Or.inr hsymm)

end gpgpu_sim_uvm
