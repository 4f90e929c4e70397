-- What the functions of the simulator can change. For each function one lemma
-- says that the history only grows behind it, and one names the fields that
-- it may change: the state behind it is the old one with these fields new.
import GpgpuSimUvm.System

namespace gpgpu_sim_uvm

open monitor

/-! ## The history -/

/-- `g'` has gone on from `g`: nothing that happened is taken back. -/
structure Grows (g g' : Gpu) : Prop where
  history : g.history ⊆ g'.history
  aborted : g'.aborted = false → g.aborted = false

namespace Grows

theorem refl (g : Gpu) : Grows g g := ⟨List.Subset.refl _, id⟩

theorem trans {a b c : Gpu} (h : Grows a b) (h' : Grows b c) : Grows a c :=
  ⟨List.Subset.trans h.history h'.history, fun hc => h.aborted (h'.aborted hc)⟩

theorem foldl {A : Type} {f : Gpu → A → Gpu} (hf : ∀ g a, Grows g (f g a)) (as : List A)
    (g : Gpu) : Grows g (as.foldl f g) := by
  induction as generalizing g with
  | nil => exact refl g
  | cons a as ih => exact (hf g a).trans (ih (f g a))

/-- The same for loops that carry other locals along. -/
theorem foldl_fst {A B : Type} {f : Gpu × B → A → Gpu × B}
    (hf : ∀ s a, Grows s.1 (f s a).1) (as : List A) (s : Gpu × B) :
    Grows s.1 (as.foldl f s).1 := by
  induction as generalizing s with
  | nil => exact refl s.1
  | cons a as ih => exact (hf s a).trans (ih (f s a))

/-- An update that adds events in front and can only add a reason to abort. -/
theorem of_update {g g' : Gpu} (es : List Event) (b : Bool) (hh : g'.history = es ++ g.history)
    (ha : g'.aborted = (g.aborted || b)) : Grows g g' := by
  refine ⟨?_, ?_⟩
  · rw [hh]
    exact List.subset_append_right es g.history
  · intro h
    rw [ha, Bool.or_eq_false_iff] at h
    exact h.1

/-- An update that touches neither the history nor `aborted`. -/
theorem of_same {g g' : Gpu} (hh : g'.history = g.history) (ha : g'.aborted = g.aborted) :
    Grows g g' :=
  of_update [] false hh (by rw [ha, Bool.or_false])

end Grows

/-- A watch over a run: nothing aborted, and every event is as `ok` wants it. -/
structure Watched (ok : Event → Bool) (g : Gpu) : Prop where
  runs : g.aborted = false
  events : ∀ e ∈ g.history, ok e = true

theorem Watched.before {ok : Event → Bool} {g g' : Gpu} (h : Watched ok g') (hg : Grows g g') :
    Watched ok g :=
  ⟨hg.aborted h.runs, fun e he => h.events e (hg.history he)⟩

/-- A step under a watch of the events. -/
theorem Grows.follows {ok : Event → Bool} {Inv : Gpu → Prop} {g g' : Gpu} (hg : Grows g g')
    (h : Inv g → Watched ok g' → Inv g') : monitor.Follows (Watched ok) Inv g g' :=
  ⟨fun hw => hw.before hg, h⟩

/-- A step that the invariant does not notice. -/
theorem Grows.unnoticed {ok : Event → Bool} {Inv : Gpu → Prop} {g g' : Gpu} (hg : Grows g g')
    (h : Inv g → Inv g') : monitor.Follows (Watched ok) Inv g g' :=
  hg.follows fun hi _ => h hi

variable (cfg : Config)

/-! ## The history only grows -/

theorem require_grows (g : Gpu) (b : Bool) : Grows g (g.require b) := .of_update [] _ rfl rfl

theorem log_grows (g : Gpu) (e : Event) : Grows g (g.log e) :=
  .of_update [e] false rfl (Bool.or_false _).symm

theorem updateBlock_grows (g : Gpu) (a s : Nat) (p : Bool) : Grows g (updateBlock g a s p) :=
  .of_update [_] _ rfl rfl

theorem refresh_valid_pages_grows (g : Gpu) (a : Nat) : Grows g (refresh_valid_pages cfg g a) :=
  .of_update [] _ rfl rfl

theorem reclaimPage_grows (g : Gpu) (p : Nat) : Grows g (reclaimPage cfg g p) := by
  have hmark : Grows g (markReclaimed g p) := .of_same rfl rfl
  exact (hmark.trans (updateBlock_grows _ _ _ _)).trans (refresh_valid_pages_grows cfg _ _)

theorem check_write_stage_queue_grows (g : Gpu) (p : Nat) :
    Grows g (check_write_stage_queue cfg g p) := by
  unfold check_write_stage_queue
  split
  · exact Grows.refl g
  · exact (Grows.foldl (reclaimPage_grows cfg) _ g).trans (.of_same rfl rfl)

theorem takeVictims_grows (g : Gpu) (vp : List EvictionT) (v : Victims) :
    Grows g (takeVictims g vp v) :=
  .of_update (v.event ++ [_]) v.abort (by rw [List.append_assoc]; rfl) rfl

theorem stageEviction_grows (g : Gpu) (r : Nat × Nat) : Grows g (stageEviction cfg g r) :=
  .of_same rfl rfl

theorem page_eviction_procedure_grows (g : Gpu) : Grows g (page_eviction_procedure cfg g) :=
  (takeVictims_grows g _ _).trans (Grows.foldl (stageEviction_grows cfg) _ _)

theorem detectPattern_grows (g : Gpu) : Grows g (detectPattern cfg g) := by
  unfold detectPattern
  split
  · exact .of_same rfl rfl
  · exact Grows.refl g

theorem eviction_check_grows (g : Gpu) : Grows g (eviction_check cfg g) := by
  simp only [eviction_check]
  split
  · exact ((detectPattern_grows cfg g).trans (log_grows _ _)).trans
      (page_eviction_procedure_grows cfg _)
  · exact Grows.refl g

theorem write_back_done_grows (g : Gpu) : Grows g (write_back_done cfg g) := .of_same rfl rfl

theorem startWriteBack_grows (g : Gpu) (t : PcieLatency) (rest : List PcieLatency) :
    Grows g (startWriteBack cfg g t rest) := by
  refine ⟨?_, ?_⟩
  · simp only [startWriteBack]
    refine List.Subset.trans ?_ (List.subset_cons_self _ _)
    split
    · exact List.subset_cons_self _ _
    · exact List.Subset.refl _
  · intro h
    simp only [startWriteBack, Bool.or_eq_false_iff] at h
    exact h.1.1

theorem write_back_schedule_grows (g : Gpu) : Grows g (write_back_schedule cfg g) := by
  unfold write_back_schedule
  split
  · exact startWriteBack_grows cfg g _ _
  · exact Grows.refl g

theorem replay_grows (g : Gpu) (mf : MemFetch) : Grows g (replay cfg g mf) := .of_same rfl rfl

theorem completePrefetched_grows (g : Gpu) (p : Nat) : Grows g (completePrefetched g p) := by
  unfold completePrefetched
  split
  · exact Grows.refl g
  · split
    · exact .of_same rfl rfl
    · exact Grows.refl g

theorem completeFaulted_grows (g : Gpu) (p : Nat) : Grows g (completeFaulted cfg g p) :=
  (Grows.foldl (replay_grows cfg) _ g).trans (.of_same rfl rfl)

theorem admitPage_grows (g : Gpu) (p : Nat) : Grows g (admitPage cfg g p) := by
  refine Grows.trans ?_ (refresh_valid_pages_grows cfg _ _)
  exact .of_update [] _ rfl rfl

theorem completePage_grows (g : Gpu) (p : Nat) : Grows g (completePage cfg g p) :=
  ((admitPage_grows cfg g p).trans (completePrefetched_grows _ p)).trans
    (completeFaulted_grows cfg _ p)

theorem finishRead_grows (g : Gpu) (t : PcieLatency) : Grows g (finishRead cfg g t) := by
  unfold finishRead
  split
  · exact Grows.foldl (completePage_grows cfg) _ g
  · cases t.mf with
    | none => exact Grows.refl g
    | some mf => exact replay_grows cfg g mf
  · exact Grows.refl g

theorem read_done_grows (g : Gpu) : Grows g (read_done cfg g) := by
  unfold read_done
  split
  · exact Grows.refl g
  · split
    · exact (finishRead_grows cfg g _).trans (.of_same rfl rfl)
    · exact Grows.refl g

theorem read_schedule_grows (g : Gpu) : Grows g (read_schedule cfg g) := by
  unfold read_schedule
  split
  · split
    · exact .of_update [] _ rfl rfl
    · exact Grows.refl g
  · exact Grows.refl g

theorem newFault_grows (g : Gpu) (mf : MemFetch) (p : Nat) : Grows g (newFault cfg g mf p) :=
  .of_same rfl rfl

theorem fileFetch_grows (g : Gpu) (mf : MemFetch) (p : Nat) : Grows g (fileFetch cfg g mf p) := by
  unfold fileFetch
  split
  · exact .of_same rfl rfl
  · split
    · exact .of_same rfl rfl
    · exact newFault_grows cfg g mf p

theorem popWalk_grows (g : Gpu) (mf : MemFetch) : Grows g (popWalk cfg g mf) :=
  .of_update [] _ rfl (Bool.or_assoc _ _ _)

theorem walkFetch_grows (g : Gpu) (mf : MemFetch) : Grows g (walkFetch cfg g mf) := by
  unfold walkFetch
  split
  · exact ((popWalk_grows cfg g mf).trans (check_write_stage_queue_grows cfg _ _)).trans
      (replay_grows cfg _ mf)
  · exact (popWalk_grows cfg g mf).trans (fileFetch_grows cfg _ mf _)

theorem page_table_walk_grows (g : Gpu) : Grows g (page_table_walk cfg g) :=
  Grows.foldl (walkFetch_grows cfg) _ g

theorem drawRandom_grows (g : Gpu) (temp : List Nat) (t : LpTree) :
    Grows g (drawRandom cfg g temp t).1 := by
  simp only [drawRandom]
  have hcall : ∀ q, Grows g (callRand cfg g t q) := fun q => .of_update [] _ rfl rfl
  split
  · exact ((hcall _).trans (log_grows _ _)).trans (updateBlock_grows _ _ _ _)
  · exact hcall _

theorem drawIfRandom_grows (g : Gpu) (temp : List Nat) (p : Nat) :
    Grows g (drawIfRandom cfg g temp p).1 := by
  unfold drawIfRandom
  split
  · exact drawRandom_grows cfg g temp _
  · exact Grows.refl g

theorem prefetchOne_grows (s : Gpu × Turn) (p : Nat) : Grows s.1 (prefetchOne cfg s p).1 :=
  (updateBlock_grows _ _ _ _).trans (drawIfRandom_grows cfg _ _ p)

theorem scheduleFaults_grows (g : Gpu) (faults : List Nat) :
    Grows g (scheduleFaults g faults).1 := by
  unfold scheduleFaults
  exact Grows.foldl_fst (fun s a => updateBlock_grows s.1 a _ true) faults (g, StdMap.empty)

theorem fillTree_grows (g : Gpu) (root : Nat) (bbs : BlockSet) :
    Grows g (fillTree g root bbs).1 :=
  .of_same rfl rfl

theorem collectBlock_grows (s : Gpu × List Nat × List Nat) (bb : Nat) :
    Grows s.1 (collectBlock cfg s bb).1 :=
  .of_update _ _ rfl rfl

theorem prefetchGroup_grows (s : Gpu × Turn) (group : Nat × List Nat) :
    Grows s.1 (prefetchGroup cfg s group).1 := by
  have hfaults := scheduleFaults_grows s.1 group.2
  have hfill := fillTree_grows (scheduleFaults s.1 group.2).1 group.1 (scheduleFaults s.1 group.2).2
  exact (hfaults.trans hfill).trans (Grows.foldl_fst (collectBlock_grows cfg) _ (_, _, []))

theorem chooseMigrations_grows (g : Gpu) : Grows g (chooseMigrations cfg g).1 := by
  unfold chooseMigrations
  split
  · exact Grows.foldl_fst (prefetchOne_grows cfg) _ (g, {})
  · exact Grows.foldl_fst (prefetchGroup_grows cfg) _ (g, {})

theorem fileFault_grows (g : Gpu) (e : Nat × List MemFetch) : Grows g (fileFault g e) :=
  .of_update [] _ rfl rfl

theorem fileFaults_grows (g : Gpu) : Grows g (fileFaults g) := Grows.foldl fileFault_grows _ g

theorem stageTurn_grows (g : Gpu) (turn : Turn) : Grows g (stageTurn cfg g turn) := by
  refine Grows.trans ?_ (fileFaults_grows _)
  exact .of_same rfl rfl

theorem noteOversubscription_grows (g : Gpu) (n : Nat) :
    Grows g (noteOversubscription cfg g n) := by
  unfold noteOversubscription
  split
  · split <;> exact .of_same rfl rfl
  · exact Grows.refl g

theorem do_hardware_prefetch_grows (g : Gpu) : Grows g (do_hardware_prefetch cfg g) := by
  unfold do_hardware_prefetch
  split
  · exact Grows.refl g
  · have hchoose := chooseMigrations_grows cfg g
    have hstage := stageTurn_grows cfg (chooseMigrations cfg g).1 (chooseMigrations cfg g).2
    refine Grows.trans ?_ (noteOversubscription_grows cfg _ _)
    exact (hchoose.trans hstage).trans (.of_same rfl rfl)

theorem fetchFrom_grows (g : Gpu) (c : Nat) : Grows g (fetchFrom cfg g c) := by
  unfold fetchFrom
  split
  · exact Grows.refl g
  · exact .of_same rfl rfl

theorem fetch_from_clusters_grows (g : Gpu) : Grows g (fetch_from_clusters cfg g) :=
  Grows.foldl (fetchFrom_grows cfg) _ g

theorem replayChunk_grows (g : Gpu) (q : PrefetchReq) : Grows g (replayChunk cfg g q).1 := by
  unfold replayChunk
  split
  · exact Grows.foldl (replay_grows cfg) _ g
  · exact Grows.refl g

theorem takePage_grows (g : Gpu) (q : PrefetchReq) (p : Nat) : Grows g (takePage g q p).1 :=
  .of_update [_] false rfl (Bool.or_false _).symm

theorem selectChunk_grows (n : Nat) (g : Gpu) (q : PrefetchReq) :
    Grows g (selectChunk cfg n g q).1 := by
  induction n generalizing g q with
  | zero => exact Grows.refl g
  | succ n ih =>
    have hreq := require_grows g (is_mapped g (cfg.get_page_num q.cur_addr))
    have hcheck := check_write_stage_queue_grows cfg
      (g.require (is_mapped g (cfg.get_page_num q.cur_addr))) (cfg.get_page_num q.cur_addr)
    simp only [selectChunk]
    split_ifs
    · exact hreq.trans hcheck
    · exact (hreq.trans hcheck).trans (ih _ _)
    · exact hreq.trans hcheck
    · exact (hreq.trans (takePage_grows _ _ _)).trans (ih _ _)
    · exact hreq.trans (takePage_grows _ _ _)

theorem user_prefetch_grows (g : Gpu) : Grows g (user_prefetch cfg g) := by
  unfold user_prefetch
  split
  · exact Grows.refl g
  · split
    · rename_i q rest _ _
      have hreplay := replayChunk_grows cfg g q
      dsimp only
      split
      · exact hreplay.trans (.of_same rfl rfl)
      · exact (hreplay.trans (selectChunk_grows cfg _ _ _)).trans (.of_same rfl rfl)
    · exact Grows.refl g

theorem gmmu_cycle_grows (g : Gpu) : Grows g (gmmu_cycle cfg g) :=
  (((((((((eviction_check_grows cfg g).trans
    (write_back_done_grows cfg _)).trans
    (write_back_schedule_grows cfg _)).trans
    (read_done_grows cfg _)).trans
    (read_schedule_grows cfg _)).trans
    (page_table_walk_grows cfg _)).trans
    (do_hardware_prefetch_grows cfg _)).trans
    (fetch_from_clusters_grows cfg _)).trans
    (user_prefetch_grows cfg _))

theorem reserve_pages_remove_grows (g : Gpu) (a : MemAccess) :
    Grows g (reserve_pages_remove cfg g a) :=
  .of_update [] _ rfl rfl

theorem releaseRead_grows (g : Gpu) (a : MemAccess) : Grows g (releaseRead cfg g a) := by
  unfold releaseRead
  split
  · exact reserve_pages_remove_grows cfg g a
  · exact Grows.refl g

theorem releaseIf_grows (g : Gpu) (a : Option MemAccess) : Grows g (releaseIf cfg g a) := by
  cases a with
  | none => exact Grows.refl g
  | some a => exact releaseRead_grows cfg g a

theorem useTlbEntry_grows (g : Gpu) (sid : Nat) (a : MemAccess) :
    Grows g (useTlbEntry cfg g sid a) :=
  .of_update [_] false rfl (Bool.or_false _).symm

theorem tlbHit_grows (g : Gpu) (sid : Nat) (a : MemAccess) : Grows g (tlbHit cfg g sid a) := by
  have hcheck := check_write_stage_queue_grows cfg g (cfg.get_page_num a.addr)
  refine Grows.trans ?_ (refresh_valid_pages_grows cfg _ _)
  exact hcheck.trans (useTlbEntry_grows cfg _ sid a)

theorem touchAccesses_grows (g : Gpu) (a : MemAccess) (rest : List MemAccess) :
    Grows g (touchAccesses cfg g a rest) :=
  .of_same rfl rfl

theorem meetAccesses_grows (g : Gpu) (sid : Nat) (a : MemAccess) (rest : List MemAccess) :
    Grows g (meetAccesses cfg g sid a rest) :=
  .of_same rfl rfl

theorem noteAccess_grows (g : Gpu) (a : MemAccess) (rest : List MemAccess) :
    Grows g (noteAccess cfg g a rest) :=
  .of_update [_] _ rfl rfl

theorem farFetch_grows (g : Gpu) (sid : Nat) (w : WarpInst) (a : MemAccess)
    (rest : List MemAccess) : Grows g (farFetch cfg g sid w a rest).1 := by
  unfold farFetch
  split
  · exact tlbHit_grows cfg g sid a
  · exact .of_same rfl rfl

theorem access_cycle_grows (g : Gpu) (sid : Nat) : Grows g (access_cycle cfg g sid).1 := by
  unfold access_cycle
  split
  · exact Grows.refl g
  · split
    · exact Grows.refl g
    · split
      · exact meetAccesses_grows cfg g sid _ _
      · exact ((meetAccesses_grows cfg g sid _ _).trans (noteAccess_grows cfg _ _ _)).trans
          (farFetch_grows cfg _ _ _ _ _)

theorem sendAccesses_grows (g : Gpu) (sid : Nat) (w : WarpInst) (p : Port) :
    Grows g (sendAccesses cfg g sid w p) :=
  .of_update _ false rfl (Bool.or_false _).symm

theorem useReply_grows (g : Gpu) (sid : Nat) (mf : MemFetch) (rest : List MemFetch) (p : Port) :
    Grows g (useReply cfg g sid mf rest p) :=
  .of_update _ false rfl (Bool.or_false _).symm

theorem takeReply_grows (g : Gpu) (sid : Nat) (mf : MemFetch) (rest : List MemFetch) (p : Port) :
    Grows g (takeReply cfg g sid mf rest p) :=
  ((useReply_grows cfg g sid mf rest p).trans (releaseIf_grows cfg _ _)).trans
    (refresh_valid_pages_grows cfg _ _)

theorem memory_cycle_grows (g : Gpu) (sid : Nat) (p : Port) :
    Grows g (memory_cycle cfg g sid p).1 := by
  simp only [memory_cycle]
  split
  · exact (sendAccesses_grows cfg g sid _ _).trans (releaseIf_grows cfg _ _)
  · exact Grows.refl g
  · split
    · exact Grows.refl g
    · exact takeReply_grows cfg g sid _ _ p

theorem retire_grows (g : Gpu) (sid : Nat) : Grows g (retire g sid) := .of_same rfl rfl

theorem ldst_cycle_grows (g : Gpu) (sid : Nat) (p : Port) : Grows g (ldst_cycle cfg g sid p) := by
  have haccess := access_cycle_grows cfg g sid
  have hmemory := memory_cycle_grows cfg (access_cycle cfg g sid).1 sid p
  simp only [ldst_cycle]
  split
  · split
    · exact (haccess.trans hmemory).trans (retire_grows _ sid)
    · exact haccess.trans hmemory
  · exact haccess

theorem cluster_reply_grows (g : Gpu) (c : Nat) : Grows g (cluster_reply g c) := by
  unfold cluster_reply
  split
  · exact Grows.refl g
  · exact .of_same rfl rfl

theorem core_request_grows (c : Nat) (g : Gpu) (sid : Nat) : Grows g (core_request c g sid) := by
  unfold core_request
  split
  · exact Grows.refl g
  · exact .of_same rfl rfl

theorem icnt_cycle_grows (g : Gpu) (c : Nat) : Grows g (icnt_cycle cfg g c) :=
  (cluster_reply_grows g c).trans (Grows.foldl (core_request_grows c) _ _)

theorem cudaMallocManaged_grows (g : Gpu) (cpu size : Nat) :
    Grows g (cudaMallocManaged cfg g cpu size) :=
  .of_update [_] _ rfl rfl

theorem host_write_grows (g : Gpu) (a : Nat) (v : UInt8) : Grows g (host_write g a v) :=
  .of_update [_] false rfl (Bool.or_false _).symm

theorem cudaSetupArgument_grows (g : Gpu) (p : Nat) : Grows g (cudaSetupArgument g p) := by
  unfold cudaSetupArgument
  split
  · exact Grows.refl g
  · exact .of_same rfl rfl

theorem cudaMemPrefetchAsync_grows (g : Gpu) (p n s : Nat) :
    Grows g (cudaMemPrefetchAsync cfg g p n s) := by
  unfold cudaMemPrefetchAsync
  split
  · exact .of_update [] true rfl (Bool.or_true _).symm
  · exact .of_update [] _ rfl rfl

theorem activate_prefetch_grows (g : Gpu) (a n s : Nat) : Grows g (activate_prefetch g a n s) :=
  .of_update [] _ rfl rfl

theorem cudaDeviceSynchronize_grows (g : Gpu) : Grows g (cudaDeviceSynchronize cfg g) :=
  .of_update [_, _] false rfl (Bool.or_false _).symm

theorem releaseManaged_grows (g : Gpu) (a : MemAccess) : Grows g (releaseManaged cfg g a) := by
  unfold releaseManaged
  split
  · exact reserve_pages_remove_grows cfg g a
  · exact Grows.refl g

theorem setInFlight_grows (g : Gpu) (sid k : Nat) (es : List InFlight) :
    Grows g (setInFlight g sid k es) :=
  .of_same rfl rfl

theorem noteLatency_grows (g : Gpu) (sid : Nat) (a : MemAccess) : Grows g (noteLatency g sid a) :=
  require_grows g _

theorem answer_grows (g : Gpu) (sid k : Nat) (how : Answer) :
    Grows g (answer cfg g sid k how) := by
  have hset := setInFlight_grows g sid k
  unfold answer
  split
  · exact Grows.refl g
  · rename_i e _
    cases how with
    | l1_access hit write_sent => exact (hset _).trans (log_grows _ _)
    | data => exact hset []
    | fill =>
      exact ((hset []).trans (noteLatency_grows _ sid _)).trans (releaseManaged_grows cfg _ _)
    | write_allocate_fill uid =>
      exact ((log_grows g _).trans (noteLatency_grows _ sid _)).trans (releaseManaged_grows cfg _ _)
    | write_ack more =>
      exact (((hset _).trans (log_grows _ _)).trans (noteLatency_grows _ sid _)).trans
        (releaseManaged_grows cfg _ _)

theorem do_atomic_grows (g : Gpu) (bytes : List (Nat × UInt8)) : Grows g (do_atomic cfg g bytes) :=
  .of_update (_ : List Event) false rfl (Bool.or_false _).symm

/-- Whatever happens, the history of a run only grows. -/
theorem perform_grows (g : Gpu) (a : Action) : Grows g (perform cfg g a) := by
  cases a with
  | cudaMallocManaged cpu size => exact cudaMallocManaged_grows cfg g cpu size
  | cudaMalloc size => exact .of_same rfl rfl
  | host_write a v => exact host_write_grows g a v
  | cudaSetupArgument p => exact cudaSetupArgument_grows g p
  | cudaMemPrefetchAsync p n s => exact cudaMemPrefetchAsync_grows cfg g p n s
  | activate_prefetch a n s => exact activate_prefetch_grows g a n s
  | log_kernel_start k => exact .of_same rfl rfl
  | log_kernel_finish k => exact .of_same rfl rfl
  | cudaDeviceSynchronize => exact cudaDeviceSynchronize_grows cfg g
  | issue sid w bytes => exact .of_same rfl rfl
  | dispatch sid k => exact .of_same rfl rfl
  | ldst_cycle sid p => exact ldst_cycle_grows cfg g sid p
  | icnt_cycle c => exact icnt_cycle_grows cfg g c
  | do_atomic sid k bytes => exact do_atomic_grows cfg g bytes
  | answer sid k how => exact answer_grows cfg g sid k how
  | gmmu_cycle => exact gmmu_cycle_grows cfg g
  | tick => exact .of_same rfl rfl

/-- A step is an enabled action that does not abort. -/
theorem step_eq_some {g g' : Gpu} {a : Action} (h : step cfg g a = some g') :
    enabled cfg g a = true ∧ g' = perform cfg g a ∧ g'.aborted = false := by
  simp only [step] at h
  split at h
  · rename_i hen
    split at h
    · cases h
    · rename_i hab
      cases h
      exact ⟨hen, rfl, Bool.eq_false_iff.mpr hab⟩
  · cases h

/-! ## Which fields change -/

/-- A loop changes the fields that its rounds change. `update g h` stands for
`g` with those fields of `h`. -/
theorem foldl_frame {A : Type} {f : Gpu → A → Gpu} (update : Gpu → Gpu → Gpu)
    (hself : ∀ g, update g g = g) (hlast : ∀ g h k, update (update g h) k = update g k)
    (hf : ∀ g a, f g a = update g (f g a)) (as : List A) (g : Gpu) :
    as.foldl f g = update g (as.foldl f g) := by
  induction as generalizing g with
  | nil => exact (hself g).symm
  | cons a as ih =>
    have hrest := ih (f g a)
    rw [hf g a, hlast, ← hf g a] at hrest
    exact hrest

/-- The same for loops that carry other locals along. -/
theorem foldl_fst_frame {A B : Type} {f : Gpu × B → A → Gpu × B} (update : Gpu → Gpu → Gpu)
    (hself : ∀ g, update g g = g) (hlast : ∀ g h k, update (update g h) k = update g k)
    (hf : ∀ s a, (f s a).1 = update s.1 (f s a).1) (as : List A) (s : Gpu × B) :
    (as.foldl f s).1 = update s.1 (as.foldl f s).1 := by
  induction as generalizing s with
  | nil => exact (hself s.1).symm
  | cons a as ih =>
    have hrest := ih (f s a)
    rw [hf s a, hlast] at hrest
    exact hrest

theorem check_write_stage_queue_frame (g : Gpu) (p : Nat) :
    check_write_stage_queue cfg g p = { g with
      m_data := (check_write_stage_queue cfg g p).m_data,
      large_page_info := (check_write_stage_queue cfg g p).large_page_info,
      valid_pages := (check_write_stage_queue cfg g p).valid_pages,
      pcie_write_stage_queue := (check_write_stage_queue cfg g p).pcie_write_stage_queue,
      history := (check_write_stage_queue cfg g p).history,
      aborted := (check_write_stage_queue cfg g p).aborted } := by
  unfold check_write_stage_queue
  split
  · rfl
  · rename_i t _
    rw [foldl_frame (fun g h => { g with
        m_data := h.m_data, large_page_info := h.large_page_info, valid_pages := h.valid_pages,
        history := h.history, aborted := h.aborted })
      (fun _ => rfl) (fun _ _ _ => rfl) (fun _ _ => rfl) t.page_list g]

theorem page_eviction_procedure_frame (g : Gpu) :
    page_eviction_procedure cfg g = { g with
      valid_pages := (page_eviction_procedure cfg g).valid_pages,
      large_page_info := (page_eviction_procedure cfg g).large_page_info,
      rand_calls := (page_eviction_procedure cfg g).rand_calls,
      pcie_write_stage_queue := (page_eviction_procedure cfg g).pcie_write_stage_queue,
      history := (page_eviction_procedure cfg g).history,
      aborted := (page_eviction_procedure cfg g).aborted } := by
  unfold page_eviction_procedure
  rw [foldl_frame (fun g h => { g with
      valid_pages := h.valid_pages, pcie_write_stage_queue := h.pcie_write_stage_queue })
    (fun _ => rfl) (fun _ _ _ => rfl) (fun _ _ => rfl)]
  rfl

theorem eviction_check_frame (g : Gpu) :
    eviction_check cfg g = { g with
      valid_pages := (eviction_check cfg g).valid_pages,
      large_page_info := (eviction_check cfg g).large_page_info,
      rand_calls := (eviction_check cfg g).rand_calls,
      pcie_write_stage_queue := (eviction_check cfg g).pcie_write_stage_queue,
      history := (eviction_check cfg g).history, aborted := (eviction_check cfg g).aborted,
      dma_mode := (eviction_check cfg g).dma_mode,
      evict_policy := (eviction_check cfg g).evict_policy } := by
  simp only [eviction_check]
  split
  · rw [page_eviction_procedure_frame]
    unfold detectPattern
    split <;> rfl
  · rfl

theorem write_back_schedule_frame (g : Gpu) :
    write_back_schedule cfg g = { g with
      m_data := (write_back_schedule cfg g).m_data,
      num_free_pages := (write_back_schedule cfg g).num_free_pages,
      ldst := (write_back_schedule cfg g).ldst,
      large_page_info := (write_back_schedule cfg g).large_page_info,
      pcie_write_stage_queue := (write_back_schedule cfg g).pcie_write_stage_queue,
      pcie_write_latency_queue := (write_back_schedule cfg g).pcie_write_latency_queue,
      history := (write_back_schedule cfg g).history,
      aborted := (write_back_schedule cfg g).aborted } := by
  unfold write_back_schedule
  split <;> rfl

theorem replay_foldl_frame (mfs : List MemFetch) (g : Gpu) :
    mfs.foldl (replay cfg) g = { g with
      m_gmmu_cu_queue := (mfs.foldl (replay cfg) g).m_gmmu_cu_queue,
      replayed := (mfs.foldl (replay cfg) g).replayed } :=
  foldl_frame (fun g h => { g with m_gmmu_cu_queue := h.m_gmmu_cu_queue, replayed := h.replayed })
    (fun _ => rfl) (fun _ _ _ => rfl) (fun _ _ => rfl) mfs g

theorem completePrefetched_frame (g : Gpu) (p : Nat) :
    completePrefetched g p = { g with
      prefetch_req_buffer := (completePrefetched g p).prefetch_req_buffer,
      req_info := (completePrefetched g p).req_info } := by
  unfold completePrefetched
  split
  · rfl
  · split <;> rfl

theorem completePage_frame (g : Gpu) (p : Nat) :
    completePage cfg g p = { g with
      m_data := (completePage cfg g p).m_data, valid_pages := (completePage cfg g p).valid_pages,
      prefetch_req_buffer := (completePage cfg g p).prefetch_req_buffer,
      req_info := (completePage cfg g p).req_info,
      m_gmmu_cu_queue := (completePage cfg g p).m_gmmu_cu_queue,
      replayed := (completePage cfg g p).replayed,
      stored_pages := (completePage cfg g p).stored_pages,
      aborted := (completePage cfg g p).aborted } := by
  unfold completePage completeFaulted
  rw [replay_foldl_frame, completePrefetched_frame]
  rfl

theorem read_done_frame (g : Gpu) :
    read_done cfg g = { g with
      m_data := (read_done cfg g).m_data, valid_pages := (read_done cfg g).valid_pages,
      prefetch_req_buffer := (read_done cfg g).prefetch_req_buffer,
      req_info := (read_done cfg g).req_info,
      m_gmmu_cu_queue := (read_done cfg g).m_gmmu_cu_queue, replayed := (read_done cfg g).replayed,
      stored_pages := (read_done cfg g).stored_pages,
      aborted := (read_done cfg g).aborted,
      pcie_read_latency_queue := (read_done cfg g).pcie_read_latency_queue } := by
  unfold read_done finishRead
  split
  · rfl
  · rename_i t _
    split
    · split
      · rw [foldl_frame (fun g h => { g with
            m_data := h.m_data, valid_pages := h.valid_pages,
            prefetch_req_buffer := h.prefetch_req_buffer, req_info := h.req_info,
            m_gmmu_cu_queue := h.m_gmmu_cu_queue, replayed := h.replayed,
            stored_pages := h.stored_pages, aborted := h.aborted })
          (fun _ => rfl) (fun _ _ _ => rfl) (completePage_frame cfg) t.page_list g]
      · cases t.mf <;> rfl
      · rfl
    · rfl

theorem read_schedule_frame (g : Gpu) :
    read_schedule cfg g = { g with
      pcie_read_latency_queue := (read_schedule cfg g).pcie_read_latency_queue,
      pcie_read_stage_queue := (read_schedule cfg g).pcie_read_stage_queue,
      num_free_pages := (read_schedule cfg g).num_free_pages,
      aborted := (read_schedule cfg g).aborted } := by
  unfold read_schedule
  split
  · split <;> rfl
  · rfl

theorem fileFetch_frame (g : Gpu) (mf : MemFetch) (p : Nat) :
    fileFetch cfg g mf p = { g with
      req_info := (fileFetch cfg g mf p).req_info,
      prefetch_req_buffer := (fileFetch cfg g mf p).prefetch_req_buffer,
      pcie_read_stage_queue := (fileFetch cfg g mf p).pcie_read_stage_queue,
      new_stats := (fileFetch cfg g mf p).new_stats,
      page_fault_this_turn := (fileFetch cfg g mf p).page_fault_this_turn,
      m_dma := (fileFetch cfg g mf p).m_dma } := by
  unfold fileFetch
  split
  · rfl
  · split <;> rfl

theorem walkFetch_frame (g : Gpu) (mf : MemFetch) :
    walkFetch cfg g mf = { g with
      page_table_walk_queue := (walkFetch cfg g mf).page_table_walk_queue,
      m_data := (walkFetch cfg g mf).m_data,
      large_page_info := (walkFetch cfg g mf).large_page_info,
      valid_pages := (walkFetch cfg g mf).valid_pages,
      pcie_write_stage_queue := (walkFetch cfg g mf).pcie_write_stage_queue,
      m_gmmu_cu_queue := (walkFetch cfg g mf).m_gmmu_cu_queue,
      replayed := (walkFetch cfg g mf).replayed,
      req_info := (walkFetch cfg g mf).req_info,
      prefetch_req_buffer := (walkFetch cfg g mf).prefetch_req_buffer,
      pcie_read_stage_queue := (walkFetch cfg g mf).pcie_read_stage_queue,
      page_fault_this_turn := (walkFetch cfg g mf).page_fault_this_turn,
      m_dma := (walkFetch cfg g mf).m_dma,
      new_stats := (walkFetch cfg g mf).new_stats,
      history := (walkFetch cfg g mf).history, aborted := (walkFetch cfg g mf).aborted } := by
  unfold walkFetch
  split
  · unfold replay
    rw [check_write_stage_queue_frame]
    rfl
  · rw [fileFetch_frame]
    rfl

theorem page_table_walk_frame (g : Gpu) :
    page_table_walk cfg g = { g with
      page_table_walk_queue := (page_table_walk cfg g).page_table_walk_queue,
      m_data := (page_table_walk cfg g).m_data,
      large_page_info := (page_table_walk cfg g).large_page_info,
      valid_pages := (page_table_walk cfg g).valid_pages,
      pcie_write_stage_queue := (page_table_walk cfg g).pcie_write_stage_queue,
      m_gmmu_cu_queue := (page_table_walk cfg g).m_gmmu_cu_queue,
      replayed := (page_table_walk cfg g).replayed,
      req_info := (page_table_walk cfg g).req_info,
      prefetch_req_buffer := (page_table_walk cfg g).prefetch_req_buffer,
      pcie_read_stage_queue := (page_table_walk cfg g).pcie_read_stage_queue,
      page_fault_this_turn := (page_table_walk cfg g).page_fault_this_turn,
      m_dma := (page_table_walk cfg g).m_dma,
      new_stats := (page_table_walk cfg g).new_stats,
      history := (page_table_walk cfg g).history, aborted := (page_table_walk cfg g).aborted } :=
  foldl_frame (fun g h => { g with
      page_table_walk_queue := h.page_table_walk_queue, m_data := h.m_data,
      large_page_info := h.large_page_info, valid_pages := h.valid_pages,
      pcie_write_stage_queue := h.pcie_write_stage_queue, m_gmmu_cu_queue := h.m_gmmu_cu_queue,
      replayed := h.replayed, req_info := h.req_info,
      prefetch_req_buffer := h.prefetch_req_buffer,
      pcie_read_stage_queue := h.pcie_read_stage_queue,
      page_fault_this_turn := h.page_fault_this_turn, m_dma := h.m_dma,
      new_stats := h.new_stats, history := h.history, aborted := h.aborted })
    (fun _ => rfl) (fun _ _ _ => rfl) (walkFetch_frame cfg) _ g

theorem drawIfRandom_frame (g : Gpu) (temp : List Nat) (p : Nat) :
    (drawIfRandom cfg g temp p).1 = { g with
      large_page_info := ((drawIfRandom cfg g temp p).1).large_page_info,
      rand_calls := ((drawIfRandom cfg g temp p).1).rand_calls,
      history := ((drawIfRandom cfg g temp p).1).history,
      aborted := ((drawIfRandom cfg g temp p).1).aborted } := by
  unfold drawIfRandom
  split
  · simp only [drawRandom]
    split <;> rfl
  · rfl

theorem prefetchOne_frame (s : Gpu × Turn) (p : Nat) :
    (prefetchOne cfg s p).1 = { s.1 with
      large_page_info := (prefetchOne cfg s p).1.large_page_info,
      rand_calls := (prefetchOne cfg s p).1.rand_calls,
      history := (prefetchOne cfg s p).1.history,
      aborted := (prefetchOne cfg s p).1.aborted } := by
  simp only [prefetchOne]
  rw [drawIfRandom_frame]
  rfl

theorem scheduleFaults_frame (g : Gpu) (faults : List Nat) :
    (scheduleFaults g faults).1 = { g with
      large_page_info := (scheduleFaults g faults).1.large_page_info,
      history := (scheduleFaults g faults).1.history,
      aborted := (scheduleFaults g faults).1.aborted } := by
  unfold scheduleFaults
  refine foldl_fst_frame (fun g h => { g with
      large_page_info := h.large_page_info, history := h.history, aborted := h.aborted })
    (fun _ => rfl) (fun _ _ _ => rfl) ?_ faults (g, (StdMap.empty : BlockSet))
  exact fun _ _ => rfl

theorem collectBlocks_frame (bbs : List Nat) (s : Gpu × List Nat × List Nat) :
    (bbs.foldl (collectBlock cfg) s).1 = { s.1 with
      block_access_list := (bbs.foldl (collectBlock cfg) s).1.block_access_list,
      history := (bbs.foldl (collectBlock cfg) s).1.history,
      aborted := (bbs.foldl (collectBlock cfg) s).1.aborted } := by
  refine foldl_fst_frame (fun g h => { g with
      block_access_list := h.block_access_list, history := h.history, aborted := h.aborted })
    (fun _ => rfl) (fun _ _ _ => rfl) ?_ bbs s
  exact fun _ _ => rfl

theorem prefetchGroup_frame (s : Gpu × Turn) (group : Nat × List Nat) :
    (prefetchGroup cfg s group).1 = { s.1 with
      large_page_info := (prefetchGroup cfg s group).1.large_page_info,
      block_access_list := (prefetchGroup cfg s group).1.block_access_list,
      history := (prefetchGroup cfg s group).1.history,
      aborted := (prefetchGroup cfg s group).1.aborted } := by
  simp only [prefetchGroup]
  rw [collectBlocks_frame]
  simp only [fillTree]
  rw [scheduleFaults_frame]

theorem chooseMigrations_frame (g : Gpu) :
    (chooseMigrations cfg g).1 = { g with
      large_page_info := ((chooseMigrations cfg g).1).large_page_info,
      block_access_list := ((chooseMigrations cfg g).1).block_access_list,
      rand_calls := ((chooseMigrations cfg g).1).rand_calls,
      history := ((chooseMigrations cfg g).1).history,
      aborted := ((chooseMigrations cfg g).1).aborted } := by
  unfold chooseMigrations
  split
  · refine foldl_fst_frame (fun g h => { g with
        large_page_info := h.large_page_info, block_access_list := h.block_access_list,
        rand_calls := h.rand_calls, history := h.history, aborted := h.aborted })
      (fun _ => rfl) (fun _ _ _ => rfl) ?_ _ (g, ({} : Turn))
    intro s p
    rw [prefetchOne_frame]
  · refine foldl_fst_frame (fun g h => { g with
        large_page_info := h.large_page_info, block_access_list := h.block_access_list,
        rand_calls := h.rand_calls, history := h.history, aborted := h.aborted })
      (fun _ => rfl) (fun _ _ _ => rfl) ?_ _ (g, ({} : Turn))
    intro s group
    rw [prefetchGroup_frame]

theorem fileFaults_frame (g : Gpu) :
    fileFaults g = { g with
      req_info := (fileFaults g).req_info, new_stats := (fileFaults g).new_stats,
      aborted := (fileFaults g).aborted } :=
  foldl_frame (fun g h => { g with
      req_info := h.req_info, new_stats := h.new_stats, aborted := h.aborted })
    (fun _ => rfl) (fun _ _ _ => rfl) (fun _ _ => rfl) _ g

theorem stageTurn_frame (g : Gpu) (turn : Turn) :
    stageTurn cfg g turn = { g with
      req_info := (stageTurn cfg g turn).req_info,
      pcie_read_stage_queue := (stageTurn cfg g turn).pcie_read_stage_queue,
      new_stats := (stageTurn cfg g turn).new_stats,
      aborted := (stageTurn cfg g turn).aborted } := by
  unfold stageTurn
  rw [fileFaults_frame]

theorem noteOversubscription_frame (g : Gpu) (n : Nat) :
    noteOversubscription cfg g n = { g with
      dma_mode := (noteOversubscription cfg g n).dma_mode,
      evict_policy := (noteOversubscription cfg g n).evict_policy,
      prefetcher := (noteOversubscription cfg g n).prefetcher,
      over_sub := (noteOversubscription cfg g n).over_sub } := by
  unfold noteOversubscription
  split
  · split <;> rfl
  · rfl

theorem do_hardware_prefetch_frame (g : Gpu) :
    do_hardware_prefetch cfg g = { g with
      large_page_info := (do_hardware_prefetch cfg g).large_page_info,
      block_access_list := (do_hardware_prefetch cfg g).block_access_list,
      rand_calls := (do_hardware_prefetch cfg g).rand_calls,
      history := (do_hardware_prefetch cfg g).history,
      aborted := (do_hardware_prefetch cfg g).aborted,
      req_info := (do_hardware_prefetch cfg g).req_info,
      pcie_read_stage_queue := (do_hardware_prefetch cfg g).pcie_read_stage_queue,
      page_fault_this_turn := (do_hardware_prefetch cfg g).page_fault_this_turn,
      new_stats := (do_hardware_prefetch cfg g).new_stats,
      dma_mode := (do_hardware_prefetch cfg g).dma_mode,
      evict_policy := (do_hardware_prefetch cfg g).evict_policy,
      prefetcher := (do_hardware_prefetch cfg g).prefetcher,
      over_sub := (do_hardware_prefetch cfg g).over_sub } := by
  simp only [do_hardware_prefetch]
  split
  · rfl
  · have hchoose := chooseMigrations_frame cfg g
    have hstage := stageTurn_frame cfg (chooseMigrations cfg g).1 (chooseMigrations cfg g).2
    generalize stageTurn cfg (chooseMigrations cfg g).1 (chooseMigrations cfg g).2 = g2 at hstage ⊢
    generalize (chooseMigrations cfg g).1 = g1 at hchoose hstage
    rw [noteOversubscription_frame, hstage, hchoose]

theorem fetchFrom_frame (g : Gpu) (c : Nat) :
    fetchFrom cfg g c = { g with
      page_table_walk_queue := (fetchFrom cfg g c).page_table_walk_queue,
      m_cu_gmmu_queue := (fetchFrom cfg g c).m_cu_gmmu_queue,
      walked := (fetchFrom cfg g c).walked } := by
  unfold fetchFrom
  split <;> rfl

theorem fetch_from_clusters_frame (g : Gpu) :
    fetch_from_clusters cfg g = { g with
      page_table_walk_queue := (fetch_from_clusters cfg g).page_table_walk_queue,
      m_cu_gmmu_queue := (fetch_from_clusters cfg g).m_cu_gmmu_queue,
      walked := (fetch_from_clusters cfg g).walked } :=
  foldl_frame (fun g h => { g with
      page_table_walk_queue := h.page_table_walk_queue, m_cu_gmmu_queue := h.m_cu_gmmu_queue,
      walked := h.walked })
    (fun _ => rfl) (fun _ _ _ => rfl) (fetchFrom_frame cfg) _ g

theorem replayChunk_frame (g : Gpu) (q : PrefetchReq) :
    (replayChunk cfg g q).1 = { g with
      m_gmmu_cu_queue := ((replayChunk cfg g q).1).m_gmmu_cu_queue,
      replayed := ((replayChunk cfg g q).1).replayed } := by
  unfold replayChunk
  split
  · exact replay_foldl_frame cfg _ g
  · rfl

theorem selectChunk_frame (n : Nat) (g : Gpu) (q : PrefetchReq) :
    (selectChunk cfg n g q).1 = { g with
      req_info := ((selectChunk cfg n g q).1).req_info,
      m_data := ((selectChunk cfg n g q).1).m_data,
      large_page_info := ((selectChunk cfg n g q).1).large_page_info,
      valid_pages := ((selectChunk cfg n g q).1).valid_pages,
      pcie_write_stage_queue := ((selectChunk cfg n g q).1).pcie_write_stage_queue,
      history := ((selectChunk cfg n g q).1).history,
      aborted := ((selectChunk cfg n g q).1).aborted } := by
  induction n generalizing g q with
  | zero => rfl
  | succ n ih =>
    simp only [selectChunk]
    split_ifs
    · rw [check_write_stage_queue_frame]
      rfl
    · rw [ih, check_write_stage_queue_frame]
      rfl
    · rw [check_write_stage_queue_frame]
      rfl
    · rw [ih]
      rfl
    · rfl

theorem user_prefetch_frame (g : Gpu) :
    user_prefetch cfg g = { g with
      m_gmmu_cu_queue := (user_prefetch cfg g).m_gmmu_cu_queue,
      replayed := (user_prefetch cfg g).replayed, lost := (user_prefetch cfg g).lost,
      prefetch_req_buffer := (user_prefetch cfg g).prefetch_req_buffer,
      pcie_read_stage_queue := (user_prefetch cfg g).pcie_read_stage_queue,
      req_info := (user_prefetch cfg g).req_info, m_data := (user_prefetch cfg g).m_data,
      large_page_info := (user_prefetch cfg g).large_page_info,
      valid_pages := (user_prefetch cfg g).valid_pages,
      pcie_write_stage_queue := (user_prefetch cfg g).pcie_write_stage_queue,
      history := (user_prefetch cfg g).history, aborted := (user_prefetch cfg g).aborted } := by
  unfold user_prefetch
  split
  · rfl
  · split
    · dsimp only
      split
      · unfold finishPrefetch
        rw [replayChunk_frame]
      · unfold stageChunk
        rw [selectChunk_frame, replayChunk_frame]
    · rfl

theorem releaseIf_frame (g : Gpu) (a : Option MemAccess) :
    releaseIf cfg g a = { g with
      reserve_pages := (releaseIf cfg g a).reserve_pages,
      released := (releaseIf cfg g a).released,
      release_failed := (releaseIf cfg g a).release_failed,
      aborted := (releaseIf cfg g a).aborted } := by
  cases a with
  | none => rfl
  | some a =>
    simp only [releaseIf, releaseRead, Option.elim_some]
    split <;> rfl

theorem releaseManaged_frame (g : Gpu) (a : MemAccess) :
    releaseManaged cfg g a = { g with
      reserve_pages := (releaseManaged cfg g a).reserve_pages,
      released := (releaseManaged cfg g a).released,
      release_failed := (releaseManaged cfg g a).release_failed,
      aborted := (releaseManaged cfg g a).aborted } := by
  unfold releaseManaged
  split <;> rfl

theorem tlbHit_frame (g : Gpu) (sid : Nat) (a : MemAccess) :
    tlbHit cfg g sid a = { g with
      m_data := (tlbHit cfg g sid a).m_data,
      large_page_info := (tlbHit cfg g sid a).large_page_info,
      valid_pages := (tlbHit cfg g sid a).valid_pages,
      pcie_write_stage_queue := (tlbHit cfg g sid a).pcie_write_stage_queue,
      history := (tlbHit cfg g sid a).history, aborted := (tlbHit cfg g sid a).aborted,
      ldst := (tlbHit cfg g sid a).ldst } := by
  unfold tlbHit useTlbEntry refresh_valid_pages
  rw [check_write_stage_queue_frame]

theorem access_cycle_frame (g : Gpu) (sid : Nat) :
    (access_cycle cfg g sid).1 = { g with
      m_data := ((access_cycle cfg g sid).1).m_data,
      large_page_info := ((access_cycle cfg g sid).1).large_page_info,
      valid_pages := ((access_cycle cfg g sid).1).valid_pages,
      pcie_write_stage_queue := ((access_cycle cfg g sid).1).pcie_write_stage_queue,
      history := ((access_cycle cfg g sid).1).history,
      aborted := ((access_cycle cfg g sid).1).aborted, ldst := ((access_cycle cfg g sid).1).ldst,
      next_fetch := ((access_cycle cfg g sid).1).next_fetch,
      new_stats := ((access_cycle cfg g sid).1).new_stats,
      reserve_pages := ((access_cycle cfg g sid).1).reserve_pages,
      reserved := ((access_cycle cfg g sid).1).reserved } := by
  unfold access_cycle farFetch
  split
  · rfl
  · split
    · rfl
    · split
      · rfl
      · split
        · rw [tlbHit_frame]
          rfl
        · rfl

theorem memory_cycle_frame (g : Gpu) (sid : Nat) (p : Port) :
    (memory_cycle cfg g sid p).1 = { g with
      ldst := ((memory_cycle cfg g sid p).1).ldst,
      history := ((memory_cycle cfg g sid p).1).history,
      reserve_pages := ((memory_cycle cfg g sid p).1).reserve_pages,
      released := ((memory_cycle cfg g sid p).1).released,
      release_failed := ((memory_cycle cfg g sid p).1).release_failed,
      sends := ((memory_cycle cfg g sid p).1).sends,
      stored_pages := ((memory_cycle cfg g sid p).1).stored_pages,
      aborted := ((memory_cycle cfg g sid p).1).aborted,
      m_data := ((memory_cycle cfg g sid p).1).m_data,
      valid_pages := ((memory_cycle cfg g sid p).1).valid_pages } := by
  simp only [memory_cycle]
  split
  · unfold drainQueue
    rw [releaseIf_frame]
    rfl
  · rfl
  · split
    · rfl
    · unfold takeReply refresh_valid_pages
      rw [releaseIf_frame]
      rfl

theorem ldst_cycle_frame (g : Gpu) (sid : Nat) (p : Port) :
    ldst_cycle cfg g sid p = { g with
      m_data := (ldst_cycle cfg g sid p).m_data,
      large_page_info := (ldst_cycle cfg g sid p).large_page_info,
      valid_pages := (ldst_cycle cfg g sid p).valid_pages,
      pcie_write_stage_queue := (ldst_cycle cfg g sid p).pcie_write_stage_queue,
      history := (ldst_cycle cfg g sid p).history, aborted := (ldst_cycle cfg g sid p).aborted,
      ldst := (ldst_cycle cfg g sid p).ldst, next_fetch := (ldst_cycle cfg g sid p).next_fetch,
      new_stats := (ldst_cycle cfg g sid p).new_stats,
      reserve_pages := (ldst_cycle cfg g sid p).reserve_pages,
      reserved := (ldst_cycle cfg g sid p).reserved,
      released := (ldst_cycle cfg g sid p).released,
      release_failed := (ldst_cycle cfg g sid p).release_failed,
      sends := (ldst_cycle cfg g sid p).sends, retired := (ldst_cycle cfg g sid p).retired,
      stored_pages := (ldst_cycle cfg g sid p).stored_pages } := by
  simp only [ldst_cycle]
  split
  · split
    · unfold retire
      rw [memory_cycle_frame, access_cycle_frame]
    · rw [memory_cycle_frame, access_cycle_frame]
  · rw [access_cycle_frame]

theorem cluster_reply_frame (g : Gpu) (c : Nat) :
    cluster_reply g c = { g with
      m_gmmu_cu_queue := (cluster_reply g c).m_gmmu_cu_queue, ldst := (cluster_reply g c).ldst } := by
  unfold cluster_reply
  split <;> rfl

theorem core_request_frame (c : Nat) (g : Gpu) (sid : Nat) :
    core_request c g sid = { g with
      m_cu_gmmu_queue := (core_request c g sid).m_cu_gmmu_queue,
      ldst := (core_request c g sid).ldst } := by
  unfold core_request
  split <;> rfl

theorem icnt_cycle_frame (g : Gpu) (c : Nat) :
    icnt_cycle cfg g c = { g with
      m_gmmu_cu_queue := (icnt_cycle cfg g c).m_gmmu_cu_queue,
      m_cu_gmmu_queue := (icnt_cycle cfg g c).m_cu_gmmu_queue, ldst := (icnt_cycle cfg g c).ldst } := by
  unfold icnt_cycle
  rw [foldl_frame (fun g h => { g with
      m_cu_gmmu_queue := h.m_cu_gmmu_queue, ldst := h.ldst })
    (fun _ => rfl) (fun _ _ _ => rfl) (core_request_frame c), cluster_reply_frame]

theorem cudaSetupArgument_frame (g : Gpu) (p : Nat) :
    cudaSetupArgument g p = { g with
      device := (cudaSetupArgument g p).device,
      managedAllocations := (cudaSetupArgument g p).managedAllocations } := by
  unfold cudaSetupArgument
  split <;> rfl

theorem cudaMemPrefetchAsync_frame (g : Gpu) (p n s : Nat) :
    cudaMemPrefetchAsync cfg g p n s = { g with
      prefetch_req_buffer := (cudaMemPrefetchAsync cfg g p n s).prefetch_req_buffer,
      aborted := (cudaMemPrefetchAsync cfg g p n s).aborted } := by
  unfold cudaMemPrefetchAsync
  split <;> rfl

theorem answer_frame (g : Gpu) (sid k : Nat) (how : Answer) :
    answer cfg g sid k how = { g with
      ldst := (answer cfg g sid k how).ldst,
      reserve_pages := (answer cfg g sid k how).reserve_pages,
      released := (answer cfg g sid k how).released,
      release_failed := (answer cfg g sid k how).release_failed,
      history := (answer cfg g sid k how).history,
      aborted := (answer cfg g sid k how).aborted } := by
  unfold answer
  split
  · rfl
  · cases how with
    | l1_access hit write_sent => rfl
    | data => rfl
    | fill =>
      dsimp only
      rw [releaseManaged_frame]
      rfl
    | write_allocate_fill uid =>
      dsimp only
      rw [releaseManaged_frame]
      rfl
    | write_ack more =>
      dsimp only
      rw [releaseManaged_frame]
      rfl

/-! ## What a cycle of a unit does -/

/-- No instruction waits in the unit, or one without accesses. -/
def NoAccess (g : Gpu) (sid : Nat) : Prop :=
  ∀ w, (g.ldst sid).m_dispatch_reg = some w → w.accessq = []

/-- The four things that an access cycle can do. -/
inductive AccessCycle (g : Gpu) (sid : Nat) : Gpu × Bool → Prop
  | idle (hidle : NoAccess g sid) : AccessCycle g sid (g, true)
  | passes {w : WarpInst} {a : MemAccess} {rest : List MemAccess}
      (hw : (g.ldst sid).m_dispatch_reg = some w) (hq : w.accessq = a :: rest)
      (hpass : ¬(isManaged cfg g a = true ∧ a.isGlobal = true)) :
      AccessCycle g sid (meetAccesses cfg g sid a rest, true)
  | hits {w : WarpInst} {a : MemAccess} {rest : List MemAccess}
      (hw : (g.ldst sid).m_dispatch_reg = some w) (hq : w.accessq = a :: rest)
      (hmanaged : isManaged cfg g a = true) (hglobal : a.isGlobal = true)
      (hin : cfg.get_page_num a.addr ∈ (g.ldst sid).tlb) :
      AccessCycle g sid
        (tlbHit cfg (noteAccess cfg (meetAccesses cfg g sid a rest) a rest) sid a, true)
  | misses {w : WarpInst} {a : MemAccess} {rest : List MemAccess}
      (hw : (g.ldst sid).m_dispatch_reg = some w) (hq : w.accessq = a :: rest)
      (hmanaged : isManaged cfg g a = true) (hglobal : a.isGlobal = true)
      (hout : cfg.get_page_num a.addr ∉ (g.ldst sid).tlb) :
      AccessCycle g sid
        (tlbMiss (noteAccess cfg (meetAccesses cfg g sid a rest) a rest) sid w a rest,
          decide (rest = []))

theorem access_cycle_cases (g : Gpu) (sid : Nat) :
    AccessCycle cfg g sid (access_cycle cfg g sid) := by
  unfold access_cycle
  split
  · rename_i hw
    exact .idle fun w h => by cases hw.symm.trans h
  · rename_i w hw
    split
    · rename_i hq
      exact .idle fun w' h => by
        cases hw.symm.trans h
        exact hq
    · rename_i a rest hq
      split
      · rename_i hpass
        exact .passes hw hq (by simpa [← Bool.not_eq_true, imp_iff_not_or] using hpass)
      · rename_i hpass
        have hboth : isManaged cfg g a = true ∧ a.isGlobal = true := by simpa using hpass
        unfold farFetch
        split
        · rename_i hin
          exact .hits hw hq hboth.1 hboth.2 hin
        · rename_i hout
          exact .misses hw hq hboth.1 hboth.2 hout

/-- The three things that a memory cycle can do. -/
inductive MemoryCycle (g : Gpu) (sid : Nat) (p : Port) : Gpu × Bool → Prop
  | drains {w : WarpInst} (hw : (g.ldst sid).m_dispatch_reg = some w) (hq : w.accessq ≠ []) :
      MemoryCycle g sid p
        (drainQueue cfg g sid w p, decide (w.accessq.drop (drained cfg w p) = []))
  | waits (hidle : NoAccess g sid) : MemoryCycle g sid p (g, true)
  | replies {mf : MemFetch} {rest : List MemFetch} (hidle : NoAccess g sid)
      (hreply : (g.ldst sid).m_gmmu_cu_queue = mf :: rest) (htakes : p.takes ≠ 0) :
      MemoryCycle g sid p (takeReply cfg g sid mf rest p, true)

theorem memory_cycle_cases (g : Gpu) (sid : Nat) (p : Port) :
    MemoryCycle cfg g sid p (memory_cycle cfg g sid p) := by
  have hidle : (g.ldst sid).m_dispatch_reg.filter (fun w => decide (w.accessq ≠ [])) = none →
      NoAccess g sid := by
    intro hnone w hw
    simpa [hw] using hnone
  simp only [memory_cycle]
  split
  · rename_i w _ hw
    obtain ⟨hreg, hq⟩ := Option.filter_eq_some_iff.mp hw
    exact .drains hreg (of_decide_eq_true hq)
  · rename_i hnone _
    exact .waits (hidle hnone)
  · rename_i mf rest hnone hreply
    split
    · exact .waits (hidle hnone)
    · rename_i htakes
      exact .replies (hidle hnone) hreply htakes

/-! ## What loops and cycles keep -/

section keeping

variable {Inv : Gpu → Prop}

/-- What each round of a loop keeps, the loop keeps. -/
theorem foldl_keeps {A : Type} {f : Gpu → A → Gpu} {as : List A}
    (hf : ∀ a ∈ as, ∀ g, Inv g → Inv (f g a)) {g : Gpu} (h : Inv g) : Inv (as.foldl f g) := by
  induction as generalizing g with
  | nil => exact h
  | cons a as ih =>
    apply ih (fun b hb => hf b (List.mem_cons_of_mem _ hb))
    exact hf a List.mem_cons_self g h

/-- What each part of a cycle of the GMMU keeps, the cycle keeps. -/
theorem gmmu_cycle_keeps
    (h1 : ∀ g, Inv g → Inv (eviction_check cfg g))
    (h2 : ∀ g, Inv g → Inv (write_back_done cfg g))
    (h3 : ∀ g, Inv g → Inv (write_back_schedule cfg g))
    (h4 : ∀ g, Inv g → Inv (read_done cfg g))
    (h5 : ∀ g, Inv g → Inv (read_schedule cfg g))
    (h6 : ∀ g, Inv g → Inv (page_table_walk cfg g))
    (h7 : ∀ g, Inv g → Inv (do_hardware_prefetch cfg g))
    (h8 : ∀ g, Inv g → Inv (fetch_from_clusters cfg g))
    (h9 : ∀ g, Inv g → Inv (user_prefetch cfg g)) {g : Gpu} (h : Inv g) :
    Inv (gmmu_cycle cfg g) := by
  have h3' := h3 _ (h2 _ (h1 _ h))
  have h6' := h6 _ (h5 _ (h4 _ h3'))
  exact h9 _ (h8 _ (h7 _ h6'))

/-- What the two halves of a cycle of a load/store unit keep, the cycle keeps. -/
theorem ldst_cycle_keeps {sid : Nat} {p : Port}
    (haccess : ∀ g, Inv g → Inv (access_cycle cfg g sid).1)
    (hmemory : ∀ g, Inv g → Inv (memory_cycle cfg g sid p).1)
    (hretire : ∀ g, Inv g → Inv (retire g sid)) {g : Gpu} (h : Inv g) :
    Inv (ldst_cycle cfg g sid p) := by
  have h1 := haccess g h
  have h2 := hmemory _ h1
  simp only [ldst_cycle]
  split
  · split
    · exact hretire _ h2
    · exact h2
  · exact h1

end keeping

/-! ## Which fields of a unit change -/

/-- A TLB hit changes the TLB of one unit. -/
theorem tlbHit_unit {B : Type} (field : Ldst → B)
    (hfield : ∀ u tlb as, field { u with tlb := tlb, looked_up := as } = field u) (g : Gpu) (sid : Nat) (a : MemAccess)
    (s : Nat) : field ((tlbHit cfg g sid a).ldst s) = field (g.ldst s) := by
  have hldst : (check_write_stage_queue cfg g (cfg.get_page_num a.addr)).ldst = g.ldst := by
    rw [check_write_stage_queue_frame]
  rw [← hldst]
  exact unit_same field (by rfl) (hfield _ _ _) s

/-- A memory cycle leaves the requests of the units alone. -/
theorem memory_cycle_cu_gmmu (g : Gpu) (sid : Nat) (p : Port) (s : Nat) :
    ((memory_cycle cfg g sid p).1.ldst s).m_cu_gmmu_queue = (g.ldst s).m_cu_gmmu_queue := by
  have hrelease : ∀ g a, (releaseIf cfg g a).ldst = g.ldst := by
    intro g a
    rw [releaseIf_frame]
  simp only [memory_cycle]
  split
  · simp only [drainQueue, hrelease]
    exact unit_same Ldst.m_cu_gmmu_queue (by rfl) (by rfl) s
  · rfl
  · split
    · rfl
    · simp only [takeReply, refresh_valid_pages, hrelease]
      exact unit_same Ldst.m_cu_gmmu_queue (by rfl) (by rfl) s

/-- An answer changes the accesses in flight of one unit. -/
theorem answer_unit {B : Type} (field : Ldst → B)
    (hfield : ∀ u es, field { u with in_flight := es } = field u) (g : Gpu) (sid k : Nat)
    (how : Answer) (s : Nat) :
    field ((answer cfg g sid k how).ldst s) = field (g.ldst s) := by
  have hrelease : ∀ g a, (releaseManaged cfg g a).ldst = g.ldst := by
    intro g a
    rw [releaseManaged_frame]
  have hset : ∀ es, field ((setInFlight g sid k es).ldst s) = field (g.ldst s) :=
    fun es => unit_same field (by rfl) (hfield _ _) s
  unfold answer
  split
  · rfl
  · cases how with
    | l1_access hit write_sent => exact hset _
    | data => exact hset _
    | fill =>
      dsimp only
      rw [hrelease]
      exact hset _
    | write_allocate_fill uid =>
      dsimp only
      rw [hrelease]
      rfl
    | write_ack more =>
      dsimp only
      rw [hrelease]
      exact hset _

/-- A cycle of a cluster changes the queues of its units to the GMMU and back. -/
theorem icnt_cycle_unit {B : Type} (field : Ldst → B)
    (hout : ∀ u q, field { u with m_cu_gmmu_queue := q } = field u)
    (hin : ∀ u q, field { u with m_gmmu_cu_queue := q } = field u) (g : Gpu) (c s : Nat) :
    field ((icnt_cycle cfg g c).ldst s) = field (g.ldst s) := by
  have hreply : field ((cluster_reply g c).ldst s) = field (g.ldst s) := by
    unfold cluster_reply
    split
    · rfl
    · exact unit_same field (by rfl) (hin _ _) s
  have hrequest : ∀ g sid, field ((core_request c g sid).ldst s) = field (g.ldst s) := by
    intro g sid
    unfold core_request
    split
    · rfl
    · exact unit_same field (by rfl) (hout _ _) s
  have hrequests : ∀ (sids : List Nat) (g : Gpu),
      field ((sids.foldl (core_request c) g).ldst s) = field (g.ldst s) := by
    intro sids
    induction sids with
    | nil => exact fun _ => rfl
    | cons sid sids ih =>
      intro g
      rw [List.foldl_cons, ih, hrequest]
  unfold icnt_cycle
  rw [hrequests, hreply]

/-- The GMMU takes entries out of the TLBs, and leaves alone all else that the
units and the allocators keep. -/
structure SparesUnits (g g' : Gpu) : Prop where
  units : ∀ s, ∃ tlb, g'.ldst s = { g.ldst s with tlb := tlb }
  sends : g'.sends = g.sends
  retired : g'.retired = g.retired
  issued_uids : g'.issued_uids = g.issued_uids
  next_fetch : g'.next_fetch = g.next_fetch
  reserve_pages : g'.reserve_pages = g.reserve_pages
  reserved : g'.reserved = g.reserved
  released : g'.released = g.released
  release_failed : g'.release_failed = g.release_failed
  ma_latency : g'.new_stats.ma_latency = g.new_stats.ma_latency
  m_dev_malloc_managed : g'.m_dev_malloc_managed = g.m_dev_malloc_managed
  m_dev_malloc : g'.m_dev_malloc = g.m_dev_malloc
  unmanaged_frames : g'.unmanaged_frames = g.unmanaged_frames
  ranges : g'.ranges = g.ranges

namespace SparesUnits

theorem refl (g : Gpu) : SparesUnits g g :=
  ⟨fun _ => ⟨_, rfl⟩, rfl, rfl, rfl, rfl, rfl, rfl, rfl, rfl, rfl, rfl, rfl, rfl, rfl⟩

theorem trans {a b c : Gpu} (h : SparesUnits a b) (h' : SparesUnits b c) : SparesUnits a c where
  units := by
    intro s
    obtain ⟨tlb, hb⟩ := h.units s
    obtain ⟨tlb', hc⟩ := h'.units s
    exact ⟨tlb', by rw [hc, hb]⟩
  sends := h'.sends.trans h.sends
  retired := h'.retired.trans h.retired
  issued_uids := h'.issued_uids.trans h.issued_uids
  next_fetch := h'.next_fetch.trans h.next_fetch
  reserve_pages := h'.reserve_pages.trans h.reserve_pages
  reserved := h'.reserved.trans h.reserved
  released := h'.released.trans h.released
  release_failed := h'.release_failed.trans h.release_failed
  ma_latency := h'.ma_latency.trans h.ma_latency
  m_dev_malloc_managed := h'.m_dev_malloc_managed.trans h.m_dev_malloc_managed
  m_dev_malloc := h'.m_dev_malloc.trans h.m_dev_malloc
  unmanaged_frames := h'.unmanaged_frames.trans h.unmanaged_frames
  ranges := h'.ranges.trans h.ranges

theorem foldl {A : Type} {f : Gpu → A → Gpu} (hf : ∀ g a, SparesUnits g (f g a)) (as : List A)
    (g : Gpu) : SparesUnits g (as.foldl f g) := by
  induction as generalizing g with
  | nil => exact refl g
  | cons a as ih => exact (hf g a).trans (ih (f g a))

/-- What does not read the TLB of a unit is the same. -/
theorem field {g g' : Gpu} (h : SparesUnits g g') {B : Type} (field : Ldst → B)
    (hfield : ∀ u tlb, field { u with tlb := tlb } = field u) (s : Nat) :
    field (g'.ldst s) = field (g.ldst s) := by
  obtain ⟨tlb, hs⟩ := h.units s
  rw [hs, hfield]

end SparesUnits

theorem walkFetch_sparesUnits (g : Gpu) (mf : MemFetch) : SparesUnits g (walkFetch cfg g mf) := by
  have hstats : (walkFetch cfg g mf).new_stats.ma_latency = g.new_stats.ma_latency := by
    unfold walkFetch
    split
    · simp only [replay]
      rw [check_write_stage_queue_frame]
      rfl
    · unfold fileFetch
      split
      · rfl
      · split <;> rfl
  rw [walkFetch_frame] at hstats ⊢
  exact ⟨fun _ => ⟨_, rfl⟩, rfl, rfl, rfl, rfl, rfl, rfl, rfl, rfl, hstats, rfl, rfl, rfl, rfl⟩

theorem do_hardware_prefetch_sparesUnits (g : Gpu) :
    SparesUnits g (do_hardware_prefetch cfg g) := by
  have hfiled : ∀ g, SparesUnits g (fileFaults g) := by
    refine fun g => SparesUnits.foldl (fun g e => ?_) _ g
    exact ⟨fun _ => ⟨_, rfl⟩, rfl, rfl, rfl, rfl, rfl, rfl, rfl, rfl, rfl, rfl, rfl, rfl, rfl⟩
  have hstats : (do_hardware_prefetch cfg g).new_stats.ma_latency = g.new_stats.ma_latency := by
    simp only [do_hardware_prefetch]
    split
    · rfl
    · rw [noteOversubscription_frame]
      simp only [stageTurn, (hfiled _).ma_latency]
      rw [chooseMigrations_frame]
  rw [do_hardware_prefetch_frame] at hstats ⊢
  exact ⟨fun _ => ⟨_, rfl⟩, rfl, rfl, rfl, rfl, rfl, rfl, rfl, rfl, hstats, rfl, rfl, rfl, rfl⟩

theorem gmmu_cycle_sparesUnits (g : Gpu) : SparesUnits g (gmmu_cycle cfg g) := by
  apply gmmu_cycle_keeps cfg _ _ _ _ _ _ _ _ _ (SparesUnits.refl g)
  · intro k h
    rw [eviction_check_frame]
    exact h.trans ⟨fun _ => ⟨_, rfl⟩, rfl, rfl, rfl, rfl, rfl, rfl, rfl, rfl, rfl, rfl, rfl, rfl, rfl⟩
  · intro k h
    exact h.trans ⟨fun _ => ⟨_, rfl⟩, rfl, rfl, rfl, rfl, rfl, rfl, rfl, rfl, rfl, rfl, rfl, rfl, rfl⟩
  · intro k h
    refine h.trans ?_
    unfold write_back_schedule
    split
    · exact ⟨fun _ => ⟨_, rfl⟩, rfl, rfl, rfl, rfl, rfl, rfl, rfl, rfl, rfl, rfl, rfl, rfl, rfl⟩
    · exact SparesUnits.refl k
  · intro k h
    rw [read_done_frame]
    exact h.trans ⟨fun _ => ⟨_, rfl⟩, rfl, rfl, rfl, rfl, rfl, rfl, rfl, rfl, rfl, rfl, rfl, rfl, rfl⟩
  · intro k h
    rw [read_schedule_frame]
    exact h.trans ⟨fun _ => ⟨_, rfl⟩, rfl, rfl, rfl, rfl, rfl, rfl, rfl, rfl, rfl, rfl, rfl, rfl, rfl⟩
  · intro k h
    exact h.trans (SparesUnits.foldl (walkFetch_sparesUnits cfg) _ k)
  · intro k h
    exact h.trans (do_hardware_prefetch_sparesUnits cfg k)
  · intro k h
    rw [fetch_from_clusters_frame]
    exact h.trans ⟨fun _ => ⟨_, rfl⟩, rfl, rfl, rfl, rfl, rfl, rfl, rfl, rfl, rfl, rfl, rfl, rfl, rfl⟩
  · intro k h
    rw [user_prefetch_frame]
    exact h.trans ⟨fun _ => ⟨_, rfl⟩, rfl, rfl, rfl, rfl, rfl, rfl, rfl, rfl, rfl, rfl, rfl, rfl, rfl⟩

/-! ## Composition -/

section composition

variable {ok : Event → Bool} {Inv : Gpu → Prop}

theorem page_table_walk_follows
    (hwalk : ∀ g mf, monitor.Follows (Watched ok) Inv g (walkFetch cfg g mf)) (g : Gpu) :
    monitor.Follows (Watched ok) Inv g (page_table_walk cfg g) :=
  monitor.Follows.foldl _ (fun mf _ g => hwalk g mf) g

/-- A cycle of the GMMU is its parts, one after the other. -/
theorem gmmu_cycle_follows
    (h1 : ∀ g, monitor.Follows (Watched ok) Inv g (eviction_check cfg g))
    (h2 : ∀ g, monitor.Follows (Watched ok) Inv g (write_back_done cfg g))
    (h3 : ∀ g, monitor.Follows (Watched ok) Inv g (write_back_schedule cfg g))
    (h4 : ∀ g, monitor.Follows (Watched ok) Inv g (read_done cfg g))
    (h5 : ∀ g, monitor.Follows (Watched ok) Inv g (read_schedule cfg g))
    (h6 : ∀ g, monitor.Follows (Watched ok) Inv g (page_table_walk cfg g))
    (h7 : ∀ g, monitor.Follows (Watched ok) Inv g (do_hardware_prefetch cfg g))
    (h8 : ∀ g, monitor.Follows (Watched ok) Inv g (fetch_from_clusters cfg g))
    (h9 : ∀ g, monitor.Follows (Watched ok) Inv g (user_prefetch cfg g)) (g : Gpu) :
    monitor.Follows (Watched ok) Inv g (gmmu_cycle cfg g) := by
  have h12 := (h1 g).trans (h2 _)
  have h14 := (h12.trans (h3 _)).trans (h4 _)
  have h16 := (h14.trans (h5 _)).trans (h6 _)
  exact ((h16.trans (h7 _)).trans (h8 _)).trans (h9 _)

/-- A cycle of a load/store unit is its access cycle, its memory cycle, and
that the instruction may leave. -/
theorem ldst_cycle_follows
    (haccess : ∀ g sid, monitor.Follows (Watched ok) Inv g (access_cycle cfg g sid).1)
    (hmemory : ∀ g sid p, monitor.Follows (Watched ok) Inv g (memory_cycle cfg g sid p).1)
    (hretire : ∀ g sid, monitor.Follows (Watched ok) Inv g (retire g sid)) (g : Gpu) (sid : Nat)
    (p : Port) : monitor.Follows (Watched ok) Inv g (ldst_cycle cfg g sid p) := by
  have hboth := (haccess g sid).trans (hmemory (access_cycle cfg g sid).1 sid p)
  simp only [ldst_cycle]
  split
  · split
    · exact hboth.trans (hretire _ sid)
    · exact hboth
  · exact haccess g sid

end composition

/-- An invariant that every watched step keeps holds in every state of every
run that is watched to its end. -/
theorem invariant_of_steps {ok : Event → Bool} (Inv : Gpu → Prop) (h0 : Inv (boot cfg))
    (hstep : ∀ g a, enabled cfg g a = true → monitor.Follows (Watched ok) Inv g (perform cfg g a))
    {g : Gpu} (hr : Reachable cfg g) (hg : g.history.all ok = true) : Inv g := by
  have hruns : g.aborted = false := by
    cases hr with
    | start => rfl
    | step _ hn =>
      obtain ⟨a, ha⟩ := hn
      exact (step_eq_some cfg ha).2.2
  have hnext : ∀ s s', Next cfg s s' → monitor.Follows (Watched ok) Inv s s' := by
    rintro s s' ⟨a, ha⟩
    obtain ⟨hen, rfl, -⟩ := step_eq_some cfg ha
    exact hstep s a hen
  exact reach_invariant h0 hnext hr ⟨hruns, List.all_eq_true.mp hg⟩

/-- The same where a step may use that it starts in a state of a run. -/
theorem invariant_of_reachable_steps {ok : Event → Bool} (Inv : Gpu → Prop) (h0 : Inv (boot cfg))
    (hstep : ∀ g a, Reachable cfg g → enabled cfg g a = true →
      monitor.Follows (Watched ok) Inv g (perform cfg g a))
    {g : Gpu} (hr : Reachable cfg g) (hg : g.history.all ok = true) : Inv g := by
  induction hr with
  | start => exact h0
  | step hr hn ih =>
    obtain ⟨a, ha⟩ := hn
    obtain ⟨hen, rfl, hruns⟩ := step_eq_some cfg ha
    have hf := hstep _ a hr hen
    have hw : Watched ok (perform cfg _ a) := ⟨hruns, List.all_eq_true.mp hg⟩
    exact hf.keeps (ih (List.all_eq_true.mpr (hf.unforgiving hw).events)) hw

end gpgpu_sim_uvm
