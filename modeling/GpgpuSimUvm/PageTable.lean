-- What the functions of the simulator do to the page table: most of them
-- only mark pages as accessed or dirty, and leave it to the completion of a
-- migration to validate pages and to the write-backs to invalidate them.
import GpgpuSimUvm.Frames

namespace gpgpu_sim_uvm

variable (cfg : Config)

/-- The same pages are valid, and the same pages are managed. -/
def SamePages (m m' : StdMap Nat MemStorage) : Prop :=
  ∀ p, (pageOf m' p).valid = (pageOf m p).valid ∧ (pageOf m' p).managed = (pageOf m p).managed

namespace SamePages

theorem refl (m : StdMap Nat MemStorage) : SamePages m m := fun _ => ⟨rfl, rfl⟩

theorem trans {a b c : StdMap Nat MemStorage} (h : SamePages a b) (h' : SamePages b c) :
    SamePages a c :=
  fun p => ⟨(h' p).1.trans (h p).1, (h' p).2.trans (h p).2⟩

theorem foldl {A : Type} {f : StdMap Nat MemStorage → A → StdMap Nat MemStorage}
    (hf : ∀ m a, SamePages m (f m a)) (as : List A) (m : StdMap Nat MemStorage) :
    SamePages m (as.foldl f m) := by
  induction as generalizing m with
  | nil => exact refl m
  | cons a as ih => exact (hf m a).trans (ih (f m a))

/-- A change of the flags of one page that spares these two. -/
theorem setPage {f : MemStorage → MemStorage}
    (hf : ∀ s, (f s).valid = s.valid ∧ (f s).managed = s.managed) (m : StdMap Nat MemStorage)
    (p : Nat) : SamePages m (setPage m p f) := by
  intro q
  rw [pageOf_setPage]
  split
  · rename_i h
    subst h
    exact hf _
  · exact ⟨rfl, rfl⟩

theorem is_valid {g g' : Gpu} (h : SamePages g.m_data g'.m_data) (p : Nat) :
    gpgpu_sim_uvm.is_valid g' p = gpgpu_sim_uvm.is_valid g p :=
  (h p).1

theorem is_page_managed {g g' : Gpu} (h : SamePages g.m_data g'.m_data) (a n : Nat) :
    gpgpu_sim_uvm.is_page_managed cfg g' a n = gpgpu_sim_uvm.is_page_managed cfg g a n :=
  (h _).2

end SamePages

theorem touchPage_samePages (m : StdMap Nat MemStorage) (a n : Nat) :
    SamePages m (touchPage cfg m a n) := by
  refine SamePages.setPage ?_ m _
  exact fun _ => ⟨rfl, rfl⟩

theorem set_page_access_samePages (m : StdMap Nat MemStorage) (p : Nat) :
    SamePages m (set_page_access m p) := by
  refine SamePages.setPage ?_ m p
  exact fun _ => ⟨rfl, rfl⟩

theorem set_page_dirty_samePages (m : StdMap Nat MemStorage) (p : Nat) :
    SamePages m (set_page_dirty m p) := by
  refine SamePages.setPage ?_ m p
  exact fun _ => ⟨rfl, rfl⟩

theorem markPage_samePages (m : StdMap Nat MemStorage) (a : MemAccess) :
    SamePages m (markPage cfg m a) := by
  simp only [markPage]
  split
  · exact (set_page_access_samePages m _).trans (set_page_dirty_samePages _ _)
  · exact set_page_access_samePages m _

theorem markReclaimed_samePages (g : Gpu) (p : Nat) :
    SamePages g.m_data (markReclaimed g p).m_data :=
  (set_page_access_samePages g.m_data p).trans (set_page_dirty_samePages _ p)

theorem reclaimPages_samePages (ps : List Nat) (g : Gpu) :
    SamePages g.m_data (ps.foldl (reclaimPage cfg) g).m_data := by
  induction ps generalizing g with
  | nil => exact SamePages.refl _
  | cons q qs ih => exact SamePages.trans (markReclaimed_samePages g q) (ih (reclaimPage cfg g q))

theorem check_write_stage_queue_samePages (g : Gpu) (p : Nat) :
    SamePages g.m_data (check_write_stage_queue cfg g p).m_data := by
  unfold check_write_stage_queue
  split
  · exact SamePages.refl _
  · rename_i t _
    exact reclaimPages_samePages cfg t.page_list g

theorem walkFetch_samePages (g : Gpu) (mf : MemFetch) :
    SamePages g.m_data (walkFetch cfg g mf).m_data := by
  unfold walkFetch
  split
  · exact check_write_stage_queue_samePages cfg (popWalk cfg g mf) _
  · rw [fileFetch_frame]
    exact SamePages.refl _

theorem selectChunk_samePages (n : Nat) (g : Gpu) (q : PrefetchReq) :
    SamePages g.m_data (selectChunk cfg n g q).1.m_data := by
  induction n generalizing g q with
  | zero => exact SamePages.refl _
  | succ n ih =>
    have hcheck := check_write_stage_queue_samePages cfg
      (g.require (is_mapped g (cfg.get_page_num q.cur_addr))) (cfg.get_page_num q.cur_addr)
    simp only [selectChunk]
    split_ifs
    · exact hcheck
    · exact hcheck.trans (ih _ _)
    · exact hcheck
    · exact ih (takePage (g.require _) _ _).1 _
    · exact SamePages.refl _

theorem user_prefetch_samePages (g : Gpu) : SamePages g.m_data (user_prefetch cfg g).m_data := by
  unfold user_prefetch
  split
  · exact SamePages.refl _
  · rename_i q rest _
    have hreplay : (replayChunk cfg g q).1.m_data = g.m_data := by rw [replayChunk_frame]
    split
    · dsimp only
      split
      · change SamePages g.m_data (replayChunk cfg g q).1.m_data
        rw [hreplay]
        exact SamePages.refl _
      · have hselect := selectChunk_samePages cfg (pages_left cfg (replayChunk cfg g q).2)
          (replayChunk cfg g q).1 (replayChunk cfg g q).2
        rw [hreplay] at hselect
        exact hselect
    · exact SamePages.refl _

theorem meetAccesses_samePages (g : Gpu) (sid : Nat) (a : MemAccess) (rest : List MemAccess) :
    SamePages g.m_data (meetAccesses cfg g sid a rest).m_data := by
  refine SamePages.foldl ?_ _ g.m_data
  exact fun m b => touchPage_samePages cfg m b.addr b.size

theorem tlbHit_samePages (g : Gpu) (sid : Nat) (a : MemAccess) :
    SamePages g.m_data (tlbHit cfg g sid a).m_data :=
  (check_write_stage_queue_samePages cfg g _).trans (markPage_samePages cfg _ a)

theorem access_cycle_samePages (g : Gpu) (sid : Nat) :
    SamePages g.m_data (access_cycle cfg g sid).1.m_data := by
  unfold access_cycle
  split
  · exact SamePages.refl _
  · split
    · exact SamePages.refl _
    · rename_i a rest _
      have hmeet := meetAccesses_samePages cfg g sid a rest
      split
      · exact hmeet
      · unfold farFetch
        split
        · exact hmeet.trans
            (tlbHit_samePages cfg (noteAccess cfg (meetAccesses cfg g sid a rest) a rest) sid a)
        · exact hmeet

theorem memory_cycle_samePages (g : Gpu) (sid : Nat) (p : Port) :
    SamePages g.m_data (memory_cycle cfg g sid p).1.m_data := by
  simp only [memory_cycle]
  split
  · unfold drainQueue
    rw [releaseIf_frame]
    exact SamePages.refl _
  · exact SamePages.refl _
  · split
    · exact SamePages.refl _
    · rename_i mf rest _ _ _
      simp only [takeReply, refresh_valid_pages]
      rw [releaseIf_frame]
      exact markPage_samePages cfg g.m_data mf.access

theorem writeDevice_samePages (g : Gpu) (bytes : List (Nat × UInt8)) :
    SamePages g.m_data (writeDevice cfg g bytes).m_data := by
  refine SamePages.foldl ?_ bytes g.m_data
  exact fun m b => touchPage_samePages cfg m b.1 1

/-! ## Pages that become valid, invalid or managed -/

theorem pageOf_validate_page (m : StdMap Nat MemStorage) (p q : Nat) :
    pageOf (validate_page m p) q =
      if q = p then { pageOf m p with valid := true } else pageOf m q :=
  pageOf_setPage m p q _

theorem completePage_m_data (g : Gpu) (p : Nat) :
    (completePage cfg g p).m_data = validate_page g.m_data p := by
  unfold completePage completeFaulted
  rw [replay_foldl_frame, completePrefetched_frame]
  rfl

theorem pageOf_invalidate_pages (ps : List Nat) (m : StdMap Nat MemStorage) (q : Nat) :
    pageOf (ps.foldl invalidate_page m) q =
      if q ∈ ps then { pageOf m q with valid := false, dirty := false, access := false }
      else pageOf m q := by
  induction ps generalizing m with
  | nil => simp
  | cons p ps ih =>
    rw [List.foldl_cons, ih]
    simp only [invalidate_page, pageOf_setPage, List.mem_cons]
    by_cases hp : q = p
    · subst hp
      simp
    · simp [hp]

theorem pageOf_set_pages_managed (m : StdMap Nat MemStorage) (a n q : Nat) :
    pageOf (set_pages_managed cfg m a n) q =
      if q ∈ pagesOfRange cfg a n then { pageOf m q with managed := true } else pageOf m q := by
  unfold set_pages_managed
  induction pagesOfRange cfg a n generalizing m with
  | nil => simp
  | cons p ps ih =>
    rw [List.foldl_cons, ih]
    simp only [pageOf_setPage, List.mem_cons]
    by_cases hp : q = p
    · subst hp
      simp
    · simp [hp]

theorem cudaMallocManaged_m_data (g : Gpu) (cpu size : Nat) :
    (cudaMallocManaged cfg g cpu size).m_data =
      set_pages_managed cfg g.m_data g.m_dev_malloc_managed (roundedSize size) :=
  rfl

theorem is_valid_of_pages {g g' : Gpu} {p : Nat}
    (h : (pageOf g'.m_data p).valid = (pageOf g.m_data p).valid) : is_valid g' p = is_valid g p :=
  h

/-- A new allocation makes no page valid and none invalid. -/
theorem is_valid_cudaMallocManaged (g : Gpu) (cpu size p : Nat) :
    is_valid (cudaMallocManaged cfg g cpu size) p = is_valid g p := by
  apply is_valid_of_pages
  rw [cudaMallocManaged_m_data, pageOf_set_pages_managed]
  split <;> rfl

end gpgpu_sim_uvm
