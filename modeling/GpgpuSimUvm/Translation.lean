-- The translation of the accesses. An access to a managed page goes down behind
-- a TLB hit at the front of its queue, or as the reply of a walk, and finds its
-- page resident, as long as it leaves the queue from the front, no reply is
-- overtaken by an eviction of its page, and no access hits an entry that only a
-- direct access made.
import GpgpuSimUvm.FetchPages

namespace gpgpu_sim_uvm

open monitor

variable (cfg : Config)

/-! ## Local accesses -/

def Ldst.warps (u : Ldst) : List WarpInst := u.issued ++ u.m_dispatch_reg.toList

/-- The managed pages and the local memory of the threads are apart. -/
structure LocalsApart (g : Gpu) : Prop where
  heap : GLOBAL_HEAP_START ≤ g.m_dev_malloc_managed
  managed : ∀ p, (pageOf g.m_data p).managed = true → cfg.get_page_num GLOBAL_HEAP_START ≤ p
  locals : ∀ sid, ∀ w ∈ (g.ldst sid).warps, ∀ a ∈ w.accessq,
    a.isGlobal = true ∨ a.addr + a.size ≤ GLOBAL_HEAP_START

variable {cfg}

/-- The heap starts with a page. -/
theorem below_heap {a : Nat} (h : a < GLOBAL_HEAP_START) :
    cfg.get_page_num a < cfg.get_page_num GLOBAL_HEAP_START := by
  unfold Config.get_page_num GLOBAL_HEAP_START at *
  rcases cfg.page_size_ok with hsize | hsize
  · rw [hsize]
    omega
  · rw [hsize]
    omega

/-- An access of a managed page is global. -/
theorem LocalsApart.isGlobal {g : Gpu} (h : LocalsApart cfg g) {sid : Nat} {w : WarpInst}
    (hw : (g.ldst sid).m_dispatch_reg = some w) {a : MemAccess} (ha : a ∈ w.accessq)
    (hmanaged : isManaged cfg g a = true) : a.isGlobal = true := by
  have hin : w ∈ (g.ldst sid).warps := by
    unfold Ldst.warps
    rw [hw]
    exact List.mem_append_right _ List.mem_cons_self
  rcases h.locals sid w hin a ha with hglobal | hlocal
  · exact hglobal
  · have hpage := h.managed _ hmanaged
    have hpos := a.size_pos
    have hlast : a.addr + a.size - 1 < GLOBAL_HEAP_START := by omega
    have hlt : cfg.get_page_num (a.addr + a.size - 1) < cfg.get_page_num GLOBAL_HEAP_START :=
      below_heap hlast
    omega

namespace LocalsApart

variable {g g' : Gpu}

/-- A step that makes no page managed, and issues nothing. -/
theorem same (h : LocalsApart cfg g) (hheap : g'.m_dev_malloc_managed = g.m_dev_malloc_managed)
    (hmanaged : ∀ p, (pageOf g'.m_data p).managed = (pageOf g.m_data p).managed)
    (hunits : ∀ sid, ∀ w ∈ (g'.ldst sid).warps,
      ∃ w' ∈ (g.ldst sid).warps, w.accessq ⊆ w'.accessq) : LocalsApart cfg g' := by
  refine ⟨?_, ?_, ?_⟩
  · rw [hheap]
    exact h.heap
  · intro p hp
    rw [hmanaged] at hp
    exact h.managed p hp
  · intro sid w hw a ha
    obtain ⟨w', hw', hsub⟩ := hunits sid w hw
    exact h.locals sid w' hw' a (hsub ha)

/-- The same where the units keep their instructions. -/
theorem spared (h : LocalsApart cfg g)
    (hheap : g'.m_dev_malloc_managed = g.m_dev_malloc_managed)
    (hmanaged : ∀ p, (pageOf g'.m_data p).managed = (pageOf g.m_data p).managed)
    (hunits : ∀ sid, (g'.ldst sid).warps = (g.ldst sid).warps) :
    LocalsApart cfg g' := by
  apply h.same hheap hmanaged
  intro sid w hw
  rw [hunits] at hw
  exact ⟨w, hw, List.Subset.refl _⟩

end LocalsApart

theorem gmmu_cycle_managed (g : Gpu) (p : Nat) :
    (pageOf (gmmu_cycle cfg g).m_data p).managed = (pageOf g.m_data p).managed := by
  let Same (k : Gpu) : Prop := (pageOf k.m_data p).managed = (pageOf g.m_data p).managed
  have h0 : Same g := rfl
  change Same (gmmu_cycle cfg g)
  apply gmmu_cycle_keeps cfg _ _ _ _ _ _ _ _ _ h0
  · intro k h
    rw [eviction_check_frame]
    exact h
  · exact fun _ h => h
  · intro k h
    unfold write_back_schedule
    split
    · rename_i t rest _ _
      have hpages : Same (startWriteBack cfg k t rest) := by
        simp only [Same, startWriteBack, pageOf_invalidate_pages]
        split <;> exact h
      exact hpages
    · exact h
  · intro k h
    unfold read_done finishRead
    split
    · exact h
    · rename_i t _
      split
      · split
        · have hpage : ∀ q, ∀ k, Same k → Same (completePage cfg k q) := by
            intro q k hk
            simp only [Same]
            rw [completePage_m_data, pageOf_validate_page]
            split
            · rename_i hq
              subst hq
              exact hk
            · exact hk
          have hpages : Same (t.page_list.foldl (completePage cfg) k) :=
            foldl_keeps (fun q _ => hpage q) h
          exact hpages
        · cases t.mf <;> exact h
        · exact h
      · exact h
  · intro k h
    rw [read_schedule_frame]
    exact h
  · intro k h
    have hwalk : ∀ mf, ∀ k, Same k → Same (walkFetch cfg k mf) :=
      fun mf k hk => (walkFetch_samePages cfg k mf p).2.trans hk
    exact foldl_keeps (fun mf _ => hwalk mf) h
  · intro k h
    rw [do_hardware_prefetch_frame]
    exact h
  · intro k h
    rw [fetch_from_clusters_frame]
    exact h
  · intro k h
    exact (user_prefetch_samePages cfg k p).2.trans h

theorem ldst_cycle_managed (g : Gpu) (sid : Nat) (p : Port) (q : Nat) :
    (pageOf (ldst_cycle cfg g sid p).m_data q).managed = (pageOf g.m_data q).managed := by
  have hboth := (access_cycle_samePages cfg g sid).trans
    (memory_cycle_samePages cfg (access_cycle cfg g sid).1 sid p)
  simp only [ldst_cycle]
  split
  · split
    · exact (hboth q).2
    · exact (hboth q).2
  · exact (access_cycle_samePages cfg g sid q).2

/-- A step of the unit of an instruction takes accesses out of its queue. -/
theorem ldst_cycle_instructions (g : Gpu) (sid : Nat) (p : Port) (s : Nat) :
    ∀ w ∈ ((ldst_cycle cfg g sid p).ldst s).warps,
      ∃ w' ∈ (g.ldst s).warps, w.accessq ⊆ w'.accessq := by
  let Narrower (k : Gpu) : Prop := ∀ w ∈ (k.ldst s).warps,
    ∃ w' ∈ (g.ldst s).warps, w.accessq ⊆ w'.accessq
  have h0 : Narrower g := fun w hw => ⟨w, hw, List.Subset.refl _⟩
  have hsame : ∀ {k k' : Gpu}, Narrower k →
      (k'.ldst s).warps = (k.ldst s).warps → Narrower k' := by
    intro k k' hk hunits w hw
    rw [hunits] at hw
    exact hk w hw
  -- the register takes a part of the queue that it held
  have hreg : ∀ {k k' : Gpu} {w w' : WarpInst} {u : Ldst}, Narrower k →
      (k.ldst sid).m_dispatch_reg = some w → w'.accessq ⊆ w.accessq →
      k'.ldst = setLdst k sid u → u.issued = (k.ldst sid).issued →
      u.m_dispatch_reg = some w' → Narrower k' := by
    intro k k' w w' u hk hw hsub hldst hissued hreg x hx
    rw [hldst] at hx
    by_cases hs : s = sid
    · subst hs
      rw [setLdst_self] at hx
      unfold Ldst.warps at hx
      rw [hissued, hreg] at hx
      rcases List.mem_append.mp hx with hx | hx
      · exact hk x (List.mem_append_left _ hx)
      · rw [List.mem_singleton.mp hx]
        obtain ⟨y, hy, hwy⟩ := hk w (by
          unfold Ldst.warps
          rw [hw]
          exact List.mem_append_right _ List.mem_cons_self)
        exact ⟨y, hy, List.Subset.trans hsub hwy⟩
    · rw [setLdst_ne k _ hs] at hx
      exact hk x hx
  change Narrower (ldst_cycle cfg g sid p)
  apply ldst_cycle_keeps cfg _ _ _ h0
  · intro k hk
    have hcase := access_cycle_cases cfg k sid
    generalize access_cycle cfg k sid = t at hcase ⊢
    cases hcase with
    | idle => exact hk
    | passes => exact hsame hk rfl
    | @hits w a rest =>
      refine hsame hk ?_
      exact tlbHit_unit cfg Ldst.warps (fun _ _ _ => rfl)
        (noteAccess cfg (meetAccesses cfg k sid a rest) a rest) sid a s
    | @misses w a rest hw hq =>
      have hsub : rest ⊆ w.accessq := by
        rw [hq]
        exact List.subset_cons_self _ _
      exact hreg hk hw hsub rfl rfl rfl
  · intro k hk
    have hcase := memory_cycle_cases cfg k sid p
    generalize memory_cycle cfg k sid p = t at hcase ⊢
    cases hcase with
    | @drains w hw =>
      unfold drainQueue
      rw [releaseIf_frame]
      exact hreg hk hw (List.drop_subset (drained cfg w p) w.accessq) rfl rfl rfl
    | waits => exact hk
    | replies =>
      unfold takeReply refresh_valid_pages
      rw [releaseIf_frame]
      exact hsame hk (unit_same Ldst.warps (by rfl) (by rfl) s)
  · intro k hk x hx
    by_cases hs : s = sid
    · subst hs
      simp only [retire, setLdst_self, Ldst.warps, Option.toList_none,
        List.append_nil] at hx
      exact hk x (List.mem_append_left _ hx)
    · simp only [retire, setLdst_ne k _ hs] at hx
      exact hk x hx

theorem perform_localsApart {g : Gpu} (h : LocalsApart cfg g) {a : Action}
    (hen : enabled cfg g a = true) : LocalsApart cfg (perform cfg g a) := by
  cases a with
  | cudaMallocManaged cpu size =>
    have hheap := h.heap
    refine ⟨?_, ?_, h.locals⟩
    · simp only [perform, cudaMallocManaged, bumped]
      omega
    · intro p hp
      simp only [perform] at hp
      rw [cudaMallocManaged_m_data, pageOf_set_pages_managed] at hp
      split at hp
      · rename_i hin
        have hstart := (List.mem_range'_1.mp hin).1
        exact (Nat.div_le_div_right hheap).trans hstart
      · exact h.managed p hp
  | cudaDeviceSynchronize =>
    refine h.spared rfl (fun p => ?_) fun _ => rfl
    simp only [perform, cudaDeviceSynchronize, pageOf_invalidate_pages]
    split <;> rfl
  | issue sid w bytes =>
    have hagree : accessesAgree w = true := by
      simp only [enabled, Bool.and_eq_true] at hen
      exact hen.1.2
    refine ⟨h.heap, fun p hp => ?_, ?_⟩
    · exact h.managed p ((writeDevice_samePages cfg _ bytes p).2.symm.trans hp)
    · intro s x hx
      by_cases hs : s = sid
      · subst hs
        simp only [perform, issue, writeDevice, setLdst_self, Ldst.warps,
          List.append_assoc] at hx
        rcases List.mem_append.mp hx with hx | hx
        · exact h.locals s x (List.mem_append_left _ hx)
        · rcases List.mem_append.mp hx with hx | hx
          · rw [List.mem_singleton.mp hx]
            intro b hb
            have hb' := List.all_eq_true.mp hagree b hb
            simp only [Bool.and_eq_true, Bool.or_eq_true, decide_eq_true_eq] at hb'
            exact hb'.1.2
          · exact h.locals s x (List.mem_append_right _ hx)
      · simp only [perform, issue, writeDevice, setLdst_ne g _ hs] at hx
        exact h.locals s x hx
  | dispatch sid k =>
    refine h.same rfl (fun _ => rfl) fun s x hx => ⟨x, ?_, List.Subset.refl _⟩
    by_cases hs : s = sid
    · subst hs
      simp only [perform, dispatch, setLdst_self, Ldst.warps] at hx
      rcases List.mem_append.mp hx with hx | hx
      · exact List.mem_append_left _ (List.mem_of_mem_eraseIdx hx)
      · exact List.mem_append_left _ (List.mem_of_getElem? (Option.mem_toList.mp hx))
    · simp only [perform, dispatch, setLdst_ne g _ hs] at hx
      exact hx
  | ldst_cycle sid p =>
    refine h.same ?_ (ldst_cycle_managed g sid p) (ldst_cycle_instructions g sid p)
    simp only [perform]
    rw [ldst_cycle_frame]
  | icnt_cycle c =>
    have hunits := icnt_cycle_unit cfg Ldst.warps (fun _ _ => rfl) (fun _ _ => rfl) g c
    simp only [perform]
    rw [icnt_cycle_frame]
    exact h.spared rfl (fun _ => rfl) hunits
  | answer sid k how =>
    have hunits := answer_unit cfg Ldst.warps (fun _ _ => rfl) g sid k how
    simp only [perform]
    rw [answer_frame]
    exact h.spared rfl (fun _ => rfl) hunits
  | do_atomic sid k bytes =>
    exact h.spared rfl (fun p => (writeDevice_samePages cfg _ bytes p).2) fun _ => rfl
  | gmmu_cycle =>
    have hspared := gmmu_cycle_sparesUnits cfg g
    refine h.spared ?_ (gmmu_cycle_managed g) (hspared.field Ldst.warps fun _ _ => rfl)
    exact hspared.m_dev_malloc_managed
  | cudaSetupArgument p =>
    simp only [perform]
    rw [cudaSetupArgument_frame]
    exact h.spared rfl (fun _ => rfl) fun _ => rfl
  | cudaMemPrefetchAsync p n s =>
    simp only [perform]
    rw [cudaMemPrefetchAsync_frame]
    exact h.spared rfl (fun _ => rfl) fun _ => rfl
  | cudaMalloc _ | host_write _ _ | activate_prefetch _ _ _ | log_kernel_start _
  | log_kernel_finish _ | tick => exact h.spared rfl (fun _ => rfl) fun _ => rfl

theorem localsApart {g : Gpu} (hr : Reachable cfg g) : LocalsApart cfg g := by
  induction hr with
  | start =>
    refine ⟨?_, ?_, ?_⟩
    · simp [boot]
    · intro p hp
      cases hp
    · intro sid w hw
      cases hw
  | step _ hn ih =>
    obtain ⟨a, ha⟩ := hn
    obtain ⟨hen, rfl, _⟩ := step_eq_some cfg ha
    exact perform_localsApart ih hen

/-! ## Accesses that go down -/

/-- The access was translated, its page is resident unless it was served by
DMA, and a store has marked its page. -/
structure Sent.Translated (s : Sent) : Prop where
  translated : s.translated = true
  resident : s.valid = true ∨ s.direct = true
  marked : s.access.type = .GLOBAL_ACC_W → s.marked = true

/-- The condition of the law: accesses of managed pages leave their queue from
the front, an entry that a direct access made is not hit before its page is
resident, and no page leaves with a reply for it on its way. -/
def Event.translates : Event → Bool
  | .left_queue s behind => !s.managed || !behind
  | .tlb_hit resident direct => resident || !direct
  | .left_gpu expected => !expected
  | _ => true

theorem translates_quietly (e : Event) (h : e.translates = true) : e.leavesQuietly = true := by
  cases e <;> first | rfl | exact h

/-- Behind a hit the access in front is translated. -/
theorem tlbHit_translates {g g' : Gpu} (h : FetchPages cfg g) {sid : Nat} {a : MemAccess}
    (hin : cfg.get_page_num a.addr ∈ (g.ldst sid).tlb) (hw : Watched Event.translates g')
    (hg' : Grows (tlbHit cfg g sid a) g') :
    (sentFromQueue cfg (tlbHit cfg g sid a) sid a).Translated := by
  have hcheck := h.check_write_stage_queue (cfg.get_page_num a.addr)
  have hldst : (check_write_stage_queue cfg g (cfg.get_page_num a.addr)).ldst = g.ldst := by
    rw [check_write_stage_queue_frame]
  rw [← hldst] at hin
  have hevent : ∀ e, e ∈ (tlbHit cfg g sid a).history → e.translates = true :=
    fun e he => hw.events e (hg'.history he)
  unfold tlbHit at hevent ⊢
  generalize check_write_stage_queue cfg g (cfg.get_page_num a.addr) = k at *
  have hhit := hevent _ List.mem_cons_self
  have hvalid : is_valid k (cfg.get_page_num a.addr) = true := by
    rcases hcheck.entries sid _ hin with hserved | hvalid
    · simpa [Event.translates, hserved] using hhit
    · exact hvalid
  refine ⟨?_, Or.inl ?_, ?_⟩
  · simp [sentFromQueue, refresh_valid_pages, useTlbEntry, setLdst_self]
  · exact ((markPage_samePages cfg k.m_data a _).1).trans hvalid
  · intro hwrite
    change a.type = .GLOBAL_ACC_W at hwrite
    change (pageOf (markPage cfg k.m_data a) (cfg.get_page_num a.addr)).dirty = true
    simp [markPage, hwrite, set_page_dirty, pageOf_setPage]

/-- What a memory cycle sends behind its access cycle. -/
theorem memory_cycle_translates {g g' : Gpu} {sid : Nat} {p : Port} (hpages : FetchPages cfg g)
    (hlocals : LocalsApart cfg g) (hnew : RepliesAreNew g sid)
    (hwalked : ∀ r ∈ g.replayed, r.1 ∈ g.walked) (hgoes : (access_cycle cfg g sid).2 = true)
    (hw : Watched Event.translates g')
    (hg' : Grows (memory_cycle cfg (access_cycle cfg g sid).1 sid p).1 g') :
    ∀ s ∈ (memory_cycle cfg (access_cycle cfg g sid).1 sid p).1.sends,
      s ∈ g.sends ∨ (s.managed = true → s.Translated) := by
  have haccess := hpages.access_cycle sid
  have hreplies : RepliesAreNew (access_cycle cfg g sid).1 sid := hnew.access_cycle
  have hkept : (access_cycle cfg g sid).1.sends = g.sends ∧
      (access_cycle cfg g sid).1.replayed = g.replayed ∧
      (access_cycle cfg g sid).1.walked = g.walked := by
    rw [access_cycle_frame]
    exact ⟨rfl, rfl, rfl⟩
  have hmemory := memory_cycle_grows cfg (access_cycle cfg g sid).1 sid p
  have hcase := memory_cycle_cases cfg (access_cycle cfg g sid).1 sid p
  generalize memory_cycle cfg (access_cycle cfg g sid).1 sid p = t at hcase hg' hmemory ⊢
  cases hcase with
  | waits =>
    intro s hs
    rw [hkept.1] at hs
    exact Or.inl hs
  | @replies mf rest _ hreply =>
    intro s hs
    have hin : mf ∈ ((access_cycle cfg g sid).1.ldst sid).m_gmmu_cu_queue := by
      rw [hreply]
      exact List.mem_cons_self
    unfold takeReply refresh_valid_pages at hs
    rw [releaseIf_frame] at hs
    rcases List.mem_cons.mp hs with rfl | hs
    · right
      intro _
      refine ⟨?_, ?_, ?_⟩
      · obtain ⟨_, ⟨c, hback⟩, _⟩ := hreplies mf hin
        rw [hkept.2.1] at hback
        simpa [sentFromReply, hkept.2.2] using hwalked _ hback
      · rcases hreplies.valid haccess hin with hdma | hvalid
        · exact Or.inr (by simpa [sentFromReply] using hdma)
        · exact Or.inl hvalid
      · intro hwrite
        change mf.access.type = .GLOBAL_ACC_W at hwrite
        simp [sentFromReply, markPage, hwrite, set_page_dirty, pageOf_setPage]
    · rw [hkept.1] at hs
      exact Or.inl hs
  | @drains w hw' hq =>
    intro s hs
    have hevents : ∀ a ∈ sentAccesses cfg w p,
        (Event.left_queue (sentFromQueue cfg (access_cycle cfg g sid).1 sid a)
          (decide (w.accessq.head? ≠ some a))).translates = true := by
      intro a ha
      apply hw.events
      apply hg'.history
      refine (releaseIf_grows cfg _ _).history (List.mem_append_left _ ?_)
      rw [List.mem_reverse, List.mem_flatMap]
      exact ⟨a, ha, List.mem_cons_self⟩
    unfold drainQueue at hs
    rw [releaseIf_frame] at hs
    rcases List.mem_append.mp hs with hs | hs
    · obtain ⟨a, ha, rfl⟩ := List.mem_map.mp hs
      right
      intro hmanaged
      have hfront := hevents a ha
      simp only [Event.translates, hmanaged, Bool.not_true, Bool.false_or, Bool.not_eq_true',
        decide_eq_false_iff_not, not_not] at hfront
      -- the access in front is the one that the access cycle looked at
      have hcycle := access_cycle_cases cfg g sid
      generalize access_cycle cfg g sid = k at *
      cases hcycle with
      | idle hidle => exact absurd (hidle w hw') hq
      | @passes w0 a0 rest hw0 hq0 hpass =>
        have hsame : w0 = w := by
          rw [← Option.some_inj, ← hw0, ← hw']
          rfl
        subst hsame
        rw [hq0, List.head?_cons, Option.some_inj] at hfront
        subst hfront
        have hm : isManaged cfg g a0 = true := by
          have hsame := (meetAccesses_samePages cfg g sid a0 rest).is_page_managed cfg
            a0.addr a0.size
          exact hsame.symm.trans hmanaged
        exact absurd ⟨hm, hlocals.isGlobal hw0 (by rw [hq0]; exact List.mem_cons_self) hm⟩ hpass
      | @hits w0 a0 rest hw0 hq0 hm hglobal hin =>
        have hnoted : FetchPages cfg (noteAccess cfg (meetAccesses cfg g sid a0 rest) a0 rest) := by
          refine hpages.same rfl rfl rfl rfl rfl rfl (fun p hp => ?_) fun _ => rfl
          exact ((meetAccesses_samePages cfg g sid a0 rest).is_valid p).trans hp
        have hreg : (((tlbHit cfg (noteAccess cfg (meetAccesses cfg g sid a0 rest) a0 rest) sid
            a0)).ldst sid).m_dispatch_reg = (g.ldst sid).m_dispatch_reg :=
          tlbHit_unit cfg Ldst.m_dispatch_reg (fun _ _ _ => rfl)
            (noteAccess cfg (meetAccesses cfg g sid a0 rest) a0 rest) sid a0 sid
        have hsame : w0 = w := by
          rw [← Option.some_inj, ← hw0, ← hw', hreg]
        subst hsame
        rw [hq0, List.head?_cons, Option.some_inj] at hfront
        subst hfront
        exact tlbHit_translates hnoted hin hw (hmemory.trans hg')
      | @misses w0 a0 rest hw0 hq0 hm hglobal hout =>
        -- the unit goes on only behind the last access
        have hrest : rest = [] := of_decide_eq_true hgoes
        have hreg : w = { w0 with accessq := rest } := by
          simpa [tlbMiss, setLdst_self] using hw'.symm
        rw [hreg] at hq
        exact absurd hrest hq
    · rw [show (access_cycle cfg g sid).1.sends = g.sends from hkept.1] at hs
      exact Or.inl hs

/-- Only a cycle of a unit sends accesses down. -/
theorem perform_sends (g : Gpu) (a : Action) (ha : ∀ sid p, a ≠ .ldst_cycle sid p) :
    (perform cfg g a).sends = g.sends := by
  cases a with
  | ldst_cycle sid p => exact absurd rfl (ha sid p)
  | gmmu_cycle => exact (gmmu_cycle_sparesUnits cfg g).sends
  | icnt_cycle c =>
    simp only [perform]
    rw [icnt_cycle_frame]
  | answer sid k how =>
    simp only [perform]
    rw [answer_frame]
  | cudaSetupArgument p =>
    simp only [perform]
    rw [cudaSetupArgument_frame]
  | cudaMemPrefetchAsync p n s =>
    simp only [perform]
    rw [cudaMemPrefetchAsync_frame]
  | cudaMallocManaged _ _ | cudaMalloc _ | host_write _ _ | activate_prefetch _ _ _
  | log_kernel_start _ | log_kernel_finish _ | cudaDeviceSynchronize | issue _ _ _
  | dispatch _ _ | do_atomic _ _ _ | tick => rfl

/-- A fetch that was pushed back was taken from a cluster before. -/
theorem replayed_walked {g : Gpu} (hr : Reachable cfg g) : ∀ r ∈ g.replayed, r.1 ∈ g.walked := by
  intro r hin
  have hcount := count_walked cfg hr r.1
  have hpos : 0 < (replayedFetches g).count r.1 := by
    rw [Multiset.count_pos]
    exact List.mem_map.mpr ⟨r, hin, rfl⟩
  by_contra hnot
  rw [if_neg hnot] at hcount
  omega

theorem ldst_cycle_translates {g : Gpu} (hr : Reachable cfg g) (hpages : FetchPages cfg g)
    (sid : Nat) (p : Port) (hw : Watched Event.translates (ldst_cycle cfg g sid p)) :
    ∀ s ∈ (ldst_cycle cfg g sid p).sends, s ∈ g.sends ∨ (s.managed = true → s.Translated) := by
  have hold : ∀ s ∈ (access_cycle cfg g sid).1.sends, s ∈ g.sends := by
    intro s hs
    rw [access_cycle_frame] at hs
    exact hs
  have hmemory : ∀ g', (access_cycle cfg g sid).2 = true → Watched Event.translates g' →
      Grows (memory_cycle cfg (access_cycle cfg g sid).1 sid p).1 g' →
      ∀ s ∈ (memory_cycle cfg (access_cycle cfg g sid).1 sid p).1.sends,
        s ∈ g.sends ∨ (s.managed = true → s.Translated) :=
    fun g' hgoes hw hg' => memory_cycle_translates hpages (localsApart hr) (repliesAreNew hr sid)
      (replayed_walked hr) hgoes hw hg'
  simp only [ldst_cycle] at hw ⊢
  split
  · rename_i hgoes
    rw [if_pos hgoes] at hw
    split
    · rename_i hdone
      rw [if_pos hdone] at hw
      exact hmemory _ hgoes hw (retire_grows _ sid)
    · rename_i hmore
      rw [if_neg hmore] at hw
      exact hmemory _ hgoes hw (Grows.refl _)
  · exact fun s hs => Or.inl (hold s hs)

/-- In every run in which accesses of managed pages leave their queue from the
front, no access hits an entry that a direct access made for a page on the host,
and no page leaves with a reply for it on its way, each access of a managed page
that went down was translated, found its page resident or was served by DMA,
and had marked its page if it is a store. -/
theorem every_managed_access_is_translated {g : Gpu} (hr : Reachable cfg g)
    (hg : g.history.all Event.translates = true) :
    ∀ s ∈ g.sends, s.managed = true → s.Translated := by
  refine invariant_of_reachable_steps cfg (fun g => ∀ s ∈ g.sends, s.managed = true → s.Translated)
    ?_ ?_ hr hg
  · intro s hs
    cases hs
  · intro g a hr _
    refine (perform_grows cfg g a).follows fun h hw => ?_
    have hbefore := hw.before (perform_grows cfg g a)
    have hpages := fetchPages translates_quietly hr (List.all_eq_true.mpr hbefore.events)
    by_cases ha : ∃ sid p, a = .ldst_cycle sid p
    · obtain ⟨sid, p, rfl⟩ := ha
      intro s hs
      rcases ldst_cycle_translates hr hpages sid p hw s hs with hs | hs
      · exact h s hs
      · exact hs
    · rw [perform_sends g a fun sid p heq => ha ⟨sid, p, heq⟩]
      exact h

/-- A page is loaded, and then stored to through its TLB entry. -/
def loadThenStore : List Action :=
  loadedPage ++ [.issue 0 ⟨storeInfo, [pageAccess 0 .GLOBAL_ACC_W 2]⟩ [], .dispatch 0 0,
    .ldst_cycle 0 ⟨1, false, true⟩]

theorem every_managed_access_is_translated_behind_a_load_and_a_store :
    ((stateAfter smallConfig loadThenStore).sends.map fun s => (s.access.uid, s.managed)) =
        [(2, true), (1, true)] ∧
      ∀ s ∈ (stateAfter smallConfig loadThenStore).sends, s.managed = true → s.Translated :=
  ⟨by decide +kernel,
    every_managed_access_is_translated (reachable_stateAfter smallConfig loadThenStore)
      (by decide +kernel)⟩

/-- An L1 with two banks. -/
def twoBanks : Config := { smallConfig with gmem_skip_L1D := false, l1_banks := 2 }

/-- A page is loaded, and then a warp loads it again with a second one. -/
def loadOfTwoPages : List Action :=
  loadedPage ++
    [.issue 0 ⟨loadInfo, [pageAccess 0 .GLOBAL_ACC_R 2, pageAccess 1 .GLOBAL_ACC_R 3]⟩ [],
      .dispatch 0 0, .ldst_cycle 0 ⟨2, false, false⟩]

/-- The access behind the front goes to the second bank without a look at its
page, which is still on the host. -/
theorem an_access_bypasses_translation :
    ¬ ∀ (cfg : Config) (g : Gpu), Reachable cfg g →
      ∀ s ∈ g.sends, s.managed = true → s.translated = true := by
  intro h
  have hrun := h twoBanks _ (reachable_stateAfter twoBanks loadOfTwoPages)
  revert hrun
  decide +kernel

end gpgpu_sim_uvm
