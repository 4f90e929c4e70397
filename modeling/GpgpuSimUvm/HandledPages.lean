-- The pages that the GMMU handles. Every page that is a candidate for eviction, that is on
-- its way to the GPU or back, or that a core or a prefetch request asks for is managed.
import GpgpuSimUvm.ManagedPages
import GpgpuSimUvm.Migrations

namespace gpgpu_sim_uvm

open monitor

variable {cfg : Config}

/-! ## The pages that the GMMU handles -/

/-- A core asked for the translation, and the GMMU has it or will get it. -/
def Asked (g : Gpu) (mf : MemFetch) : Prop :=
  mf ∈ g.walked ∨ (∃ c, mf ∈ g.m_cu_gmmu_queue c) ∨ (∃ s, mf ∈ (g.ldst s).m_cu_gmmu_queue) ∨
    mf ∈ g.page_table_walk_queue.map Prod.fst

variable (cfg) in
/-- A prefetch request is at a page of its range or behind it, and all pages of the range are
among `M`. -/
structure RequestOn (M : Nat → Prop) (q : PrefetchReq) : Prop where
  start : cfg.page_size ∣ q.start_addr
  size : cfg.page_size ∣ q.size
  cur : cfg.page_size ∣ q.cur_addr
  begun : q.start_addr ≤ q.cur_addr
  within : q.cur_addr ≤ q.start_addr + q.size
  pages : ∀ a, q.start_addr ≤ a → a < q.start_addr + q.size → M (cfg.get_page_num a)

theorem EntryOn.mono {g g' : Gpu} {e : EvictionT} (h : EntryOn cfg g e)
    (hmanaged : ∀ p, Managed g p → Managed g' p)
    (hcovers : ∀ a, Forest.covers g.large_page_info a → Forest.covers g'.large_page_info a) :
    EntryOn cfg g' e :=
  ⟨hcovers _ h.home, h.size_pos, h.whole, fun k hk => hmanaged _ (h.pages k hk)⟩

theorem RequestOn.mono {M M' : Nat → Prop} {q : PrefetchReq} (h : RequestOn cfg M q)
    (hM : ∀ p, M p → M' p) : RequestOn cfg M' q :=
  ⟨h.start, h.size, h.cur, h.begun, h.within, fun a hlow hhigh => hM _ (h.pages a hlow hhigh)⟩

variable (cfg) in
/-- Every page that the GMMU handles is managed, and every address that a core asks for lies
in a tree. -/
structure Handles (g : Gpu) : Prop extends Ground cfg g where
  entries : ∀ e ∈ g.valid_pages, EntryOn cfg g e
  reads : ∀ p ∈ queuedPages g, Managed g p
  writes : ∀ t ∈ g.pcie_write_stage_queue, ∀ p ∈ t.page_list, Managed g p
  requests : ∀ q ∈ g.prefetch_req_buffer, RequestOn cfg (Managed g) q
  faults : ∀ p ∈ g.page_fault_this_turn.keys, Managed g p
  fetches : ∀ mf, Asked g mf → Forest.covers g.large_page_info mf.access.addr

namespace Handles

variable {g g' : Gpu}

/-- A step that makes no page managed. -/
theorem next (h : Handles cfg g) (hsame : SameGround g g')
    (hentries : ∀ e ∈ g'.valid_pages, EntryOn cfg g e)
    (hreads : ∀ p ∈ queuedPages g', Managed g p)
    (hwrites : ∀ t ∈ g'.pcie_write_stage_queue, ∀ p ∈ t.page_list, Managed g p)
    (hrequests : ∀ q ∈ g'.prefetch_req_buffer, RequestOn cfg (Managed g) q)
    (hfaults : ∀ p ∈ g'.page_fault_this_turn.keys, Managed g p)
    (hfetches : ∀ mf, Asked g' mf → Forest.covers g.large_page_info mf.access.addr) :
    Handles cfg g' := by
  refine ⟨h.toGround.same hsame, ?_, ?_, ?_, ?_, ?_, ?_⟩
  · exact fun e he => (hentries e he).mono (fun p => (hsame.managed_iff p).mpr)
      fun a => (hsame.covers_iff a).mpr
  · exact fun p hp => (hsame.managed_iff p).mpr (hreads p hp)
  · exact fun t ht p hp => (hsame.managed_iff p).mpr (hwrites t ht p hp)
  · exact fun q hq => (hrequests q hq).mono fun p => (hsame.managed_iff p).mpr
  · exact fun p hp => (hsame.managed_iff p).mpr (hfaults p hp)
  · exact fun mf hmf => (hsame.covers_iff _).mpr (hfetches mf hmf)

end Handles

/-! ## Functions that leave the ground as it is -/

theorem updateBlock_sameGround (g : Gpu) (a s : Nat) (p : Bool) :
    SameGround g (updateBlock g a s p) :=
  ⟨Forest.shapes_modifyTree (fun t => LpTree.shape_update_basic_block t a s p) a _,
    fun _ => rfl, rfl, rfl⟩

variable (cfg)

theorem reclaimPage_sameGround (g : Gpu) (p : Nat) : SameGround g (reclaimPage cfg g p) := by
  have hmark : SameGround g (markReclaimed g p) :=
    ⟨rfl, fun q => (markReclaimed_samePages g p q).2, rfl, rfl⟩
  have hblock := updateBlock_sameGround (markReclaimed g p) (cfg.get_mem_addr p) cfg.page_size true
  exact hmark.trans (hblock.trans ⟨rfl, fun _ => rfl, rfl, rfl⟩)

theorem check_write_stage_queue_sameGround (g : Gpu) (p : Nat) :
    SameGround g (check_write_stage_queue cfg g p) := by
  unfold check_write_stage_queue
  split
  · exact SameGround.refl g
  · rename_i t _
    exact (SameGround.foldl (reclaimPage_sameGround cfg) t.page_list g).trans
      ⟨rfl, fun _ => rfl, rfl, rfl⟩

theorem chooseVictims_shapes (g : Gpu) (vp : List EvictionT) :
    Forest.shapes (chooseVictims cfg g vp).trees = Forest.shapes g.large_page_info := by
  have hpage : ∀ es, Forest.shapes (evictPage cfg g es).trees = Forest.shapes g.large_page_info := by
    intro es
    unfold evictPage
    split
    · rfl
    · rfl
    · exact (updateBlock_sameGround g _ _ _).shapes
  simp only [chooseVictims]
  split_ifs
  · exact hpage _
  · unfold evictTree
    split
    · rfl
    · rfl
    · exact Forest.shapes_modifyTree LpTree.shape_evict_whole_tree _ _
  · rfl
  · exact hpage _
  · unfold evictBlock
    split
    · rfl
    · rfl
    · exact (updateBlock_sameGround g _ _ _).shapes
  · unfold evictBlocksOfTree
    split
    · rfl
    · rfl
    · exact (Forest.shapes_modifyTree
        (fun t => LpTree.shape_traverse_and_remove_lp_tree _ t _) _ _).trans
          (updateBlock_sameGround g _ _ _).shapes

theorem page_eviction_procedure_sameGround (g : Gpu) :
    SameGround g (page_eviction_procedure cfg g) := by
  have htake : SameGround g (takeVictims g (sort_valid_pages g)
      (chooseVictims cfg g (sort_valid_pages g))) :=
    ⟨chooseVictims_shapes cfg g _, fun _ => rfl, rfl, rfl⟩
  have hstage : ∀ k r, SameGround k (stageEviction cfg k r) :=
    fun k r => ⟨rfl, fun _ => rfl, rfl, rfl⟩
  exact htake.trans (SameGround.foldl hstage _ _)

theorem completePage_sameGround (g : Gpu) (p : Nat) : SameGround g (completePage cfg g p) := by
  have hmanaged : ∀ q, (pageOf (completePage cfg g p).m_data q).managed =
      (pageOf g.m_data q).managed := by
    intro q
    rw [completePage_m_data, pageOf_validate_page]
    split_ifs with hq
    · rw [hq]
    · rfl
  rw [completePage_frame] at hmanaged ⊢
  exact ⟨rfl, hmanaged, rfl, rfl⟩

theorem drawIfRandom_sameGround (g : Gpu) (temp : List Nat) (p : Nat) :
    SameGround g (drawIfRandom cfg g temp p).1 := by
  unfold drawIfRandom
  split
  · rename_i t _ _
    have hcall : ∀ q, SameGround g (callRand cfg g t q) := fun q => ⟨rfl, fun _ => rfl, rfl, rfl⟩
    simp only [drawRandom]
    split
    · have hlog : ∀ k e, SameGround k (k.log e) := fun _ _ => ⟨rfl, fun _ => rfl, rfl, rfl⟩
      exact ((hcall _).trans (hlog _ _)).trans (updateBlock_sameGround _ _ _ _)
    · exact hcall _
  · exact SameGround.refl g

/-! ## Candidates and cancelled evictions -/

/-- The invariant over one step. -/
abbrev HandlesFollow (g g' : Gpu) : Prop := monitor.Follows (Watched anyEvent) (Handles cfg) g g'

variable {cfg}

namespace Handles

variable {g : Gpu}

theorem refresh_valid_pages (h : Handles cfg g) {a : Nat}
    (hhome : Forest.covers g.large_page_info a) : Handles cfg (refresh_valid_pages cfg g a) := by
  have hsame : SameGround g (gpgpu_sim_uvm.refresh_valid_pages cfg g a) :=
    ⟨rfl, fun _ => rfl, rfl, rfl⟩
  apply h.next hsame _ h.reads h.writes h.requests h.faults h.fetches
  intro f hf
  simp only [gpgpu_sim_uvm.refresh_valid_pages] at hf
  split_ifs at hf
  · obtain ⟨e, he, haddr, hsize⟩ := mem_touchEntry hf
    exact (h.entries e he).same haddr hsize
  · rcases List.mem_append.mp hf with hf | hf
    · exact h.entries f hf
    · rw [List.mem_singleton.mp hf]
      exact h.toGround.newEntry hhome

theorem reclaimPage (h : Handles cfg g) {p : Nat} (hpage : Managed g p) :
    Handles cfg (reclaimPage cfg g p) := by
  have hmark : SameGround g (markReclaimed g p) :=
    ⟨rfl, fun q => (markReclaimed_samePages g p q).2, rfl, rfl⟩
  have h1 : Handles cfg (markReclaimed g p) :=
    h.next hmark h.entries h.reads h.writes h.requests h.faults h.fetches
  have hblock := updateBlock_sameGround (markReclaimed g p) (cfg.get_mem_addr p) cfg.page_size true
  have h2 := h1.next hblock h1.entries h1.reads h1.writes h1.requests h1.faults h1.fetches
  apply h2.refresh_valid_pages
  exact ((hmark.trans hblock).covers_iff _).mpr (h.housed p hpage)

end Handles

variable (cfg)

theorem Handles.reclaimPages {ps : List Nat} {g : Gpu} (h : Handles cfg g)
    (hpages : ∀ p ∈ ps, Managed g p) :
    Handles cfg (ps.foldl (gpgpu_sim_uvm.reclaimPage cfg) g) := by
  induction ps generalizing g with
  | nil => exact h
  | cons p ps ih =>
    obtain ⟨hp, hrest⟩ := List.forall_mem_cons.mp hpages
    have hsame := reclaimPage_sameGround cfg g p
    exact ih (h.reclaimPage hp) fun q hq => (hsame.managed_iff q).mpr (hrest q hq)

theorem Handles.check_write_stage_queue {g : Gpu} (h : Handles cfg g) (p : Nat) :
    Handles cfg (check_write_stage_queue cfg g p) := by
  unfold gpgpu_sim_uvm.check_write_stage_queue
  split
  · exact h
  · rename_i t hfind
    have hall := h.reclaimPages cfg (h.writes t (List.mem_of_find?_eq_some hfind))
    have hsame := SameGround.foldl (reclaimPage_sameGround cfg) t.page_list g
    refine hall.next ⟨rfl, fun _ => rfl, rfl, rfl⟩ hall.entries hall.reads ?_ hall.requests
      hall.faults hall.fetches
    intro u hu q hq
    exact (hsame.managed_iff q).mpr (h.writes u (List.mem_of_mem_eraseP hu) q hq)

/-! ## Evictions -/

variable {cfg}

theorem mem_of_firstEvictable {test : EvictionT → Option Bool} {es : List EvictionT}
    {e : EvictionT} (h : firstEvictable test es = some (some e)) : e ∈ es := by
  induction es with
  | nil => cases h
  | cons f es ih =>
    rw [firstEvictable] at h
    obtain ⟨ok, -, hrest⟩ := Option.bind_eq_some_iff.mp h
    split_ifs at hrest
    · cases hrest
      exact List.mem_cons_self
    · exact List.mem_cons_of_mem _ (ih hrest)

/-- An entry whose block was tested has a tree. -/
theorem tree_of_firstEvictableBlock {g : Gpu} {es : List EvictionT} {e : EvictionT}
    (h : firstEvictableBlock cfg g es = some (some e)) :
    ∃ t, Forest.get_lp_node g.large_page_info e.addr = some t := by
  rw [firstEvictableBlock] at h
  induction es with
  | nil => cases h
  | cons f es ih =>
    rw [firstEvictable] at h
    obtain ⟨ok, htest, hrest⟩ := Option.bind_eq_some_iff.mp h
    split_ifs at hrest
    · cases hrest
      split_ifs at htest with htree
      rw [Option.isNone_iff_eq_none] at htree
      exact Option.ne_none_iff_exists'.mp htree
    · exact ih hrest

section

variable {g : Gpu} (h : Ground cfg g)
include h

/-- The pages of an eviction of a range of the trees. -/
theorem Ground.evictionPages {r : Nat × Nat} (hpos : 0 < r.2)
    (hin : ∀ x, r.1 ≤ x → x < r.1 + r.2 → Forest.covers g.large_page_info x) :
    ∀ p ∈ evictionPages cfg r, Managed g p := by
  intro p hp
  rw [gpgpu_sim_uvm.evictionPages] at hp
  split_ifs at hp
  · rw [List.mem_singleton.mp hp]
    apply h.backed
    apply hin <;> omega
  · obtain ⟨hlow, hhigh⟩ := List.mem_range'_1.mp hp
    have hk : p = cfg.get_page_num r.1 + (p - cfg.get_page_num r.1) := by omega
    have hlt : (p - cfg.get_page_num r.1) * cfg.page_size < r.2 := by
      have hstep : p - cfg.get_page_num r.1 < r.2 / cfg.page_size := by omega
      have hle := Nat.mul_le_mul_right cfg.page_size (Nat.succ_le_of_lt hstep)
      have hdiv := Nat.div_mul_le_self r.2 cfg.page_size
      have hpage := cfg.page_size_pos
      rw [Nat.succ_mul] at hle
      omega
    rw [hk, ← page_add_mul]
    apply h.backed
    apply hin <;> omega

omit h in
theorem evictionPages_page {e : EvictionT} (he : EntryOn cfg g e) :
    ∀ p ∈ evictionPages cfg (e.addr, cfg.page_size), Managed g p := by
  have hfirst := he.pages 0 (by rw [Nat.zero_mul]; exact he.size_pos)
  intro p hp
  rw [gpgpu_sim_uvm.evictionPages] at hp
  split_ifs at hp
  · rw [List.mem_singleton.mp hp]
    exact hfirst
  · rw [Nat.div_self cfg.page_size_pos] at hp
    have hone := List.mem_range'_1.mp hp
    have hpage : p = cfg.get_page_num e.addr + 0 := by
      dsimp only at hone
      omega
    rw [hpage]
    exact hfirst

/-- The blocks that the tree eviction takes lie in the trees. -/
theorem Ground.removed_blocks_covered (a bb : Nat)
    (hbb : ∀ x, bb ≤ x ∧ x < bb + MIN_PREFETCH_SIZE → Forest.covers g.large_page_info x)
    (ev : Nat → Bool) (b : Nat)
    (hb : ((Forest.get_lp_node g.large_page_info a).elim (StdMap.empty.alter bb () id) fun t =>
      (t.traverse_and_remove_lp_tree ev (StdMap.empty.alter bb () id)).2).contains b = true) :
    ∀ x, b ≤ x ∧ x < b + MIN_PREFETCH_SIZE → Forest.covers g.large_page_info x := by
  have hstart : ∀ b, (StdMap.empty.alter bb () id : BlockSet).contains b = true →
      ∀ x, b ≤ x ∧ x < b + MIN_PREFETCH_SIZE → Forest.covers g.large_page_info x := by
    intro b hb
    apply leaf_added (d := ⟨bb, 0, 0, 0, 0⟩) hbb _ hb
    intro c hc
    cases hc
  cases ht : Forest.get_lp_node g.large_page_info a with
  | none =>
    rw [ht] at hb
    exact hstart b hb
  | some t =>
    rw [ht] at hb
    obtain ⟨hmem, htiled, -⟩ := h.tree_of_covers ht
    apply addsLeaves_traverse_and_remove ev t _ _ _ hstart b hb
    intro c hc x hx
    obtain ⟨d, hd, rfl⟩ := List.mem_map.mp hc
    have hwithin := htiled.leaf_within hd
    refine ⟨t, hmem, ?_⟩
    rw [LpTree.covers_iff]
    omega

theorem Ground.get_basic_block_covered {t : LpTree} {a : Nat}
    (ht : Forest.get_lp_node g.large_page_info a = some t) {x : Nat}
    (hx : Forest.get_basic_block g.large_page_info a ≤ x ∧
      x < Forest.get_basic_block g.large_page_info a + MIN_PREFETCH_SIZE) :
    Forest.covers g.large_page_info x := by
  simp only [Forest.get_basic_block, ht, Option.elim_some] at hx
  exact h.block_covered ht hx.1 hx.2

/-- Every victim lies on managed pages. -/
theorem Ground.chooseVictims {vp : List EvictionT} (hvp : ∀ e ∈ vp, EntryOn cfg g e)
    (hruns : (chooseVictims cfg g vp).abort = false) :
    ∀ r ∈ (chooseVictims cfg g vp).evicted_pages, ∀ p ∈ gpgpu_sim_uvm.evictionPages cfg r,
      Managed g p := by
  have hpages : ∀ es, (∀ e ∈ es, e ∈ vp) → ∀ r ∈ (evictPage cfg g es).evicted_pages,
      ∀ p ∈ gpgpu_sim_uvm.evictionPages cfg r, Managed g p := by
    intro es hes r hr
    unfold evictPage at hr
    split at hr
    · cases hr
    · cases hr
    · rename_i e hfound
      rw [List.mem_singleton.mp hr]
      exact evictionPages_page (hvp e (hes e (mem_of_firstEvictable hfound)))
  have hdrop : ∀ n, ∀ e ∈ vp.drop n, e ∈ vp := fun n e he => List.mem_of_mem_drop he
  revert hruns
  simp only [gpgpu_sim_uvm.chooseVictims]
  split_ifs
  · exact fun _ => hpages _ (hdrop _)
  · unfold evictTree
    split
    · intro hruns
      cases hruns
    · exact fun _ r hr => absurd hr List.not_mem_nil
    · rename_i e hfound
      intro hruns r hr
      have hsome : (Forest.get_lp_node g.large_page_info e.addr).isSome = true := by
        simpa using hruns
      obtain ⟨t, ht⟩ := Option.isSome_iff_exists.mp hsome
      obtain ⟨hmem, htiled, -⟩ := h.tree_of_covers ht
      rw [List.mem_singleton.mp hr]
      simp only [Forest.rootAddr, Forest.rootSize, ht, Option.elim_some]
      apply h.evictionPages htiled.size_pos
      exact fun x hlow hhigh => ⟨t, hmem, (LpTree.covers_iff t x).mpr ⟨hlow, hhigh⟩⟩
  · intro hruns
    cases hruns
  · intro _
    apply hpages
    intro e he
    exact hdrop _ e (List.mem_of_mem_drop he)
  · unfold evictBlock firstEvictableBlock
    split
    · intro hruns
      cases hruns
    · exact fun _ r hr => absurd hr List.not_mem_nil
    · rename_i e hfound
      intro _ r hr
      obtain ⟨t, ht⟩ := tree_of_firstEvictableBlock hfound
      have hpos : 0 < MIN_PREFETCH_SIZE := by decide
      rw [List.mem_singleton.mp hr]
      apply h.evictionPages hpos
      exact fun x hlow hhigh => h.get_basic_block_covered ht ⟨hlow, hhigh⟩
  · unfold evictBlocksOfTree
    split
    · intro hruns
      cases hruns
    · exact fun _ r hr => absurd hr List.not_mem_nil
    · rename_i e hfound
      intro _ r hr
      obtain ⟨t, ht⟩ := tree_of_firstEvictableBlock hfound
      apply h.evictionPages (groupBlocks_pos hr)
      intro x hlow hhigh
      obtain ⟨b, hb, hin⟩ := groupBlocks_within hr hlow hhigh
      have hground := updateBlock_sameGround g e.addr MIN_PREFETCH_SIZE false
      apply (hground.covers_iff x).mp
      rw [StdMap.mem_keys] at hb
      exact (h.same hground).removed_blocks_covered e.addr (Forest.get_basic_block g.large_page_info e.addr)
        (fun y hy => (hground.covers_iff y).mpr (h.get_basic_block_covered ht hy)) _ b hb x hin

end

theorem Handles.stageEviction {g : Gpu} (h : Handles cfg g) {r : Nat × Nat}
    (hr : ∀ p ∈ evictionPages cfg r, Managed g p) : Handles cfg (stageEviction cfg g r) := by
  refine h.next ⟨rfl, fun _ => rfl, rfl, rfl⟩ ?_ h.reads ?_ h.requests h.faults h.fetches
  · have herase : ∀ (ps : List Nat) (vp : List EvictionT),
        ps.foldl (valid_pages_erase cfg) vp ⊆ vp := by
      intro ps
      induction ps with
      | nil => exact fun _ => List.Subset.refl _
      | cons p ps ih => exact fun vp => List.Subset.trans (ih _) (List.eraseP_subset)
    intro e he
    exact h.entries e (herase _ _ he)
  · intro t ht
    rcases List.mem_append.mp ht with ht | ht
    · exact h.writes t ht
    · rw [List.mem_singleton.mp ht]
      exact hr

variable (cfg)

theorem stageEvictions_follow (rs : List (Nat × Nat)) (g : Gpu) :
    monitor.Follows (Watched anyEvent)
      (fun k => Handles cfg k ∧ ∀ r ∈ rs, ∀ p ∈ evictionPages cfg r, Managed k p) g
      (rs.foldl (stageEviction cfg) g) := by
  apply monitor.Follows.foldl
  intro r hr k
  apply (stageEviction_grows cfg k r).follows
  rintro ⟨hk, hall⟩ -
  exact ⟨hk.stageEviction (hall r hr), hall⟩

theorem page_eviction_procedure_handlesFollow (g : Gpu) :
    HandlesFollow cfg g (page_eviction_procedure cfg g) := by
  apply (page_eviction_procedure_grows cfg g).follows
  intro h hw
  have hvp : ∀ e ∈ sort_valid_pages g, EntryOn cfg g e := by
    intro e he
    obtain ⟨f, hf, haddr, hsize⟩ := mem_sort_valid_pages he
    exact (h.entries f hf).same haddr hsize
  have htake : SameGround g (takeVictims g (sort_valid_pages g)
      (chooseVictims cfg g (sort_valid_pages g))) :=
    ⟨chooseVictims_shapes cfg g _, fun _ => rfl, rfl, rfl⟩
  have hruns : (takeVictims g (sort_valid_pages g)
      (chooseVictims cfg g (sort_valid_pages g))).aborted = false :=
    (hw.before (Grows.foldl (stageEviction_grows cfg) _ _)).runs
  have habort : (chooseVictims cfg g (sort_valid_pages g)).abort = false := by
    simp only [takeVictims, Bool.or_eq_false_iff] at hruns
    exact hruns.2
  have hpages := h.toGround.chooseVictims hvp habort
  have htaken := h.next htake hvp h.reads h.writes h.requests h.faults h.fetches
  exact ((stageEvictions_follow cfg _ _).keeps ⟨htaken, hpages⟩ hw).1

theorem eviction_check_handlesFollow (g : Gpu) : HandlesFollow cfg g (eviction_check cfg g) := by
  simp only [eviction_check]
  split
  · refine monitor.Follows.trans ?_ (page_eviction_procedure_handlesFollow cfg _)
    refine ((detectPattern_grows cfg g).trans (log_grows _ _)).unnoticed fun h => ?_
    unfold detectPattern
    split
    · exact h.next ⟨rfl, fun _ => rfl, rfl, rfl⟩ h.entries h.reads h.writes h.requests h.faults
        h.fetches
    · exact h.next ⟨rfl, fun _ => rfl, rfl, rfl⟩ h.entries h.reads h.writes h.requests h.faults
        h.fetches
  · exact monitor.Follows.refl g

/-! ## Transfers -/

theorem write_back_schedule_handlesFollow (g : Gpu) :
    HandlesFollow cfg g (write_back_schedule cfg g) := by
  apply (write_back_schedule_grows cfg g).unnoticed
  intro h
  unfold write_back_schedule
  split
  · rename_i t rest hstage _
    refine h.next ⟨Forest.shapes_inc_bb_round_trip _ _, ?_, rfl, rfl⟩ h.entries h.reads ?_ h.requests
      h.faults h.fetches
    · intro p
      simp only [startWriteBack, pageOf_invalidate_pages]
      split <;> rfl
    · intro u hu
      apply h.writes u
      rw [hstage]
      exact List.mem_cons_of_mem _ hu
  · exact h

variable {cfg}

theorem requestOn_pending {M : Nat → Prop} {q q' : PrefetchReq} (h : RequestOn cfg M q)
    (hstart : q'.start_addr = q.start_addr) (hsize : q'.size = q.size)
    (hcur : q'.cur_addr = q.cur_addr) : RequestOn cfg M q' := by
  refine ⟨?_, ?_, ?_, ?_, ?_, ?_⟩
  · rw [hstart]
    exact h.start
  · rw [hsize]
    exact h.size
  · rw [hcur]
    exact h.cur
  · rw [hstart, hcur]
    exact h.begun
  · rw [hstart, hcur, hsize]
    exact h.within
  · rw [hstart, hsize]
    exact h.pages

/-- A completed page takes its prefetch request on. -/
theorem completePrefetched_requests {M : Nat → Prop} {g : Gpu}
    (h : ∀ q ∈ g.prefetch_req_buffer, RequestOn cfg M q) (p : Nat) :
    ∀ q ∈ (completePrefetched g p).prefetch_req_buffer, RequestOn cfg M q := by
  unfold completePrefetched
  split
  · exact h
  · rename_i q rest hbuffer
    split
    · intro x hx
      rcases List.mem_cons.mp hx with rfl | hx
      · have hq := h q (by rw [hbuffer]; exact List.mem_cons_self)
        exact requestOn_pending hq rfl rfl rfl
      · apply h x
        rw [hbuffer]
        exact List.mem_cons_of_mem _ hx
    · exact h

variable (cfg)

variable {cfg} in
theorem Handles.completePage {g : Gpu} (h : Handles cfg g) {p : Nat} (hp : Managed g p) :
    Handles cfg (completePage cfg g p) := by
  let fresh : Gpu := { g with
    m_data := validate_page g.m_data p
    stored_pages := g.stored_pages.filter fun q => decide (q ≠ p)
    aborted := g.aborted || !is_mapped g p }
  have hfresh : SameGround g fresh := by
    refine ⟨rfl, fun q => ?_, rfl, rfl⟩
    rw [pageOf_validate_page]
    split_ifs with hq
    · rw [hq]
    · rfl
  have h1 : Handles cfg fresh :=
    h.next hfresh h.entries h.reads h.writes h.requests h.faults h.fetches
  have h2 : Handles cfg (admitPage cfg g p) := by
    apply h1.refresh_valid_pages
    exact (hfresh.covers_iff _).mpr (h.housed p hp)
  have h3 : Handles cfg (completePrefetched (admitPage cfg g p) p) := by
    have hrequests := completePrefetched_requests h2.requests p
    rw [completePrefetched_frame] at hrequests ⊢
    exact h2.next ⟨rfl, fun _ => rfl, rfl, rfl⟩ h2.entries h2.reads h2.writes hrequests h2.faults
      h2.fetches
  unfold gpgpu_sim_uvm.completePage completeFaulted
  rw [replay_foldl_frame]
  exact h3.next ⟨rfl, fun _ => rfl, rfl, rfl⟩ h3.entries h3.reads h3.writes h3.requests h3.faults
    h3.fetches

variable {cfg} in
theorem Handles.completePages {ps : List Nat} {g : Gpu} (h : Handles cfg g)
    (hpages : ∀ p ∈ ps, Managed g p) :
    Handles cfg (ps.foldl (gpgpu_sim_uvm.completePage cfg) g) := by
  induction ps generalizing g with
  | nil => exact h
  | cons p ps ih =>
    obtain ⟨hp, hrest⟩ := List.forall_mem_cons.mp hpages
    have hsame := completePage_sameGround cfg g p
    exact ih (h.completePage hp) fun q hq => (hsame.managed_iff q).mpr (hrest q hq)

variable {cfg} in
theorem Handles.finishRead {g : Gpu} (h : Handles cfg g) {t : PcieLatency}
    (hlatency : g.pcie_read_latency_queue = some t) : Handles cfg (finishRead cfg g t) := by
  unfold gpgpu_sim_uvm.finishRead
  split
  · rename_i htype
    apply h.completePages
    intro p hp
    apply h.reads
    rw [queuedPages, hlatency, Option.toList_some, List.singleton_append, pagesQueued_cons,
      isMigration, htype]
    exact List.mem_append_left _ hp
  · cases t.mf with
    | none => exact h
    | some mf =>
      exact h.next ⟨rfl, fun _ => rfl, rfl, rfl⟩ h.entries h.reads h.writes h.requests h.faults
        h.fetches
  · exact h

theorem read_done_handlesFollow (g : Gpu) : HandlesFollow cfg g (read_done cfg g) := by
  apply (read_done_grows cfg g).unnoticed
  intro h
  unfold read_done
  split
  · exact h
  · rename_i t hlatency
    split
    · have hfinished := h.finishRead hlatency
      refine hfinished.next ⟨rfl, fun _ => rfl, rfl, rfl⟩ hfinished.entries ?_ hfinished.writes
        hfinished.requests hfinished.faults hfinished.fetches
      intro p hp
      apply hfinished.reads
      simp only [queuedPages, pagesQueued_append] at hp ⊢
      exact List.mem_append_right _ hp
    · exact h

theorem read_schedule_handlesFollow (g : Gpu) : HandlesFollow cfg g (read_schedule cfg g) := by
  apply (read_schedule_grows cfg g).unnoticed
  intro h
  have hqueued := queuedPages_read_schedule cfg g
  rw [read_schedule_frame] at hqueued ⊢
  refine h.next ⟨rfl, fun _ => rfl, rfl, rfl⟩ h.entries ?_ h.writes h.requests h.faults h.fetches
  rw [hqueued]
  exact h.reads

/-! ## Page table walks -/

variable {cfg}

theorem requestOn_parkFetch {M : Nat → Prop} {mf : MemFetch} {p : Nat} {qs : List PrefetchReq}
    (h : ∀ q ∈ qs, RequestOn cfg M q) : ∀ q ∈ parkFetch mf p qs, RequestOn cfg M q := by
  intro q hq
  rcases FetchPages.mem_parkFetch hq with hq | ⟨q', hq', rfl⟩
  · exact h q hq
  · exact requestOn_pending (h q' hq') rfl rfl rfl

theorem Handles.fileFetch {g : Gpu} (h : Handles cfg g) {mf : MemFetch} {p : Nat}
    (hp : Managed g p) : Handles cfg (fileFetch cfg g mf p) := by
  unfold gpgpu_sim_uvm.fileFetch
  split
  · exact h.next ⟨rfl, fun _ => rfl, rfl, rfl⟩ h.entries h.reads h.writes h.requests h.faults
      h.fetches
  · split
    · exact h.next ⟨rfl, fun _ => rfl, rfl, rfl⟩ h.entries h.reads h.writes
        (requestOn_parkFetch h.requests) h.faults h.fetches
    · unfold newFault
      refine h.next ⟨rfl, fun _ => rfl, rfl, rfl⟩ h.entries ?_ h.writes h.requests ?_ h.fetches
      · intro q hq
        apply h.reads
        dsimp only [queuedPages] at hq ⊢
        split_ifs at hq
        · exact hq
        · rw [← List.append_assoc, pagesQueued_dma] at hq
          exact hq
      · intro q hq
        dsimp only at hq
        split_ifs at hq
        · rw [StdMap.mem_keys, StdMap.contains_alter, Bool.or_eq_true, decide_eq_true_eq] at hq
          rcases hq with rfl | hq
          · exact hp
          · exact h.faults q ((StdMap.mem_keys _ _).mpr hq)
        · exact h.faults q hq

variable (cfg)

theorem walkFetch_sameGround (g : Gpu) (mf : MemFetch) : SameGround g (walkFetch cfg g mf) := by
  have hpop : SameGround g (popWalk cfg g mf) := ⟨rfl, fun _ => rfl, rfl, rfl⟩
  unfold walkFetch
  split
  · have hcheck := hpop.trans (check_write_stage_queue_sameGround cfg (popWalk cfg g mf)
      (cfg.get_page_num mf.access.addr))
    exact hcheck.trans ⟨rfl, fun _ => rfl, rfl, rfl⟩
  · rw [fileFetch_frame]
    exact hpop.trans ⟨rfl, fun _ => rfl, rfl, rfl⟩

theorem Handles.fetched_page {g : Gpu} (h : Handles cfg g) {mf : MemFetch} (hasked : Asked g mf) :
    Managed g (fetchPage cfg mf) :=
  h.backed _ (h.fetches mf hasked)

theorem Handles.walkFetch {g : Gpu} (h : Handles cfg g) {mf : MemFetch}
    (hpage : Managed g (fetchPage cfg mf)) : Handles cfg (walkFetch cfg g mf) := by
  have hpop : Handles cfg (popWalk cfg g mf) := by
    refine h.next ⟨rfl, fun _ => rfl, rfl, rfl⟩ h.entries h.reads h.writes h.requests h.faults ?_
    intro x hx
    apply h.fetches x
    rcases hx with hx | hx | hx | hx
    · exact Or.inl hx
    · exact Or.inr (Or.inl hx)
    · exact Or.inr (Or.inr (Or.inl hx))
    · refine Or.inr (Or.inr (Or.inr ?_))
      obtain ⟨e, he, rfl⟩ := List.mem_map.mp hx
      exact List.mem_map_of_mem (List.mem_of_mem_tail he)
  unfold gpgpu_sim_uvm.walkFetch
  split
  · have hchecked := hpop.check_write_stage_queue cfg (cfg.get_page_num mf.access.addr)
    exact hchecked.next ⟨rfl, fun _ => rfl, rfl, rfl⟩ hchecked.entries hchecked.reads hchecked.writes
      hchecked.requests hchecked.faults hchecked.fetches
  · rename_i page rest hfaulty
    apply hpop.fileFetch
    rw [← FetchPages.faulty_page hfaulty]
    exact hpage

theorem Handles.walkFetches {mfs : List MemFetch} {g : Gpu} (h : Handles cfg g)
    (hpages : ∀ mf ∈ mfs, Managed g (fetchPage cfg mf)) :
    Handles cfg (mfs.foldl (gpgpu_sim_uvm.walkFetch cfg) g) := by
  induction mfs generalizing g with
  | nil => exact h
  | cons mf mfs ih =>
    obtain ⟨hmf, hrest⟩ := List.forall_mem_cons.mp hpages
    have hsame := walkFetch_sameGround cfg g mf
    exact ih (h.walkFetch cfg hmf) fun x hx => (hsame.managed_iff _).mpr (hrest x hx)

theorem page_table_walk_handlesFollow (g : Gpu) : HandlesFollow cfg g (page_table_walk cfg g) := by
  apply (page_table_walk_grows cfg g).unnoticed
  intro h
  apply h.walkFetches
  intro mf hmf
  obtain ⟨e, he, rfl⟩ := List.mem_map.mp hmf
  apply h.fetched_page
  exact Or.inr (Or.inr (Or.inr (List.mem_map_of_mem (List.takeWhile_subset _ he))))

/-! ## The hardware prefetcher -/

variable {cfg}

/-- A page of a range has an address of the range. -/
theorem address_of_pagesOfRange {a n p : Nat} (hn : 0 < n) (hp : p ∈ pagesOfRange cfg a n) :
    ∃ x, a ≤ x ∧ x < a + n ∧ cfg.get_page_num x = p := by
  obtain ⟨hlow, hhigh⟩ := List.mem_range'_1.mp hp
  have hpage := cfg.page_size_pos
  have hlast : cfg.get_mem_addr p ≤ a + n - 1 := by
    have hle : p ≤ cfg.get_page_num (a + n - 1) := by omega
    exact (Nat.le_div_iff_mul_le hpage).mp hle
  by_cases hfirst : a ≤ cfg.get_mem_addr p
  · exact ⟨cfg.get_mem_addr p, hfirst, by omega, cfg.get_page_num_get_mem_addr p⟩
  · refine ⟨a, le_refl _, by omega, ?_⟩
    have hle : p ≤ cfg.get_page_num a :=
      (Nat.le_div_iff_mul_le hpage).mpr (Nat.le_of_lt (Nat.lt_of_not_le hfirst))
    exact Nat.le_antisymm hlow hle

/-- All addresses of a block lie in the trees. -/
def BlockCovered (g : Gpu) (b : Nat) : Prop :=
  ∀ x, b ≤ x ∧ x < b + MIN_PREFETCH_SIZE → Forest.covers g.large_page_info x

section

variable {g : Gpu} (h : Ground cfg g)
include h

theorem Ground.block_pages {b p : Nat} (hb : BlockCovered g b)
    (hp : p ∈ pagesOfRange cfg b MIN_PREFETCH_SIZE) : Managed g p := by
  have hpos : 0 < MIN_PREFETCH_SIZE := by decide
  obtain ⟨x, hlow, hhigh, rfl⟩ := address_of_pagesOfRange hpos hp
  exact h.backed x (hb x ⟨hlow, hhigh⟩)

/-- The drawn page lies in the tree it was drawn from. -/
theorem Ground.random_page {a : Nat} {t : LpTree}
    (ht : Forest.get_lp_node g.large_page_info a = some t) (hsize : t.size / cfg.page_size ≠ 0)
    (k : Gpu) : Managed g (cfg.get_page_num (random_addr cfg k t)) := by
  obtain ⟨hmem, -, -⟩ := h.tree_of_covers ht
  have hlt := Nat.mod_lt (cfg.rand k.rand_calls) (Nat.pos_of_ne_zero hsize)
  have hle := Nat.mul_le_mul_right cfg.page_size (Nat.succ_le_of_lt hlt)
  have hdiv := Nat.div_mul_le_self t.size cfg.page_size
  have hpage := cfg.page_size_pos
  rw [Nat.succ_mul] at hle
  apply h.backed
  refine ⟨t, hmem, ?_⟩
  rw [LpTree.covers_iff, random_addr]
  split_ifs <;> omega

end

/-- A loop that is not aborted keeps what each of its rounds keeps. -/
theorem foldl_runs {A B : Type} {f : Gpu × B → A → Gpu × B} {Inv : Gpu × B → Prop}
    (hgrows : ∀ s a, Grows s.1 (f s a).1) (as : List A)
    (hf : ∀ a ∈ as, ∀ s, Inv s → (f s a).1.aborted = false → Inv (f s a)) {s : Gpu × B} (hs : Inv s)
    (hruns : (as.foldl f s).1.aborted = false) : Inv (as.foldl f s) := by
  induction as generalizing s with
  | nil => exact hs
  | cons a as ih =>
    have hfirst : Watched anyEvent (f s a).1 :=
      Watched.before ⟨hruns, fun _ _ => rfl⟩ (Grows.foldl_fst hgrows as (f s a))
    apply ih (fun b hb => hf b (List.mem_cons_of_mem _ hb)) _ hruns
    exact hf a List.mem_cons_self s hs hfirst.runs

/-- The pages of a plan are managed, and the ground is as it was. -/
structure PlanOn (g : Gpu) (s : Gpu × Turn) : Prop where
  ground : SameGround g s.1
  pages : ∀ p ∈ planned s.2, Managed g p

theorem planned_append (turn : Turn) (temp : List Nat) (t : List Nat × List Nat) :
    planned { temp_req_info := temp, transfers := turn.transfers ++ [t] } = planned turn ++ t.1 := by
  simp [planned]

variable (cfg)

theorem planOn_prefetchOne {g : Gpu} (h : Ground cfg g) {s : Gpu × Turn} (hs : PlanOn g s) {p : Nat}
    (hp : Managed g p) (hruns : (prefetchOne cfg s p).1.aborted = false) :
    PlanOn g (prefetchOne cfg s p) := by
  have hblock := hs.ground.trans
    (updateBlock_sameGround s.1 (cfg.get_mem_addr p) cfg.page_size true)
  have hground := hblock.trans (drawIfRandom_sameGround cfg
    (updateBlock s.1 (cfg.get_mem_addr p) cfg.page_size true) (addPage s.2.temp_req_info p) p)
  refine ⟨hground, ?_⟩
  intro q hq
  simp only [prefetchOne] at hq hruns
  rw [planned_append] at hq
  rcases List.mem_append.mp hq with hq | hq
  · exact hs.pages q hq
  · rcases List.mem_cons.mp hq with rfl | hq
    · exact hp
    · -- the page that `RANDOM` drew
      revert hruns hq
      generalize updateBlock s.1 (cfg.get_mem_addr p) cfg.page_size true = k at hblock ⊢
      unfold drawIfRandom
      split
      · rename_i t _ htree
        simp only [drawRandom]
        split
        · intro hruns hq
          rw [List.mem_singleton.mp hq]
          have hsize : t.size / cfg.page_size ≠ 0 := by
            intro hzero
            simp [updateBlock, Gpu.log, callRand, hzero] at hruns
          have hpage := (h.same hblock).random_page htree hsize k
          exact (hblock.managed_iff _).mp hpage
        · exact fun _ hq => absurd hq List.not_mem_nil
      · exact fun _ hq => absurd hq List.not_mem_nil

/-- One fault of `scheduleFaults`. -/
def scheduleFault (s : Gpu × BlockSet) (a : Nat) : Gpu × BlockSet :=
  (updateBlock s.1 a MIN_PREFETCH_SIZE true,
    s.2.alter (Forest.get_basic_block s.1.large_page_info a) () id)

/-- The ground is as it was, and the blocks lie in the trees. -/
structure BlocksOn (g : Gpu) (s : Gpu × BlockSet) : Prop where
  ground : SameGround g s.1
  blocks : ∀ b, s.2.contains b = true → BlockCovered g b

variable {cfg} in
theorem blocksOn_scheduleFault {g : Gpu} (h : Ground cfg g) {s : Gpu × BlockSet}
    (hs : BlocksOn g s) {a : Nat} (hruns : (scheduleFault s a).1.aborted = false) :
    BlocksOn g (scheduleFault s a) := by
  refine ⟨hs.ground.trans (updateBlock_sameGround s.1 a MIN_PREFETCH_SIZE true), ?_⟩
  have hsome : (Forest.get_lp_node s.1.large_page_info a).isSome = true := by
    simp only [scheduleFault, updateBlock, Bool.or_eq_false_iff] at hruns
    simpa using hruns.2
  obtain ⟨t, ht⟩ := Option.isSome_iff_exists.mp hsome
  intro b hb
  apply leaf_added (d := ⟨Forest.get_basic_block s.1.large_page_info a, 0, 0, 0, 0⟩) _ hs.blocks hb
  intro x hx
  exact (hs.ground.covers_iff x).mp ((h.same hs.ground).get_basic_block_covered ht hx)

variable {cfg} in
theorem blocksOn_fillTree {g : Gpu} (h : Ground cfg g) {s : Gpu × BlockSet} (hs : BlocksOn g s)
    (root : Nat) : BlocksOn g (fillTree s.1 root s.2) := by
  refine ⟨hs.ground.trans ⟨?_, fun _ => rfl, rfl, rfl⟩, ?_⟩
  · simp only [fillTree]
    split_ifs
    · exact Forest.shapes_modifyTree (fun t => LpTree.shape_traverse_and_fill_lp_tree t _) _ _
    · rfl
  · intro b hb
    simp only [fillTree] at hb
    split_ifs at hb
    · cases ht : Forest.get_lp_node s.1.large_page_info root with
      | none =>
        rw [ht] at hb
        exact hs.blocks b hb
      | some t =>
        rw [ht] at hb
        obtain ⟨hmem, htiled, -⟩ := (h.same hs.ground).tree_of_covers ht
        apply addsLeaves_traverse_and_fill t _ _ _ hs.blocks b hb
        intro c hc x hx
        obtain ⟨d, hd, rfl⟩ := List.mem_map.mp hc
        have hwithin := htiled.leaf_within hd
        apply (hs.ground.covers_iff x).mp
        refine ⟨t, hmem, ?_⟩
        rw [LpTree.covers_iff]
        omega
    · exact hs.blocks b hb

/-- The pages that are collected from blocks of the trees. -/
theorem collected_pages {g : Gpu} (h : Ground cfg g) (bbs : List Nat)
    (hbbs : ∀ b ∈ bbs, BlockCovered g b) (s : Gpu × List Nat × List Nat)
    (hground : SameGround g s.1) (hpages : ∀ p ∈ s.2.2, Managed g p) :
    SameGround g (bbs.foldl (collectBlock cfg) s).1 ∧
      ∀ p ∈ (bbs.foldl (collectBlock cfg) s).2.2, Managed g p := by
  induction bbs generalizing s with
  | nil => exact ⟨hground, hpages⟩
  | cons b bbs ih =>
    apply ih (fun c hc => hbbs c (List.mem_cons_of_mem _ hc))
    · exact hground.trans ⟨rfl, fun _ => rfl, rfl, rfl⟩
    · intro p hp
      rcases List.mem_append.mp hp with hp | hp
      · exact hpages p hp
      · apply h.block_pages (hbbs b List.mem_cons_self)
        exact (List.mem_filter.mp (List.mem_filter.mp hp).1).1

theorem planOn_prefetchGroup {g : Gpu} (h : Ground cfg g) {s : Gpu × Turn} (hs : PlanOn g s)
    {group : Nat × List Nat} (hruns : (prefetchGroup cfg s group).1.aborted = false) :
    PlanOn g (prefetchGroup cfg s group) := by
  have hscheduled : Watched anyEvent (scheduleFaults s.1 group.2).1 := by
    have hgrows : Grows (scheduleFaults s.1 group.2).1 (prefetchGroup cfg s group).1 :=
      (fillTree_grows _ _ _).trans (Grows.foldl_fst (collectBlock_grows cfg) _ (_, _, []))
    exact Watched.before ⟨hruns, fun _ _ => rfl⟩ hgrows
  have hstart : BlocksOn g (s.1, (StdMap.empty : BlockSet)) := ⟨hs.ground, fun b hb => nomatch hb⟩
  have hblocks : BlocksOn g (scheduleFaults s.1 group.2) := by
    apply foldl_runs (f := scheduleFault) (fun s a => updateBlock_grows s.1 a _ true) group.2 _
      hstart hscheduled.runs
    exact fun a _ s hs hruns => blocksOn_scheduleFault h hs hruns
  have hfilled := blocksOn_fillTree h hblocks group.1
  have hkeys : ∀ b ∈ (fillTree (scheduleFaults s.1 group.2).1 group.1
      (scheduleFaults s.1 group.2).2).2.keys, BlockCovered g b := by
    intro b hb
    exact hfilled.blocks b ((StdMap.mem_keys _ _).mp hb)
  have hcollected := collected_pages cfg h _ hkeys
    ((fillTree (scheduleFaults s.1 group.2).1 group.1 (scheduleFaults s.1 group.2).2).1,
      s.2.temp_req_info, []) hfilled.ground (fun p hp => nomatch hp)
  refine ⟨hcollected.1, ?_⟩
  intro p hp
  simp only [prefetchGroup] at hp
  rw [planned_append] at hp
  rcases List.mem_append.mp hp with hp | hp
  · exact hs.pages p hp
  · exact hcollected.2 p hp

theorem planOn_chooseMigrations {g : Gpu} (h : Handles cfg g)
    (hruns : (chooseMigrations cfg g).1.aborted = false) : PlanOn g (chooseMigrations cfg g) := by
  have hstart : PlanOn g (g, ({} : Turn)) := ⟨SameGround.refl g, fun p hp => nomatch hp⟩
  revert hruns
  unfold chooseMigrations
  split
  · apply foldl_runs (prefetchOne_grows cfg) _ _ hstart
    exact fun p hp s hs hruns => planOn_prefetchOne cfg h.toGround hs (h.faults p hp) hruns
  · apply foldl_runs (prefetchGroup_grows cfg) _ _ hstart
    exact fun group _ s hs hruns => planOn_prefetchGroup cfg h.toGround hs hruns

theorem Handles.chooseMigrations {g : Gpu} (h : Handles cfg g)
    (hsame : SameGround g (chooseMigrations cfg g).1) : Handles cfg (chooseMigrations cfg g).1 := by
  rw [chooseMigrations_frame] at hsame ⊢
  exact h.next hsame h.entries h.reads h.writes h.requests h.faults h.fetches

theorem Handles.stageTurn {g : Gpu} (h : Handles cfg g) {turn : Turn}
    (hpages : ∀ p ∈ planned turn, Managed g p) : Handles cfg (stageTurn cfg g turn) := by
  have hqueued := queuedPages_stageTurn cfg g turn
  rw [stageTurn_frame] at hqueued ⊢
  refine h.next ⟨rfl, fun _ => rfl, rfl, rfl⟩ h.entries ?_ h.writes h.requests h.faults h.fetches
  intro p hp
  rw [hqueued] at hp
  rcases List.mem_append.mp hp with hp | hp
  · exact h.reads p hp
  · exact hpages p hp

theorem do_hardware_prefetch_handlesFollow (g : Gpu) :
    HandlesFollow cfg g (do_hardware_prefetch cfg g) := by
  apply (do_hardware_prefetch_grows cfg g).follows
  intro h hw
  revert hw
  unfold do_hardware_prefetch
  split
  · exact fun _ => h
  · intro hw
    have hstaged : Watched anyEvent (stageTurn cfg (chooseMigrations cfg g).1
        (chooseMigrations cfg g).2) :=
      ⟨(hw.before (noteOversubscription_grows cfg _ _)).runs, fun _ _ => rfl⟩
    have hchosen := hstaged.before (stageTurn_grows cfg _ _)
    have hplan := planOn_chooseMigrations cfg h hchosen.runs
    have hpages : ∀ p ∈ planned (chooseMigrations cfg g).2,
        Managed (chooseMigrations cfg g).1 p :=
      fun p hp => (hplan.ground.managed_iff p).mpr (hplan.pages p hp)
    have hturn := Handles.stageTurn cfg (h.chooseMigrations cfg hplan.ground) hpages
    rw [noteOversubscription_frame]
    refine hturn.next ⟨rfl, fun _ => rfl, rfl, rfl⟩ hturn.entries hturn.reads hturn.writes
      hturn.requests ?_ hturn.fetches
    exact fun p hp => nomatch hp

/-! ## The queues of the clusters -/

/-- The fetch only moves. -/
theorem fetchFrom_asked {g : Gpu} (c : Nat) {mf : MemFetch} (h : Asked (fetchFrom cfg g c) mf) :
    Asked g mf := by
  cases hq : g.m_cu_gmmu_queue c with
  | nil => simpa only [fetchFrom, hq] using h
  | cons front rest =>
    have hfront : Asked g front := Or.inr (Or.inl ⟨c, by rw [hq]; exact List.mem_cons_self⟩)
    rw [fetchFrom_cons hq] at h
    rcases h with h | ⟨d, h⟩ | h | h
    · rcases List.mem_cons.mp h with rfl | h
      · exact hfront
      · exact Or.inl h
    · refine Or.inr (Or.inl ⟨d, ?_⟩)
      dsimp only at h
      split_ifs at h with hd
      · rw [hd, hq]
        exact List.mem_cons_of_mem _ h
      · exact h
    · exact Or.inr (Or.inr (Or.inl h))
    · rw [List.map_append] at h
      rcases List.mem_append.mp h with h | h
      · exact Or.inr (Or.inr (Or.inr h))
      · rw [List.mem_singleton.mp h]
        exact hfront

theorem fetchFrom_handlesFollow (g : Gpu) (c : Nat) : HandlesFollow cfg g (fetchFrom cfg g c) := by
  apply (fetchFrom_grows cfg g c).unnoticed
  intro h
  have hasked : ∀ mf, Asked (fetchFrom cfg g c) mf →
      Forest.covers g.large_page_info mf.access.addr :=
    fun mf hmf => h.fetches mf (fetchFrom_asked cfg c hmf)
  rw [fetchFrom_frame] at hasked ⊢
  exact h.next ⟨rfl, fun _ => rfl, rfl, rfl⟩ h.entries h.reads h.writes h.requests h.faults hasked

theorem fetch_from_clusters_handlesFollow (g : Gpu) :
    HandlesFollow cfg g (fetch_from_clusters cfg g) :=
  monitor.Follows.foldl _ (fun c _ k => fetchFrom_handlesFollow cfg k c) g

theorem write_back_done_handlesFollow (g : Gpu) : HandlesFollow cfg g (write_back_done cfg g) :=
  (write_back_done_grows cfg g).unnoticed fun h =>
    h.next ⟨rfl, fun _ => rfl, rfl, rfl⟩ h.entries h.reads h.writes h.requests h.faults h.fetches

/-! ## The user prefetch -/

variable {cfg}

/-- The page at the front of a request is one of its range, and the request goes on by it. -/
theorem RequestOn.advance {M : Nat → Prop} {q : PrefetchReq} (h : RequestOn cfg M q)
    (hleft : q.cur_addr ≠ q.start_addr + q.size) {q' : PrefetchReq}
    (hstart : q'.start_addr = q.start_addr) (hsize : q'.size = q.size)
    (hcur : q'.cur_addr = q.cur_addr + cfg.page_size) : RequestOn cfg M q' := by
  have hend : cfg.page_size ∣ q.start_addr + q.size := Nat.dvd_add h.start h.size
  have hgap : cfg.page_size ∣ q.start_addr + q.size - q.cur_addr := Nat.dvd_sub hend h.cur
  have hlt := lt_of_le_of_ne h.within hleft
  have hle := Nat.le_of_dvd (by omega) hgap
  refine ⟨?_, ?_, ?_, ?_, ?_, ?_⟩
  · rw [hstart]
    exact h.start
  · rw [hsize]
    exact h.size
  · rw [hcur]
    exact Nat.dvd_add h.cur (Nat.dvd_refl _)
  · rw [hstart, hcur]
    have := h.begun
    omega
  · rw [hstart, hcur, hsize]
    omega
  · rw [hstart, hsize]
    exact h.pages

theorem RequestOn.front_page {M : Nat → Prop} {q : PrefetchReq} (h : RequestOn cfg M q)
    (hleft : q.cur_addr ≠ q.start_addr + q.size) : M (cfg.get_page_num q.cur_addr) :=
  h.pages q.cur_addr h.begun (lt_of_le_of_ne h.within hleft)

variable (cfg) in
/-- A request of which a chunk is being selected. -/
structure ChunkOn (s : Gpu × PrefetchReq) : Prop where
  handles : Handles cfg s.1
  request : RequestOn cfg (Managed s.1) s.2
  pending : ∀ p ∈ s.2.pending_prefetch, Managed s.1 p

theorem RequestOn.of_managed {g g' : Gpu} {q : PrefetchReq} (h : RequestOn cfg (Managed g) q)
    (hsame : SameGround g g') : RequestOn cfg (Managed g') q := by
  have hmanaged : Managed g' = Managed g := funext fun p => propext (hsame.managed_iff p)
  rwa [hmanaged]

theorem chunkOn_selectChunk (n : Nat) {s : Gpu × PrefetchReq} (h : ChunkOn cfg s)
    (hleft : s.2.cur_addr ≠ s.2.start_addr + s.2.size) :
    ChunkOn cfg (selectChunk cfg n s.1 s.2) := by
  induction n generalizing s with
  | zero => exact h
  | succ n ih =>
    obtain ⟨g, q⟩ := s
    let page_num := cfg.get_page_num q.cur_addr
    let on : PrefetchReq := { q with cur_addr := q.cur_addr + cfg.page_size }
    have hpage : Managed g page_num := h.request.front_page hleft
    have hon : RequestOn cfg (Managed g) on := h.request.advance hleft rfl rfl rfl
    have hrequired : Handles cfg (g.require (is_mapped g page_num)) :=
      h.handles.next ⟨rfl, fun _ => rfl, rfl, rfl⟩ h.handles.entries h.handles.reads h.handles.writes
        h.handles.requests h.handles.faults h.handles.fetches
    have hrequire : SameGround g (g.require (is_mapped g page_num)) := ⟨rfl, fun _ => rfl, rfl, rfl⟩
    have hfrom := hrequire.trans (check_write_stage_queue_sameGround cfg _ page_num)
    have hchecked :
        ChunkOn cfg (check_write_stage_queue cfg (g.require (is_mapped g page_num)) page_num, on) := by
      refine ⟨hrequired.check_write_stage_queue cfg page_num, RequestOn.of_managed (g := g) hon hfrom,
        ?_⟩
      exact fun p hp => (hfrom.managed_iff p).mpr (h.pending p hp)
    have htaken : ChunkOn cfg (takePage (g.require (is_mapped g page_num)) on page_num) := by
      refine ⟨hrequired.next ⟨rfl, fun _ => rfl, rfl, rfl⟩ hrequired.entries hrequired.reads
        hrequired.writes hrequired.requests hrequired.faults hrequired.fetches, ?_, ?_⟩
      · exact requestOn_pending hon rfl rfl rfl
      · intro p hp
        rcases List.mem_append.mp hp with hp | hp
        · exact h.pending p hp
        · rw [List.mem_singleton.mp hp]
          exact hpage
    have hgoes : ∀ {q : PrefetchReq}, chunkGoesOn q = true → q.cur_addr ≠ q.start_addr + q.size := by
      intro q hq
      simp only [chunkGoesOn, decide_eq_true_eq] at hq
      exact hq.1
    simp only [selectChunk]
    split_ifs with hvalid hpending hon' hon'
    · exact hchecked
    · exact ih hchecked (hgoes hon')
    · exact hchecked
    · exact ih htaken (hgoes hon')
    · exact htaken

theorem replayChunk_handles {g : Gpu} (h : Handles cfg g) (q : PrefetchReq) :
    Handles cfg (replayChunk cfg g q).1 := by
  rw [replayChunk_frame]
  exact h.next ⟨rfl, fun _ => rfl, rfl, rfl⟩ h.entries h.reads h.writes h.requests h.faults h.fetches

variable (cfg) in
theorem replayChunk_range (g : Gpu) (q : PrefetchReq) :
    (replayChunk cfg g q).2.start_addr = q.start_addr ∧ (replayChunk cfg g q).2.size = q.size ∧
      (replayChunk cfg g q).2.cur_addr = q.cur_addr ∧
        (replayChunk cfg g q).2.pending_prefetch = q.pending_prefetch := by
  unfold replayChunk
  split <;> exact ⟨rfl, rfl, rfl, rfl⟩

variable (cfg)

theorem user_prefetch_handlesFollow (g : Gpu) : HandlesFollow cfg g (user_prefetch cfg g) := by
  apply (user_prefetch_grows cfg g).unnoticed
  intro h
  unfold user_prefetch
  split
  · exact h
  · rename_i q rest hbuffer
    split
    · rename_i hready
      have hreplayed := replayChunk_handles h q
      have hrest : ∀ x ∈ rest, RequestOn cfg (Managed g) x := by
        intro x hx
        apply h.requests x
        rw [hbuffer]
        exact List.mem_cons_of_mem _ hx
      have hsame : SameGround g (replayChunk cfg g q).1 := by
        rw [replayChunk_frame]
        exact ⟨rfl, fun _ => rfl, rfl, rfl⟩
      dsimp only
      split
      · refine hreplayed.next ⟨rfl, fun _ => rfl, rfl, rfl⟩ hreplayed.entries hreplayed.reads
          hreplayed.writes ?_ hreplayed.faults hreplayed.fetches
        exact fun x hx => (hrest x hx).of_managed hsame
      · rename_i hleft
        have hq : RequestOn cfg (Managed g) q := by
          apply h.requests q
          rw [hbuffer]
          exact List.mem_cons_self
        obtain ⟨hstart, hsize, hcur, hpending⟩ := replayChunk_range cfg g q
        have hchunk : ChunkOn cfg (replayChunk cfg g q) := by
          refine ⟨hreplayed, (requestOn_pending hq hstart hsize hcur).of_managed hsame, ?_⟩
          rw [hpending, hready.2]
          exact fun p hp => nomatch hp
        have hselected := chunkOn_selectChunk (pages_left cfg (replayChunk cfg g q).2) hchunk hleft
        have hbehind : ∀ x ∈ rest, RequestOn cfg (Managed (selectChunk cfg
            (pages_left cfg (replayChunk cfg g q).2) (replayChunk cfg g q).1
              (replayChunk cfg g q).2).1) x := by
          have hsame' := hselected.handles.requests
          rw [selectChunk_frame, replayChunk_frame] at hsame' ⊢
          intro x hx
          apply hsame' x
          dsimp only
          rw [hbuffer]
          exact List.mem_cons_of_mem _ hx
        have hs := hselected.handles
        refine hs.next ⟨rfl, fun _ => rfl, rfl, rfl⟩ hs.entries ?_ hs.writes ?_ hs.faults hs.fetches
        · intro p hp
          simp only [stageChunk, queuedPages] at hp
          rw [← List.append_assoc, pagesQueued_append, pagesQueued_chunkTransfer] at hp
          rcases List.mem_append.mp hp with hp | hp
          · exact hs.reads p hp
          · exact hselected.pending p hp
        · intro x hx
          rcases List.mem_cons.mp hx with rfl | hx
          · exact hselected.request
          · exact hbehind x hx
    · exact h

theorem gmmu_cycle_handlesFollow (g : Gpu) : HandlesFollow cfg g (gmmu_cycle cfg g) := by
  apply gmmu_cycle_follows cfg
  · exact eviction_check_handlesFollow cfg
  · exact write_back_done_handlesFollow cfg
  · exact write_back_schedule_handlesFollow cfg
  · exact read_done_handlesFollow cfg
  · exact read_schedule_handlesFollow cfg
  · exact page_table_walk_handlesFollow cfg
  · exact do_hardware_prefetch_handlesFollow cfg
  · exact fetch_from_clusters_handlesFollow cfg
  · exact user_prefetch_handlesFollow cfg

/-! ## The cores -/

variable {cfg}

theorem managed_of_isManaged {g : Gpu} {a : MemAccess} (h : isManaged cfg g a = true) :
    Managed g (cfg.get_page_num a.addr) := by
  rwa [isManaged, is_page_managed, cfg.access_in_one_page] at h

/-- The requests of the units, which are what a step of a unit can add to. -/
theorem Asked.of_same {g g' : Gpu} {mf : MemFetch} (h : Asked g' mf) (hwalked : g'.walked = g.walked)
    (hcluster : g'.m_cu_gmmu_queue = g.m_cu_gmmu_queue)
    (hunits : ∀ s, (g'.ldst s).m_cu_gmmu_queue = (g.ldst s).m_cu_gmmu_queue)
    (hwalks : g'.page_table_walk_queue = g.page_table_walk_queue) : Asked g mf := by
  simpa only [Asked, hwalked, hcluster, hunits, hwalks] using h

namespace Handles

variable {g : Gpu}

theorem meetAccesses (h : Handles cfg g) (sid : Nat) (a : MemAccess) (rest : List MemAccess) :
    Handles cfg (meetAccesses cfg g sid a rest) :=
  h.next ⟨rfl, fun q => (meetAccesses_samePages cfg g sid a rest q).2, rfl, rfl⟩ h.entries h.reads
    h.writes h.requests h.faults h.fetches

theorem noteAccess (h : Handles cfg g) (a : MemAccess) (rest : List MemAccess) :
    Handles cfg (noteAccess cfg g a rest) := by
  refine h.next ⟨?_, fun _ => rfl, rfl, rfl⟩ h.entries h.reads h.writes h.requests h.faults h.fetches
  simp only [gpgpu_sim_uvm.noteAccess]
  rw [Forest.shapes_inc_bb_access_counter, Forest.shapes_update_access_type]

theorem tlbHit (h : Handles cfg g) (sid : Nat) {a : MemAccess}
    (hhome : Forest.covers g.large_page_info a.addr) : Handles cfg (tlbHit cfg g sid a) := by
  let checked := gpgpu_sim_uvm.check_write_stage_queue cfg g (cfg.get_page_num a.addr)
  have hsame : SameGround g checked := check_write_stage_queue_sameGround cfg g _
  have hused : SameGround checked (useTlbEntry cfg checked sid a) :=
    ⟨rfl, fun q => (markPage_samePages cfg checked.m_data a q).2, rfl, rfl⟩
  have hchecked : Handles cfg checked := h.check_write_stage_queue cfg _
  have hentered : Handles cfg (useTlbEntry cfg checked sid a) := by
    apply hchecked.next hused hchecked.entries hchecked.reads hchecked.writes hchecked.requests
      hchecked.faults
    intro mf hmf
    apply hchecked.fetches
    exact hmf.of_same rfl rfl (unit_same Ldst.m_cu_gmmu_queue (by rfl) (by rfl)) rfl
  apply hentered.refresh_valid_pages
  exact ((hsame.trans hused).covers_iff _).mpr hhome

theorem tlbMiss (h : Handles cfg g) (sid : Nat) (w : WarpInst) {a : MemAccess}
    (rest : List MemAccess) (hhome : Forest.covers g.large_page_info a.addr) :
    Handles cfg (tlbMiss g sid w a rest) := by
  refine h.next ⟨rfl, fun _ => rfl, rfl, rfl⟩ h.entries h.reads h.writes h.requests h.faults ?_
  intro mf hmf
  rcases hmf with hmf | hmf | ⟨s, hmf⟩ | hmf
  · exact h.fetches mf (Or.inl hmf)
  · exact h.fetches mf (Or.inr (Or.inl hmf))
  · simp only [gpgpu_sim_uvm.tlbMiss] at hmf
    by_cases hs : s = sid
    · rw [hs, setLdst_self] at hmf
      rcases List.mem_append.mp hmf with hmf | hmf
      · exact h.fetches mf (Or.inr (Or.inr (Or.inl ⟨sid, hmf⟩)))
      · rw [List.mem_singleton.mp hmf]
        exact hhome
    · rw [setLdst_ne g _ hs] at hmf
      exact h.fetches mf (Or.inr (Or.inr (Or.inl ⟨s, hmf⟩)))
  · exact h.fetches mf (Or.inr (Or.inr (Or.inr hmf)))

end Handles

variable (cfg)

variable {cfg} in
theorem noteAccess_home {g : Gpu} {a : MemAccess} {rest : List MemAccess}
    (h : (noteAccess cfg g a rest).aborted = false) :
    Forest.covers (noteAccess cfg g a rest).large_page_info a.addr := by
  simp only [noteAccess, Bool.or_eq_false_iff] at h ⊢
  have hsome : (Forest.get_lp_node g.large_page_info a.addr).isSome = true := by simpa using h.2
  obtain ⟨t, ht⟩ := Option.isSome_iff_exists.mp hsome
  apply Forest.covers_of_shapes (Forest.shapes_inc_bb_access_counter _ _).symm
  apply Forest.covers_of_shapes (Forest.shapes_update_access_type _ _ _).symm
  exact ⟨t, Forest.mem_of_get_lp_node ht, covers_of_get_lp_node ht⟩

theorem access_cycle_handlesFollow (g : Gpu) (sid : Nat) :
    HandlesFollow cfg g (access_cycle cfg g sid).1 := by
  apply (access_cycle_grows cfg g sid).follows
  intro h
  have hnoted : ∀ a rest, Handles cfg (noteAccess cfg (meetAccesses cfg g sid a rest) a rest) :=
    fun a rest => (h.meetAccesses sid a rest).noteAccess a rest
  have hcase := access_cycle_cases cfg g sid
  generalize access_cycle cfg g sid = s at hcase ⊢
  cases hcase with
  | idle => exact fun _ => h
  | passes => exact fun _ => h.meetAccesses sid _ _
  | @hits w a rest =>
    intro hw
    have hbefore := hw.before (tlbHit_grows cfg _ sid a)
    exact (hnoted a rest).tlbHit sid (noteAccess_home hbefore.runs)
  | @misses w a rest =>
    intro hw
    have hmiss : ∀ k : Gpu, Grows k (tlbMiss k sid w a rest) := fun k => .of_same rfl rfl
    have hbefore := hw.before (hmiss _)
    exact (hnoted a rest).tlbMiss sid w rest (noteAccess_home hbefore.runs)

/-- The GMMU pushes back what it took. -/
def ReplayedWalked (g : Gpu) : Prop := ∀ r ∈ g.replayed, r.1 ∈ g.walked

variable {cfg} in
theorem replayedWalked {g : Gpu} (hr : Reachable cfg g) : ReplayedWalked g := by
  intro r hback
  have hreplayed : r.1 ∈ replayedFetches g := Multiset.mem_coe.mpr (List.mem_map_of_mem hback)
  have hin : r.1 ∈ accounted g := by
    unfold accounted
    exact Multiset.mem_add.mpr (Or.inl (Multiset.mem_add.mpr (Or.inr hreplayed)))
  rw [← (ledger cfg hr).balance] at hin
  exact Multiset.mem_coe.mp hin

variable {cfg} in
theorem Handles.takeReply {g : Gpu} (h : Handles cfg g) {mf : MemFetch} (hasked : mf ∈ g.walked)
    (sid : Nat) (rest : List MemFetch) (p : Port) : Handles cfg (takeReply cfg g sid mf rest p) := by
  have hused : SameGround g (useReply cfg g sid mf rest p) :=
    ⟨rfl, fun q => (markPage_samePages cfg g.m_data mf.access q).2, rfl, rfl⟩
  have htaken : Handles cfg (useReply cfg g sid mf rest p) := by
    apply h.next hused h.entries h.reads h.writes h.requests h.faults
    intro x hx
    apply h.fetches
    exact hx.of_same rfl rfl (unit_same Ldst.m_cu_gmmu_queue (by rfl) (by rfl)) rfl
  have hhome := h.fetches mf (Or.inl hasked)
  have hreleased : Handles cfg
      (releaseIf cfg (useReply cfg g sid mf rest p) (releasedByReply cfg mf p)) := by
    rw [releaseIf_frame]
    exact htaken.next ⟨rfl, fun _ => rfl, rfl, rfl⟩ htaken.entries htaken.reads htaken.writes
      htaken.requests htaken.faults htaken.fetches
  apply hreleased.refresh_valid_pages
  rw [releaseIf_frame]
  exact hhome

theorem memory_cycle_handlesFollow {g : Gpu} {sid : Nat} (hnew : RepliesAreNew g sid)
    (hwalked : ReplayedWalked g) (p : Port) : HandlesFollow cfg g (memory_cycle cfg g sid p).1 := by
  apply (memory_cycle_grows cfg g sid p).unnoticed
  intro h
  have hcase := memory_cycle_cases cfg g sid p
  generalize memory_cycle cfg g sid p = s at hcase ⊢
  cases hcase with
  | @drains w =>
    have hsent : ∀ mf, Asked (sendAccesses cfg g sid w p) mf →
        Forest.covers g.large_page_info mf.access.addr := by
      intro mf hmf
      apply h.fetches
      exact hmf.of_same rfl rfl (unit_same Ldst.m_cu_gmmu_queue (by rfl) (by rfl)) rfl
    have hdrained : Handles cfg (sendAccesses cfg g sid w p) :=
      h.next ⟨rfl, fun _ => rfl, rfl, rfl⟩ h.entries h.reads h.writes h.requests h.faults hsent
    dsimp only
    unfold drainQueue
    rw [releaseIf_frame]
    exact hdrained.next ⟨rfl, fun _ => rfl, rfl, rfl⟩ hdrained.entries hdrained.reads
      hdrained.writes hdrained.requests hdrained.faults hdrained.fetches
  | waits => exact h
  | @replies mf rest _ hreply =>
    have hmf : mf ∈ (g.ldst sid).m_gmmu_cu_queue := by
      rw [hreply]
      exact List.mem_cons_self
    obtain ⟨-, ⟨c, hback⟩, -⟩ := hnew mf hmf
    exact h.takeReply (hwalked (mf, c) hback) sid rest p

theorem retire_handlesFollow (g : Gpu) (sid : Nat) : HandlesFollow cfg g (retire g sid) := by
  apply (retire_grows g sid).unnoticed
  intro h
  refine h.next ⟨rfl, fun _ => rfl, rfl, rfl⟩ h.entries h.reads h.writes h.requests h.faults ?_
  intro mf hmf
  apply h.fetches
  exact hmf.of_same rfl rfl (unit_same Ldst.m_cu_gmmu_queue (by rfl) (by rfl)) rfl

theorem ldst_cycle_handlesFollow {g : Gpu} (hr : Reachable cfg g) (sid : Nat) (p : Port) :
    HandlesFollow cfg g (ldst_cycle cfg g sid p) := by
  have hreplayed := replayedWalked hr
  have hwalked : ReplayedWalked (access_cycle cfg g sid).1 := by
    rw [access_cycle_frame]
    exact hreplayed
  have hboth := (access_cycle_handlesFollow cfg g sid).trans
    (memory_cycle_handlesFollow cfg (repliesAreNew hr sid).access_cycle hwalked p)
  simp only [ldst_cycle]
  split
  · split
    · exact hboth.trans (retire_handlesFollow cfg _ sid)
    · exact hboth
  · exact access_cycle_handlesFollow cfg g sid

variable {cfg} in
/-- Replies and requests only move in the clusters. -/
theorem core_request_asked {c : Nat} {g : Gpu} {sid : Nat} {mf : MemFetch}
    (h : Asked (core_request c g sid) mf) : Asked g mf := by
  cases hq : (g.ldst sid).m_cu_gmmu_queue with
  | nil => simpa only [core_request, hq] using h
  | cons front rest =>
    have hfront : Asked g front :=
      Or.inr (Or.inr (Or.inl ⟨sid, by rw [hq]; exact List.mem_cons_self⟩))
    rw [core_request_cons hq] at h
    rcases h with h | ⟨d, h⟩ | ⟨s, h⟩ | h
    · exact Or.inl h
    · dsimp only at h
      split_ifs at h with hd
      · rcases List.mem_cons.mp h with rfl | h
        · exact hfront
        · exact Or.inr (Or.inl ⟨d, h⟩)
      · exact Or.inr (Or.inl ⟨d, h⟩)
    · by_cases hs : s = sid
      · dsimp only at h
        rw [hs, setLdst_self] at h
        refine Or.inr (Or.inr (Or.inl ⟨sid, ?_⟩))
        rw [hq]
        exact List.mem_cons_of_mem _ h
      · dsimp only at h
        rw [setLdst_ne g _ hs] at h
        exact Or.inr (Or.inr (Or.inl ⟨s, h⟩))
    · exact Or.inr (Or.inr (Or.inr h))

theorem cluster_reply_handlesFollow (g : Gpu) (c : Nat) : HandlesFollow cfg g (cluster_reply g c) := by
  apply (cluster_reply_grows g c).unnoticed
  intro h
  have hunits : ∀ s, ((cluster_reply g c).ldst s).m_cu_gmmu_queue = (g.ldst s).m_cu_gmmu_queue := by
    unfold cluster_reply
    split
    · exact fun _ => rfl
    · exact unit_same Ldst.m_cu_gmmu_queue (by rfl) (by rfl)
  rw [cluster_reply_frame]
  refine h.next ⟨rfl, fun _ => rfl, rfl, rfl⟩ h.entries h.reads h.writes h.requests h.faults ?_
  exact fun mf hmf => h.fetches mf (hmf.of_same rfl rfl hunits rfl)

theorem icnt_cycle_handlesFollow (g : Gpu) (c : Nat) : HandlesFollow cfg g (icnt_cycle cfg g c) := by
  refine (cluster_reply_handlesFollow cfg g c).trans (monitor.Follows.foldl _ ?_ _)
  intro sid _ k
  apply (core_request_grows c k sid).unnoticed
  intro h
  have hasked : ∀ mf, Asked (core_request c k sid) mf →
      Forest.covers k.large_page_info mf.access.addr :=
    fun mf hmf => h.fetches mf (core_request_asked hmf)
  rw [core_request_frame] at hasked ⊢
  exact h.next ⟨rfl, fun _ => rfl, rfl, rfl⟩ h.entries h.reads h.writes h.requests h.faults hasked

/-! ## The runtime -/

section

variable {cfg}
variable {g g' : Gpu}

/-- A step that keeps what the GMMU handles where it is. -/
theorem Handles.stays (h : Handles cfg g) (hground : Ground cfg g')
    (hmanaged : ∀ p, Managed g p → Managed g' p)
    (hcovers : ∀ a, Forest.covers g.large_page_info a → Forest.covers g'.large_page_info a)
    (hentries : g'.valid_pages ⊆ g.valid_pages) (hreads : queuedPages g' = queuedPages g)
    (hwrites : g'.pcie_write_stage_queue = g.pcie_write_stage_queue)
    (hrequests : g'.prefetch_req_buffer = g.prefetch_req_buffer)
    (hfaults : g'.page_fault_this_turn = g.page_fault_this_turn)
    (hfetches : ∀ mf, Asked g' mf → Asked g mf) : Handles cfg g' := by
  refine ⟨hground, ?_, ?_, ?_, ?_, ?_, ?_⟩
  · exact fun e he => (h.entries e (hentries he)).mono hmanaged hcovers
  · rw [hreads]
    exact fun p hp => hmanaged p (h.reads p hp)
  · rw [hwrites]
    exact fun t ht p hp => hmanaged p (h.writes t ht p hp)
  · rw [hrequests]
    exact fun q hq => (h.requests q hq).mono hmanaged
  · rw [hfaults]
    exact fun p hp => hmanaged p (h.faults p hp)
  · exact fun mf hmf => hcovers _ (h.fetches mf (hfetches mf hmf))

theorem Handles.cudaMallocManaged (h : Handles cfg g) {cpu size : Nat}
    (hruns : (cudaMallocManaged cfg g cpu size).aborted = false) :
    Handles cfg (cudaMallocManaged cfg g cpu size) := by
  apply h.stays (h.toGround.cudaMallocManaged hruns) _ _ (List.Subset.refl _) rfl rfl rfl rfl
  · exact fun _ => id
  · exact fun p hp => (managed_cudaMallocManaged g cpu size p).mpr (Or.inr hp)
  · rintro a ⟨t, ht, hcovers⟩
    exact ⟨t, List.mem_append_left _ ht, hcovers⟩

/-- The whole pages of a range inside a managed allocation. -/
theorem requestOn_range (h : Ground cfg g) {a : AllocationInfo} (ha : a ∈ g.managedAllocations)
    {off count stream : Nat} (hcount : 0 < count) (hin : off + count ≤ a.allocation_size) :
    RequestOn cfg (Managed g)
      { start_addr := (a.gpu_mem_addr + off) / cfg.page_size * cfg.page_size
        cur_addr := (a.gpu_mem_addr + off) / cfg.page_size * cfg.page_size
        allocation_addr := a.gpu_mem_addr
        size := (a.gpu_mem_addr + off + count - 1) / cfg.page_size * cfg.page_size + cfg.page_size -
          (a.gpu_mem_addr + off) / cfg.page_size * cfg.page_size
        m_stream := stream } := by
  have hpage := cfg.page_size_pos
  have hstart : cfg.page_size ∣ (a.gpu_mem_addr + off) / cfg.page_size * cfg.page_size :=
    Nat.dvd_mul_left _ _
  have hend : cfg.page_size ∣
      (a.gpu_mem_addr + off + count - 1) / cfg.page_size * cfg.page_size + cfg.page_size :=
    Nat.dvd_add (Nat.dvd_mul_left _ _) (Nat.dvd_refl _)
  have hle : (a.gpu_mem_addr + off) / cfg.page_size * cfg.page_size ≤
      (a.gpu_mem_addr + off + count - 1) / cfg.page_size * cfg.page_size := by
    apply Nat.mul_le_mul_right
    apply Nat.div_le_div_right
    omega
  refine ⟨hstart, Nat.dvd_sub hend hstart, hstart, le_refl _, by dsimp only; omega, ?_⟩
  intro x hlow hhigh
  dsimp only at hlow hhigh
  have hfirst : cfg.get_page_num (a.gpu_mem_addr + off) ≤ cfg.get_page_num x :=
    (Nat.le_div_iff_mul_le hpage).mpr hlow
  have hlast : cfg.get_page_num x < cfg.get_page_num (a.gpu_mem_addr + off + count - 1) + 1 := by
    rw [Config.get_page_num, Nat.div_lt_iff_lt_mul hpage, Nat.succ_mul]
    exact lt_of_lt_of_le hhigh (by rw [Config.get_page_num]; omega)
  have hmem : cfg.get_page_num x ∈ pagesOfRange cfg (a.gpu_mem_addr + off) count := by
    rw [pagesOfRange, List.mem_range'_1]
    omega
  obtain ⟨y, hylow, hyhigh, hy⟩ := address_of_pagesOfRange hcount hmem
  have hmanaged := h.allocations a ha (y - a.gpu_mem_addr) (by omega)
  rw [← hy]
  have hyaddr : a.gpu_mem_addr + (y - a.gpu_mem_addr) = y := by omega
  rwa [hyaddr] at hmanaged

theorem Handles.cudaMemPrefetchAsync (h : Handles cfg g) (p : Nat) {n : Nat} (hn : 0 < n)
    (s : Nat) : Handles cfg (cudaMemPrefetchAsync cfg g p n s) := by
  unfold gpgpu_sim_uvm.cudaMemPrefetchAsync
  split
  · exact h.next ⟨rfl, fun _ => rfl, rfl, rfl⟩ h.entries h.reads h.writes h.requests h.faults
      h.fetches
  · rename_i a hfind
    have hin := List.find?_some hfind
    rw [decide_eq_true_eq] at hin
    refine h.next ⟨rfl, fun _ => rfl, rfl, rfl⟩ h.entries h.reads h.writes ?_ h.faults h.fetches
    intro q hq
    rcases List.mem_append.mp hq with hq | hq
    · exact h.requests q hq
    · rw [List.mem_singleton.mp hq]
      exact requestOn_range h.toGround (List.mem_of_find?_eq_some hfind) hn (by omega)

theorem Handles.activate_prefetch (h : Handles cfg g) (addr cnt stream : Nat) :
    Handles cfg (activate_prefetch g addr cnt stream) := by
  have hactive : ∀ qs : List PrefetchReq, (∀ q ∈ qs, RequestOn cfg (Managed g) q) →
      ∀ q ∈ activateFirst addr cnt stream qs, RequestOn cfg (Managed g) q := by
    intro qs
    induction qs with
    | nil => exact fun hqs => hqs
    | cons q qs ih =>
      intro hqs x hx
      obtain ⟨hq, hrest⟩ := List.forall_mem_cons.mp hqs
      unfold activateFirst at hx
      split at hx
      · rcases List.mem_cons.mp hx with rfl | hx
        · exact requestOn_pending hq rfl rfl rfl
        · exact hrest x hx
      · rcases List.mem_cons.mp hx with rfl | hx
        · exact hq
        · exact ih hrest x hx
  exact h.next ⟨rfl, fun _ => rfl, rfl, rfl⟩ h.entries h.reads h.writes (hactive _ h.requests)
    h.faults h.fetches

theorem Handles.cudaSetupArgument (h : Handles cfg g) (p : Nat) :
    Handles cfg (cudaSetupArgument g p) := by
  unfold gpgpu_sim_uvm.cudaSetupArgument
  split
  · exact h
  · refine h.stays (h.toGround.stays rfl (fun _ => rfl) rfl ?_) (fun _ => id) (fun _ => id)
      (List.Subset.refl _) rfl rfl rfl rfl (fun _ => id)
    intro a ha
    obtain ⟨b, hb, rfl⟩ := List.mem_map.mp ha
    refine ⟨b, hb, ?_⟩
    split <;> exact ⟨rfl, rfl⟩

theorem Handles.cudaDeviceSynchronize (h : Handles cfg g) :
    Handles cfg (cudaDeviceSynchronize cfg g) := by
  have hmanaged : ∀ p, (pageOf (gpgpu_sim_uvm.cudaDeviceSynchronize cfg g).m_data p).managed =
      (pageOf g.m_data p).managed := by
    intro p
    simp only [gpgpu_sim_uvm.cudaDeviceSynchronize, pageOf_invalidate_pages]
    split <;> rfl
  have hshapes := Forest.shapes_map LpTree.shape_reset_lp_tree_node g.large_page_info
  have hground : Ground cfg (gpgpu_sim_uvm.cudaDeviceSynchronize cfg g) := by
    apply h.toGround.stays hshapes hmanaged rfl
    intro a ha
    obtain ⟨b, hb, rfl⟩ := List.mem_map.mp ha
    exact ⟨b, hb, rfl, rfl⟩
  refine h.stays hground ?_ (fun _ => Forest.covers_of_shapes hshapes.symm) (List.nil_subset _) rfl
    rfl rfl rfl (fun _ => id)
  intro p
  rw [Managed, Managed, hmanaged]
  exact id

end

theorem perform_handlesFollow {g : Gpu} (hr : Reachable cfg g) {a : Action}
    (hen : enabled cfg g a = true) : HandlesFollow cfg g (perform cfg g a) := by
  have hgrows := perform_grows cfg g a
  cases a with
  | gmmu_cycle => exact gmmu_cycle_handlesFollow cfg g
  | ldst_cycle sid p => exact ldst_cycle_handlesFollow cfg hr sid p
  | icnt_cycle c => exact icnt_cycle_handlesFollow cfg g c
  | cudaMallocManaged cpu size => exact hgrows.follows fun h hw => h.cudaMallocManaged hw.runs
  | cudaSetupArgument p => exact hgrows.unnoticed fun h => h.cudaSetupArgument p
  | cudaMemPrefetchAsync p n s =>
    exact hgrows.unnoticed fun h => h.cudaMemPrefetchAsync p (of_decide_eq_true hen) s
  | activate_prefetch addr cnt stream =>
    exact hgrows.unnoticed fun h => h.activate_prefetch addr cnt stream
  | cudaDeviceSynchronize => exact hgrows.unnoticed fun h => h.cudaDeviceSynchronize
  | issue sid w bytes =>
    refine hgrows.unnoticed fun h => h.next ⟨rfl, ?_, rfl, rfl⟩ h.entries h.reads h.writes
      h.requests h.faults ?_
    · exact fun q => (writeDevice_samePages cfg _ bytes q).2
    · intro mf hmf
      apply h.fetches
      exact hmf.of_same rfl rfl (unit_same Ldst.m_cu_gmmu_queue (by rfl) (by rfl)) rfl
  | dispatch sid k =>
    refine hgrows.unnoticed fun h => h.next ⟨rfl, fun _ => rfl, rfl, rfl⟩ h.entries h.reads
      h.writes h.requests h.faults ?_
    intro mf hmf
    apply h.fetches
    exact hmf.of_same rfl rfl (unit_same Ldst.m_cu_gmmu_queue (by rfl) (by rfl)) rfl
  | do_atomic sid k bytes =>
    refine hgrows.unnoticed fun h => h.next ⟨rfl, ?_, rfl, rfl⟩ h.entries h.reads h.writes
      h.requests h.faults h.fetches
    exact fun q => (writeDevice_samePages cfg _ bytes q).2
  | answer sid k how =>
    have hunits := answer_unit cfg Ldst.m_cu_gmmu_queue (fun _ _ => rfl) g sid k how
    refine hgrows.unnoticed fun h => ?_
    simp only [perform]
    rw [answer_frame]
    refine h.next ⟨rfl, fun _ => rfl, rfl, rfl⟩ h.entries h.reads h.writes h.requests h.faults ?_
    exact fun mf hmf => h.fetches mf (hmf.of_same rfl rfl hunits rfl)
  | cudaMalloc _ | host_write _ _ | log_kernel_start _ | log_kernel_finish _ | tick =>
    exact hgrows.unnoticed fun h => h.next ⟨rfl, fun _ => rfl, rfl, rfl⟩ h.entries h.reads h.writes
      h.requests h.faults h.fetches

theorem handles_boot : Handles cfg (boot cfg) := by
  refine ⟨ground_boot, ?_, ?_, ?_, ?_, ?_, ?_⟩
  · exact fun e he => nomatch he
  · exact fun p hp => nomatch hp
  · exact fun t ht => nomatch ht
  · exact fun q hq => nomatch hq
  · exact fun p hp => nomatch hp
  · rintro mf (h | ⟨c, h⟩ | ⟨s, h⟩ | h)
    · cases h
    · cases h
    · cases h
    · cases h

/-- In every state of every run, the pages that the GMMU handles are managed. -/
theorem handles {g : Gpu} (hr : Reachable cfg g) : Handles cfg g := by
  have hwatch : g.history.all anyEvent = true := List.all_eq_true.mpr fun _ _ => rfl
  exact invariant_of_reachable_steps cfg (Handles cfg) (handles_boot cfg)
    (fun _ _ hr hen => perform_handlesFollow cfg hr hen) hr hwatch

end gpgpu_sim_uvm
