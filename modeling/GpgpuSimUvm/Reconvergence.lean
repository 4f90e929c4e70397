-- Reconvergence points are the immediate post-dominators: on every graph whose
-- blocks reach the exit, what the analyses find is what the walks say.
import GpgpuSimUvm.DominanceLaws
import Mathlib.Tactic.IntervalCases

namespace gpgpu_sim_uvm

open control_flow

/-! ## Counting blocks -/

theorem countP_blocks (bs : List BasicBlock) (p : BasicBlock → Bool) :
    bs.countP p = ((Finset.range bs.length).filter fun i => p (block bs i)).card := by
  induction bs using List.reverseRecOn with
  | nil => simp
  | append_singleton bs b ih =>
    have hlast : block (bs ++ [b]) bs.length = b := by simp [block]
    have hinit : ∀ i ∈ Finset.range bs.length,
        (p (block (bs ++ [b]) i) = true ↔ p (block bs i) = true) := by
      intro i hi
      have hi : i < bs.length := by simpa using hi
      simp [block, hi, List.getElem?_append_left]
    rw [List.countP_append, ih, List.length_append, List.length_singleton, Finset.range_add_one,
      Finset.filter_insert, hlast, Finset.filter_congr hinit]
    by_cases hb : p b = true
    · simp [hb]
    · simp [hb]

theorem any_blocks (bs : List BasicBlock) (p : BasicBlock → Bool) :
    bs.any p = true ↔ ∃ i < bs.length, p (block bs i) = true := by
  rw [List.any_eq_true]
  constructor
  · rintro ⟨b, hb, hp⟩
    obtain ⟨i, hi, rfl⟩ := List.mem_iff_getElem.mp hb
    exact ⟨i, hi, by rwa [block_eq hi]⟩
  · rintro ⟨i, hi, hp⟩
    rw [block_eq hi] at hp
    exact ⟨_, List.getElem_mem hi, hp⟩

theorem idsInOrder_iff {bs : List BasicBlock} :
    idsInOrder bs = true ↔ ∀ i < bs.length, (block bs i).bb_id = i := by
  simp [idsInOrder]

/-! ## The graph -/

/-- A control-flow graph whose blocks all reach the exit, before the analysis
of post-dominators. Only the exit block has no instructions. -/
structure FunctionInfo.ReachesExit (f : FunctionInfo) : Prop where
  two : 2 ≤ f.m_basic_blocks.length
  bb_id : ∀ i < f.m_basic_blocks.length, (block f.m_basic_blocks i).bb_id = i
  edges : ∀ i < f.m_basic_blocks.length, ∀ s ∈ (block f.m_basic_blocks i).successor_ids,
    s < f.m_basic_blocks.length
  fresh : ∀ i < f.m_basic_blocks.length, (block f.m_basic_blocks i).postdominator_ids = ∅
  first : ∀ i < f.exit, ∃ p, (block f.m_basic_blocks i).ptx_begin = some p
  last : ∀ i < f.exit, ∃ p, (block f.m_basic_blocks i).ptx_end = some p
  empty : (block f.m_basic_blocks f.exit).ptx_begin = none
  walk : ∀ i < f.m_basic_blocks.length, ∃ ns, Walk f.succ f.exit i ns

section

variable {f : FunctionInfo}

theorem FunctionInfo.ReachesExit.wellFormed (hf : f.ReachesExit) :
    WellFormed postdominance f.m_basic_blocks := ⟨hf.bb_id, hf.edges⟩

theorem FunctionInfo.ReachesExit.exit_lt (hf : f.ReachesExit) :
    f.exit < f.m_basic_blocks.length := by
  have := hf.two
  unfold FunctionInfo.exit
  omega

/-- A walk stays among the blocks. -/
theorem FunctionInfo.ReachesExit.mem_lt (hf : f.ReachesExit) {a : Nat} {ns : List Nat}
    (hw : Walk f.succ f.exit a ns) (ha : a < f.m_basic_blocks.length) {d : Nat} (hd : d ∈ ns) :
    d < f.m_basic_blocks.length := by
  induction hw with
  | stop =>
    rw [List.mem_singleton.mp hd]
    exact ha
  | step hs hw ih =>
    rcases List.mem_cons.mp hd with rfl | hd
    · exact ha
    · exact ih (hf.edges _ ha _ hs) hd

theorem FunctionInfo.ReachesExit.pdom_lt (hf : f.ReachesExit) {a d : Nat}
    (ha : a < f.m_basic_blocks.length) (hpd : PostDominates f.succ f.exit d a) :
    d < f.m_basic_blocks.length := by
  obtain ⟨ns, hw⟩ := hf.walk a ha
  exact hf.mem_lt hw ha (hpd ns hw)

/-! ## The sets -/

/-- `find_postdominators` ends, and only the sets of post-dominators are new:
they hold what the walks say. -/
theorem FunctionInfo.ReachesExit.find_postdominators (hf : f.ReachesExit) {fuel : Nat}
    (hfuel : f.m_basic_blocks.length * f.m_basic_blocks.length < fuel) :
    ∃ D, gpgpu_sim_uvm.find_postdominators fuel f.m_basic_blocks =
        .ok (withSets postdominance f.m_basic_blocks D) ∧
      ∀ h < f.m_basic_blocks.length, ∀ d, d ∈ D h ↔ PostDominates f.succ f.exit d h := by
  have hfill : Refillable postdominance f.exit f.m_basic_blocks := by
    refine ⟨fun i hi => ?_, ?_⟩
    · simp [postdominance, hf.fresh i hi]
    · simp [postdominance, hf.fresh f.exit hf.exit_lt]
  have horder : ∀ h, h ∈ (List.range (f.m_basic_blocks.length - 1)).reverse ↔
      h < f.m_basic_blocks.length ∧ h ≠ f.exit := by
    intro h
    have := hf.two
    rw [List.mem_reverse, List.mem_range]
    unfold FunctionInfo.exit
    omega
  obtain ⟨D, hrun, -, hD⟩ := findSets_exact hf.wellFormed hfill hf.two hf.exit_lt horder hfuel
  refine ⟨D, hrun, fun h hh d => (hD h hh d).trans ⟨fun hd => hd.2, fun hd => ⟨?_, hd⟩⟩⟩
  exact hf.pdom_lt hh hd

/-! ## The immediate post-dominators -/

/-- What the loops leave in `Tmp_ids`: the immediate post-dominator, and of the
exit nothing. -/
theorem FunctionInfo.ReachesExit.tmp_ids (hf : f.ReachesExit) {D : Nat → Finset Nat}
    (hD : ∀ h < f.m_basic_blocks.length, ∀ d, d ∈ D h ↔ PostDominates f.succ f.exit d h)
    {ipdom : Nat → Nat}
    (hip : ∀ h < f.exit, ImmediatePostDominator f.succ f.exit (ipdom h) h) {h : Nat}
    (hh : h < f.m_basic_blocks.length) :
    (block (findNearest postdominance (List.range (f.m_basic_blocks.length - 1))
        (withSets postdominance f.m_basic_blocks D)) h).Tmp_ids =
      if h < f.exit then {ipdom h} else ∅ := by
  have hids : ∀ i < f.m_basic_blocks.length,
      postdominance.ids (block (withSets postdominance f.m_basic_blocks D) i) = D i :=
    fun i hi => ids_withSets D hi
  unfold findNearest
  rw [block_mapIdx _ (by simpa using hh)]
  simp only [hids h hh, List.mem_range]
  split
  · rename_i hlt
    have hne : h < f.exit := hlt
    rw [if_pos hne]
    have hdom := hip h hne
    have hmem : ∀ e ∈ (D h).erase h, StrictlyPostDominates f.succ f.exit e h := by
      intro e he
      obtain ⟨heh, he⟩ := Finset.mem_erase.mp he
      exact ⟨heh, (hD h hh e).mp he⟩
    have hdlt := hf.pdom_lt hh hdom.strict.2
    apply eraseAllBeyond_eq
    · exact Finset.mem_erase.mpr ⟨hdom.strict.1, (hD h hh _).mpr hdom.strict.2⟩
    · intro e he
      rw [hids _ hdlt]
      exact (hD _ hdlt e).mpr (hdom.first e (hmem e he))
    · intro e he hed
      have helt := hf.pdom_lt hh (hmem e he).2
      obtain ⟨ns, hw⟩ := hf.walk h hh
      rw [hids e helt, hD e helt]
      exact hdom.not_beyond hw (hmem e he) hed
  · rename_i hge
    have heq : h = f.exit := by
      unfold FunctionInfo.exit
      omega
    rw [if_neg (by omega)]
    ext e
    rw [Finset.mem_erase, hD h hh]
    simp only [Finset.notMem_empty, iff_false, not_and]
    intro hne hpd
    rw [heq] at hpd hne
    exact hne hpd.at_exit

/-- The last loop of `find_ipostdominators`. -/
def storeNearest (b : BasicBlock) : BasicBlock :=
  { b with immediatepostdominator_id := firstOr b.Tmp_ids b.immediatepostdominator_id }

/-- Both assertions hold where every block but the last is left one element. -/
theorem find_ipostdominators_ok {bs thinned : List BasicBlock} (htwo : 2 ≤ bs.length)
    (hids : idsInOrder bs = true)
    (hthin : thinned = findNearest postdominance (List.range (bs.length - 1)) bs)
    {ipdom : Nat → Nat}
    (htmp : ∀ h < bs.length, (block thinned h).Tmp_ids =
      if h < bs.length - 1 then {ipdom h} else ∅) :
    find_ipostdominators bs = .ok (thinned.map storeNearest) := by
  have hlen : thinned.length = bs.length := by simp [hthin, findNearest]
  have hsize : (thinned.any fun b => 1 < b.Tmp_ids.card) = false := by
    rw [Bool.eq_false_iff, ne_eq, any_blocks, hlen]
    rintro ⟨i, hi, hcard⟩
    rw [htmp i hi] at hcard
    split at hcard <;> simp at hcard
  have hnum : (thinned.countP fun b => b.Tmp_ids ≠ ∅) = bs.length - 1 := by
    rw [countP_blocks, hlen]
    have hset : ((Finset.range bs.length).filter fun i =>
        decide ((block thinned i).Tmp_ids ≠ ∅) = true) = Finset.range (bs.length - 1) := by
      ext i
      simp only [Finset.mem_filter, Finset.mem_range, decide_eq_true_eq]
      constructor
      · rintro ⟨hi, hne⟩
        rw [htmp i hi] at hne
        by_contra hge
        exact hne (if_neg hge)
      · intro hi
        have hi' : i < bs.length := by omega
        rw [htmp i hi', if_pos hi]
        exact ⟨hi', Finset.singleton_ne_empty _⟩
    rw [hset, Finset.card_range]
  unfold find_ipostdominators
  simp only [hids, Bool.not_true, Bool.false_eq_true, or_false]
  rw [if_neg (by omega), ← hthin, hsize, if_neg (by simp), hnum, if_neg (by simp)]
  rfl

/-- `find_ipostdominators` meets its assertions, and every block but the exit
gets its immediate post-dominator. -/
theorem FunctionInfo.ReachesExit.find_ipostdominators (hf : f.ReachesExit) {D : Nat → Finset Nat}
    (hD : ∀ h < f.m_basic_blocks.length, ∀ d, d ∈ D h ↔ PostDominates f.succ f.exit d h) :
    ∃ bs, gpgpu_sim_uvm.find_ipostdominators (withSets postdominance f.m_basic_blocks D) =
        .ok bs ∧ bs.length = f.m_basic_blocks.length ∧
      (∀ h < f.m_basic_blocks.length,
        (block bs h).ptx_begin = (block f.m_basic_blocks h).ptx_begin ∧
          (block bs h).ptx_end = (block f.m_basic_blocks h).ptx_end) ∧
      ∀ h < f.exit, ∃ d : Nat, (block bs h).immediatepostdominator_id = d ∧
        ImmediatePostDominator f.succ f.exit d h := by
  have hall : ∀ h, ∃ d, h < f.exit → ImmediatePostDominator f.succ f.exit d h := by
    intro h
    by_cases hh : h < f.exit
    · obtain ⟨ns, hw⟩ := hf.walk h (hh.trans hf.exit_lt)
      obtain ⟨d, hd⟩ := hw.immediatePostDominator (Nat.ne_of_lt hh)
      exact ⟨d, fun _ => hd⟩
    · exact ⟨0, fun h => absurd h hh⟩
  choose ipdom hip using hall
  have htmp : ∀ h < (withSets postdominance f.m_basic_blocks D).length,
      (block (findNearest postdominance
          (List.range ((withSets postdominance f.m_basic_blocks D).length - 1))
          (withSets postdominance f.m_basic_blocks D)) h).Tmp_ids =
        if h < (withSets postdominance f.m_basic_blocks D).length - 1 then {ipdom h} else ∅ := by
    intro h hh
    rw [length_withSets] at hh ⊢
    exact hf.tmp_ids hD hip hh
  have hids : idsInOrder (withSets postdominance f.m_basic_blocks D) = true := by
    refine idsInOrder_iff.mpr fun i hi => ?_
    rw [length_withSets] at hi
    rw [block_withSets D hi, postdominance.bb_id_set, hf.bb_id i hi]
  have hrun := find_ipostdominators_ok (by simpa using hf.two) hids rfl htmp
  refine ⟨_, hrun, by simp [findNearest], fun h hh => ?_, fun h hh => ⟨ipdom h, ?_, hip h hh⟩⟩
  · simp [block, findNearest, withSets, postdominance, storeNearest, hh]
  · have hlt := hh.trans hf.exit_lt
    have hinner : h < f.m_basic_blocks.length - 1 := hh
    have hblock := htmp h (by simpa using hlt)
    rw [length_withSets, if_pos hinner, block_eq (by simpa [findNearest] using hlt)] at hblock
    rw [block_eq (by simpa [findNearest] using hlt), List.getElem_map, storeNearest]
    simp only [length_withSets, hblock, firstOr_singleton]

/-! ## The pairs -/

theorem mapM_some {α β : Type} {g : α → Option β} {R : α → β → Prop} {l : List α}
    (h : ∀ a ∈ l, ∃ b, g a = some b ∧ R a b) : ∃ bs, l.mapM g = some bs ∧ List.Forall₂ R l bs := by
  induction l with
  | nil => exact ⟨[], rfl, .nil⟩
  | cons a l ih =>
    obtain ⟨b, hb, hR⟩ := h a (by simp)
    obtain ⟨bs, hbs, hall⟩ := ih fun x hx => h x (List.mem_cons_of_mem _ hx)
    exact ⟨b :: bs, by simp [hb, hbs], .cons hR hall⟩

/-- The pair of the branch that ends block `i`: it goes to the first
instruction of the immediate post-dominator, or where that is the exit block,
back to the caller. -/
def FunctionInfo.Reconverges (f : FunctionInfo) (i : Nat) (p : ReconPoint) : Prop :=
  (block f.m_basic_blocks i).ptx_end = some p.source_inst ∧
    p.source_pc = f.get_PC p.source_inst ∧
    ∃ d, ImmediatePostDominator f.succ f.exit d i ∧
      (d = f.exit → p.target_inst = none ∧ p.target_pc = RECONVERGE_RETURN_PC) ∧
      (d ≠ f.exit → ∃ q, (block f.m_basic_blocks d).ptx_begin = some q ∧
        p.target_inst = some q ∧ p.target_pc = f.get_PC q)

/-- The blocks that end in a branch are those of the instructions. -/
theorem branchBlocks_congr {bs : List BasicBlock} (hlen : bs.length = f.m_basic_blocks.length)
    (hsame : ∀ h < f.m_basic_blocks.length,
      (block bs h).ptx_end = (block f.m_basic_blocks h).ptx_end) :
    FunctionInfo.branchBlocks { f with m_basic_blocks := bs } = f.branchBlocks := by
  unfold FunctionInfo.branchBlocks
  simp only [hlen]
  refine List.filter_congr fun i hi => ?_
  have hi : i < f.m_basic_blocks.length - 1 := List.mem_range.mp hi
  unfold FunctionInfo.endsInBranch
  simp only [hsame i (by omega)]

theorem FunctionInfo.ReachesExit.get_reconvergence_pairs (hf : f.ReachesExit)
    {bs : List BasicBlock} (hlen : bs.length = f.m_basic_blocks.length)
    (hsame : ∀ h < f.m_basic_blocks.length,
      (block bs h).ptx_begin = (block f.m_basic_blocks h).ptx_begin ∧
        (block bs h).ptx_end = (block f.m_basic_blocks h).ptx_end)
    (hip : ∀ h < f.exit, ∃ d : Nat, (block bs h).immediatepostdominator_id = d ∧
      ImmediatePostDominator f.succ f.exit d h) :
    ∃ pairs, FunctionInfo.get_reconvergence_pairs { f with m_basic_blocks := bs } = some pairs ∧
      List.Forall₂ f.Reconverges f.branchBlocks pairs := by
  unfold FunctionInfo.get_reconvergence_pairs
  rw [branchBlocks_congr hlen fun h hh => (hsame h hh).2]
  refine mapM_some fun i hi => ?_
  have hi : i < f.exit := List.mem_range.mp (List.mem_filter.mp hi).1
  have hilt := hi.trans hf.exit_lt
  obtain ⟨source, hsource⟩ := hf.last i hi
  obtain ⟨d, hid, hdom⟩ := hip i hi
  have hdlt := hf.pdom_lt hilt hdom.strict.2
  have hbegin := (hsame d hdlt).1
  unfold FunctionInfo.reconPoint
  simp only [(hsame i hilt).2, hsource, hid, Option.bind_some]
  by_cases hexit : d = f.exit
  · have hnone : (block bs d).ptx_begin = none := by rw [hbegin, hexit, hf.empty]
    simp only [hnone]
    exact ⟨_, rfl, hsource, rfl, d, hdom, fun _ => ⟨rfl, rfl⟩, fun h => absurd hexit h⟩
  · obtain ⟨q, hq⟩ := hf.first d (by unfold FunctionInfo.exit at hexit ⊢; omega)
    have hsome : (block bs d).ptx_begin = some q := by rw [hbegin, hq]
    simp only [hsome]
    exact ⟨_, rfl, hsource, rfl, d, hdom, fun h => absurd h hexit, fun _ => ⟨q, hq, rfl, rfl⟩⟩

/-- On every graph whose blocks reach the exit the analysis of post-dominators
ends, its sets and its immediate post-dominators are those of the walks, and
every branch gets the first instruction of the latter. -/
theorem branches_reconverge_at_immediate_postdominators (hf : f.ReachesExit) {fuel : Nat}
    (hfuel : f.m_basic_blocks.length * f.m_basic_blocks.length < fuel) :
    ∃ bs₁ bs₂ pairs,
      find_postdominators fuel f.m_basic_blocks = .ok bs₁ ∧
      (∀ h < f.m_basic_blocks.length, ∀ d,
        d ∈ (block bs₁ h).postdominator_ids ↔ PostDominates f.succ f.exit d h) ∧
      find_ipostdominators bs₁ = .ok bs₂ ∧
      (∀ h < f.exit, ∃ d : Nat, (block bs₂ h).immediatepostdominator_id = d ∧
        ImmediatePostDominator f.succ f.exit d h) ∧
      FunctionInfo.get_reconvergence_pairs { f with m_basic_blocks := bs₂ } = some pairs ∧
      List.Forall₂ f.Reconverges f.branchBlocks pairs := by
  obtain ⟨D, hpost, hD⟩ := hf.find_postdominators hfuel
  obtain ⟨bs₂, hipost, hlen, hsame, hip⟩ := hf.find_ipostdominators hD
  obtain ⟨pairs, hpairs, hall⟩ := hf.get_reconvergence_pairs hlen hsame hip
  refine ⟨_, bs₂, pairs, hpost, fun h hh d => ?_, hipost, hip, hpairs, hall⟩
  have hids : postdominance.ids (block (withSets postdominance f.m_basic_blocks D) h) = D h :=
    ids_withSets D hh
  exact (iff_of_eq (congrArg (d ∈ ·) hids)).trans (hD h hh d)

end

/-- A loop around a branch: block 0 may skip block 1, and block 2 may go back. -/
def loopWithBranch : FunctionInfo where
  m_instructions :=
    [.label 7, .real .BRA_OP true 8 false, .real .OTHER false 0 false, .label 8,
      .real .BRA_OP true 7 false, .real .EXIT_OP false 0 false]
  m_start_PC := 0
  m_basic_blocks :=
    [{ bb_id := 0, ptx_begin := some 1, ptx_end := some 1, is_entry := true,
       predecessor_ids := {2}, successor_ids := {1, 2} },
      { bb_id := 1, ptx_begin := some 2, ptx_end := some 2,
        predecessor_ids := {0}, successor_ids := {2} },
      { bb_id := 2, ptx_begin := some 4, ptx_end := some 4,
        predecessor_ids := {0, 1}, successor_ids := {0, 3} },
      { bb_id := 3, ptx_begin := some 5, ptx_end := some 5,
        predecessor_ids := {2}, successor_ids := {4} },
      { bb_id := 4, is_exit := true, predecessor_ids := {3} }]

theorem loopWithBranch_reachesExit : loopWithBranch.ReachesExit where
  two := by decide
  bb_id := by decide
  edges := by decide
  fresh := by decide
  first i hi := by
    have hi : i < 4 := hi
    interval_cases i <;> exact ⟨_, rfl⟩
  last i hi := by
    have hi : i < 4 := hi
    interval_cases i <;> exact ⟨_, rfl⟩
  empty := rfl
  walk i hi := by
    have hi : i < 5 := hi
    have succ : ∀ {a b : Nat}, b ∈ (block loopWithBranch.m_basic_blocks a).successor_ids →
        loopWithBranch.succ a b := id
    have h4 : Walk loopWithBranch.succ loopWithBranch.exit 4 [4] := .stop
    have h3 := Walk.step (succ (a := 3) (b := 4) (by decide)) h4
    have h2 := Walk.step (succ (a := 2) (b := 3) (by decide)) h3
    have h1 := Walk.step (succ (a := 1) (b := 2) (by decide)) h2
    have h0 := Walk.step (succ (a := 0) (b := 2) (by decide)) h2
    interval_cases i
    exacts [⟨_, h0⟩, ⟨_, h1⟩, ⟨_, h2⟩, ⟨_, h3⟩, ⟨_, h4⟩]

/-- The two branches of the loop. -/
theorem branches_of_the_loop_reconverge :
    ∃ bs₁ bs₂ pairs,
      find_postdominators 26 loopWithBranch.m_basic_blocks = .ok bs₁ ∧
      (∀ h < 5, ∀ d, d ∈ (block bs₁ h).postdominator_ids ↔
        PostDominates loopWithBranch.succ loopWithBranch.exit d h) ∧
      find_ipostdominators bs₁ = .ok bs₂ ∧
      (∀ h < 4, ∃ d : Nat, (block bs₂ h).immediatepostdominator_id = d ∧
        ImmediatePostDominator loopWithBranch.succ loopWithBranch.exit d h) ∧
      FunctionInfo.get_reconvergence_pairs { loopWithBranch with m_basic_blocks := bs₂ } =
        some pairs ∧
      List.Forall₂ loopWithBranch.Reconverges [0, 2] pairs :=
  branches_reconverge_at_immediate_postdominators loopWithBranch_reachesExit (by decide)

end gpgpu_sim_uvm
