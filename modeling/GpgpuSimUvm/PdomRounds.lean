-- The rounds of do_pdom: what a round needs to come to its end, what it keeps,
-- and how many blocks there can be in all.
import GpgpuSimUvm.BreakLinks
import Mathlib.Data.Set.Finite.List

namespace gpgpu_sim_uvm

open control_flow

/-- What the blocks of `create_basic_blocks` have to do with the instructions. -/
structure FunctionInfo.Placed (f : FunctionInfo) (base : List BasicBlock) : Prop where
  ends : ∀ i < base.length, (block base i).is_exit = false → ∃ p, (block base i).ptx_end = some p
  own : ∀ i p, f.EndsInBreak (block base) i p → f.m_bb[p]? = some i
  next : ∀ i p, f.EndsInBreak (block base) i p →
    ∃ next_bb, (f.next_addr p).bind f.bbAt = some next_bb
  bb_lt : ∀ addr b, f.bbAt addr = some b → b < base.length

section

variable {f : FunctionInfo} {base bs : List BasicBlock} {S P : Nat → Finset Nat} {fuel : Nat}

/-! ## One break -/

theorem Linked.cut_fields (h : Linked base bs) (i : Nat) :
    (block bs i).is_exit = (block base i).is_exit ∧
      (block bs i).ptx_begin = (block base i).ptx_begin ∧
      (block bs i).ptx_end = (block base i).ptx_end :=
  ⟨(congrArg BasicBlock.is_exit (h.cut i) :), (congrArg BasicBlock.ptx_begin (h.cut i) :),
    (congrArg BasicBlock.ptx_end (h.cut i) :)⟩

theorem Linked.endsInBreak_iff (h : Linked base bs) {i p : Nat} :
    f.EndsInBreak (block bs) i p ↔ f.EndsInBreak (block base) i p := by
  obtain ⟨hexit, -, hend⟩ := h.cut_fields i
  unfold FunctionInfo.EndsInBreak
  rw [hexit, hend]

theorem Linked.breakaddrIn_eq (h : Linked base bs) (i : Nat) :
    f.breakaddrIn (block bs i) = f.breakaddrIn (block base i) := by
  obtain ⟨-, hbegin, hend⟩ := h.cut_fields i
  unfold FunctionInfo.breakaddrIn
  rw [hbegin, hend]

theorem FunctionInfo.EndsInBreak.lt {i p : Nat} (h : f.EndsInBreak (block bs) i p) :
    i < bs.length := by
  by_contra hge
  have hend := h.2.1
  rw [block_of_ge (Nat.not_lt.mp hge)] at hend
  simp at hend

theorem find_break_target_withEdges (i : Nat) :
    f.find_break_target (withEdges bs S P) fuel i = f.find_break_target bs fuel i := by
  induction fuel generalizing i with
  | zero => rfl
  | succ fuel ih =>
    have hin : f.breakaddrIn (block (withEdges bs S P) i) = f.breakaddrIn (block bs i) := by
      rw [block_withEdges_rest i]
      rfl
    have hidom : (block (withEdges bs S P) i).immediatedominator_id =
        (block bs i).immediatedominator_id := by
      rw [block_withEdges_rest i]
    unfold FunctionInfo.find_break_target
    rw [hin, hidom]
    simp only [ih]

theorem breakTargets_withEdges (p : Nat) :
    f.breakTargets fuel (withEdges bs S P) p = f.breakTargets fuel bs p := by
  unfold FunctionInfo.breakTargets
  simp only [find_break_target_withEdges]

/-- A break has targets just if the search finds a label of an instruction. -/
theorem FunctionInfo.Placed.breakTargets_iff (hf : f.Placed base) (h : Linked base bs) {i p : Nat}
    (hi : f.EndsInBreak (block bs) i p) :
    (∃ fuel targets, f.breakTargets fuel bs p = .ok targets) ↔
      f.FindsTarget (block bs) (IdomField bs) i := by
  have hown := hf.own i p (h.endsInBreak_iff.mp hi)
  obtain ⟨next_bb, hnext⟩ := hf.next i p (h.endsInBreak_iff.mp hi)
  obtain ⟨pI, hpI, -⟩ := Option.bind_eq_some_iff.mp hi.2.2
  constructor
  · rintro ⟨fuel, targets, hrun⟩
    unfold FunctionInfo.breakTargets at hrun
    simp only [hown, hpI] at hrun
    split at hrun
    · simp at hrun
    · rename_i name hname
      split at hrun
      · simp at hrun
      · rename_i target_bb htarget
        exact ⟨name, target_bb, find_break_target_iff.mp ⟨fuel, hname⟩, htarget⟩
  · rintro ⟨name, target_bb, hfinds, htarget⟩
    obtain ⟨fuel, hname⟩ := find_break_target_iff.mpr hfinds
    unfold FunctionInfo.breakTargets
    simp only [hown, hpI]
    refine ⟨fuel, if pI.has_pred then [target_bb, next_bb] else [target_bb], ?_⟩
    simp only [hname, htarget, hnext]
    cases pI.has_pred <;> rfl

theorem FunctionInfo.Placed.breakTargets_lt (hf : f.Placed base) {p : Nat} {targets : List Nat}
    (h : f.breakTargets fuel bs p = .ok targets) : ∀ b ∈ targets, b < base.length := by
  unfold FunctionInfo.breakTargets at h
  split at h
  · split at h
    · simp at h
    · split at h
      · simp at h
      · rename_i target_bb htarget
        have htarget := hf.bb_lt _ _ htarget
        split at h
        · split at h
          · simp at h
          · rename_i next_bb hnext
            obtain ⟨addr, -, hnext⟩ := Option.bind_eq_some_iff.mp hnext
            obtain rfl := Except.ok.inj h
            simp [htarget, hf.bb_lt _ _ hnext]
        · obtain rfl := Except.ok.inj h
          simp [htarget]
  · simp at h

/-- A turn of the loop over the blocks gives a break its targets. -/
theorem connectBreak_break {i p : Nat} (hi : f.EndsInBreak (block bs) i p) {c : Bool} :
    f.connectBreak fuel (withEdges bs S P, c) i =
      (f.breakTargets fuel bs p).map fun targets =>
        (withEdges bs (Function.update S i targets.toFinset) (relinkedPreds S P i targets),
          c || decide (S i ≠ targets.toFinset)) := by
  have hblock := block_withEdges (S := S) (P := P) hi.lt
  obtain ⟨hexit, hend, hop⟩ := id hi
  unfold FunctionInfo.connectBreak
  simp only [hblock, hexit, hend, hop, Bool.false_eq_true, if_false, if_true]
  have htargets : f.breakTargets fuel (unlink (withEdges bs S P) i) p =
      f.breakTargets fuel bs p := by
    rw [unlink_withEdges hi.lt, breakTargets_withEdges]
  rw [htargets]
  rcases f.breakTargets fuel bs p with e | targets
  · rfl
  · simp only [relink_withEdges hi.lt, block_withEdges hi.lt, Function.update_self]
    rfl

/-- It leaves other blocks alone. -/
theorem FunctionInfo.Placed.connectBreak_other (hf : f.Placed base) (h : Linked base bs) {i : Nat}
    (hi : i < bs.length) (hno : ¬ ∃ p, f.EndsInBreak (block bs) i p) {c : Bool} :
    f.connectBreak fuel (withEdges bs S P, c) i = .ok (withEdges bs S P, c) := by
  have hblock := block_withEdges (S := S) (P := P) hi
  unfold FunctionInfo.connectBreak
  simp only [hblock]
  by_cases hexit : (block bs i).is_exit = true
  · rw [if_pos hexit]
  · rw [if_neg hexit]
    rw [Bool.not_eq_true] at hexit
    obtain ⟨p, hp⟩ : ∃ p, (block bs i).ptx_end = some p := by
      rw [(h.cut_fields i).2.2]
      refine hf.ends i (h.length ▸ hi) ?_
      rw [← (h.cut_fields i).1, hexit]
    have hop : ¬ (f.m_instructions[p]?.bind PtxInstruction.get_opcode) = some .BREAK_OP :=
      fun hop => hno ⟨p, hexit, hp, hop⟩
    simp only [hp, if_neg hop]

/-! ## All breaks -/

/-- Where the loop over some of the blocks comes to its end, their breaks have
targets, and only the edges are new. -/
theorem FunctionInfo.Placed.connectBreaks_some (hf : f.Placed base) (h : Linked base bs)
    {l : List Nat} (hl : ∀ i ∈ l, i < bs.length) (hE : EdgeSets base.length S P) {c : Bool}
    {r : List BasicBlock × Bool}
    (hrun : l.foldlM (f.connectBreak fuel) (withEdges bs S P, c) = .ok r) :
    (∃ S' P', r.1 = withEdges bs S' P' ∧ EdgeSets base.length S' P') ∧
      ∀ i ∈ l, ∀ p, f.EndsInBreak (block bs) i p →
        ∃ targets, f.breakTargets fuel bs p = .ok targets := by
  induction l generalizing S P c with
  | nil =>
    obtain rfl : (withEdges bs S P, c) = r := by simpa [pure, Except.pure] using hrun
    exact ⟨⟨S, P, rfl, hE⟩, by simp⟩
  | cons i l ih =>
    obtain ⟨u, hi, hrest⟩ := foldlM_ok_cons.mp hrun
    have hl' : ∀ j ∈ l, j < bs.length := fun j hj => hl j (List.mem_cons_of_mem _ hj)
    have hilt := hl i (by simp)
    by_cases hbreak : ∃ p, f.EndsInBreak (block bs) i p
    · obtain ⟨p, hp⟩ := hbreak
      rw [connectBreak_break hp] at hi
      rcases htargets : f.breakTargets fuel bs p with e | targets
      · simp [htargets, Except.map] at hi
      · rw [htargets] at hi
        obtain rfl := Except.ok.inj hi
        have hE' := hE.relink (h.length ▸ hilt) (hf.breakTargets_lt htargets)
        obtain ⟨hr, hall⟩ := ih hl' hE' hrest
        refine ⟨hr, fun j hj q hq => ?_⟩
        rcases List.mem_cons.mp hj with rfl | hj
        · obtain rfl : q = p := Option.some.inj (hq.2.1.symm.trans hp.2.1)
          exact ⟨targets, htargets⟩
        · exact hall j hj q hq
    · rw [hf.connectBreak_other h hilt hbreak] at hi
      obtain rfl := Except.ok.inj hi
      obtain ⟨hr, hall⟩ := ih hl' hE hrest
      refine ⟨hr, fun j hj q hq => ?_⟩
      rcases List.mem_cons.mp hj with rfl | hj
      · exact absurd ⟨q, hq⟩ hbreak
      · exact hall j hj q hq

/-- Where the breaks have targets, the loop comes to its end. -/
theorem FunctionInfo.Placed.connectBreaks_ok (hf : f.Placed base) (h : Linked base bs)
    {l : List Nat} (hl : ∀ i ∈ l, i < bs.length)
    (hall : ∀ i ∈ l, ∀ p, f.EndsInBreak (block bs) i p →
      ∃ fuel targets, f.breakTargets fuel bs p = .ok targets)
    (S P : Nat → Finset Nat) (c : Bool) :
    ∃ fuel r, l.foldlM (f.connectBreak fuel) (withEdges bs S P, c) = .ok r := by
  induction l generalizing S P c with
  | nil => exact ⟨0, _, rfl⟩
  | cons i l ih =>
    have hi : ∃ fuel S' P' c', f.connectBreak fuel (withEdges bs S P, c) i =
        .ok (withEdges bs S' P', c') := by
      by_cases hbreak : ∃ p, f.EndsInBreak (block bs) i p
      · obtain ⟨p, hp⟩ := hbreak
        obtain ⟨fuel, targets, htargets⟩ := hall i (by simp) p hp
        exact ⟨fuel, _, _, _, by rw [connectBreak_break hp, htargets]; rfl⟩
      · exact ⟨0, S, P, c, hf.connectBreak_other h (hl i (by simp)) hbreak⟩
    obtain ⟨m, S', P', c', hi⟩ := hi
    obtain ⟨n, r, hrest⟩ := ih (fun j hj => hl j (List.mem_cons_of_mem _ hj))
      (fun j hj => hall j (List.mem_cons_of_mem _ hj)) S' P' c'
    refine ⟨max m n, r, foldlM_ok_cons.mpr ⟨(withEdges bs S' P', c'), ?_, ?_⟩⟩
    · exact connectBreak_mono (Nat.le_max_left m n) _ _ _ hi
    · exact foldlM_mono (connectBreak_mono (Nat.le_max_right m n)) hrest

/-- Without breaks the loop does nothing. -/
theorem FunctionInfo.Placed.connectBreaks_none (hf : f.Placed base) (h : Linked base bs)
    {l : List Nat} (hl : ∀ i ∈ l, i < bs.length)
    (hno : ∀ i p, ¬ f.EndsInBreak (block bs) i p) :
    l.foldlM (f.connectBreak fuel) (bs, false) = .ok (bs, false) := by
  induction l with
  | nil => rfl
  | cons i l ih =>
    have hi : f.connectBreak fuel (bs, false) i = .ok (bs, false) := by
      have hother : f.connectBreak fuel (withEdges bs (fun i => (block bs i).successor_ids)
          fun i => (block bs i).predecessor_ids, false) i = .ok (withEdges bs _ _, false) :=
        hf.connectBreak_other h (hl i (by simp)) fun ⟨p, hp⟩ => hno i p hp
      rwa [withEdges_self] at hother
    exact foldlM_ok_cons.mpr ⟨_, hi, ih fun j hj => hl j (List.mem_cons_of_mem _ hj)⟩

/-- `connect_break_targets` ends just if every break finds where it goes. -/
theorem FunctionInfo.Placed.connect_break_targets_iff (hf : f.Placed base) (h : Linked base bs) :
    (∃ fuel r, f.connect_break_targets fuel bs = .ok r) ↔
      ∀ i p, f.EndsInBreak (block bs) i p → f.FindsTarget (block bs) (IdomField bs) i := by
  have hrange : ∀ i ∈ List.range bs.length, i < bs.length := fun i hi => List.mem_range.mp hi
  unfold FunctionInfo.connect_break_targets
  constructor
  · rintro ⟨fuel, r, hrun⟩ i p hp
    rw [← withEdges_self bs, length_withEdges] at hrun
    obtain ⟨-, hall⟩ := hf.connectBreaks_some h hrange h.edgeSets hrun
    exact (hf.breakTargets_iff h hp).mp ⟨fuel, hall i (List.mem_range.mpr hp.lt) p hp⟩
  · intro hall
    obtain ⟨fuel, r, hrun⟩ := hf.connectBreaks_ok h hrange
      (fun i _ p hp => (hf.breakTargets_iff h hp).mpr (hall i p hp))
      (fun i => (block bs i).successor_ids) (fun i => (block bs i).predecessor_ids) false
    rw [withEdges_self] at hrun
    exact ⟨fuel, r, hrun⟩

theorem FunctionInfo.Placed.connect_break_targets_linked (hf : f.Placed base) (h : Linked base bs)
    {r : List BasicBlock × Bool} (hrun : f.connect_break_targets fuel bs = .ok r) :
    Linked base r.1 := by
  unfold FunctionInfo.connect_break_targets at hrun
  rw [← withEdges_self bs, length_withEdges] at hrun
  obtain ⟨⟨S, P, hr, hE⟩, -⟩ :=
    hf.connectBreaks_some h (fun i hi => List.mem_range.mp hi) h.edgeSets hrun
  rw [hr]
  exact h.withEdges hE

/-! ## One round -/

theorem DominatorSets.idomField_iff {D : Nat → Finset Nat} (hD : DominatorSets bs D)
    (h : Linked base bs) (hbase : IdsInOrder base) (i d : Nat) :
    IdomField (withIdoms bs D) i d ↔ Above bs i d := by
  rcases Nat.lt_or_ge i bs.length with hi | hi
  · exact hD.idom_iff h hbase hi
  · have hnone : ∀ cs : List BasicBlock, cs.length ≤ i →
        (block cs i).immediatedominator_id ≠ (d : Int) := by
      intro cs hcs
      rw [block_of_ge hcs]
      simp
    constructor
    · intro hcon
      exact absurd hcon (hnone _ (by simpa using hi))
    · rintro (⟨hr, -⟩ | ⟨-, -, hkept⟩ | ⟨hs, -⟩ | ⟨hs, -, -⟩)
      · have := h.reached_lt hbase hr
        omega
      · exact absurd hkept (hnone bs hi)
      · have := hs.lt
        omega
      · have := hs.lt
        omega

/-- The breaks of the blocks find their targets on the way up that a round
gives them. -/
theorem DominatorSets.findsTarget_iff {D : Nat → Finset Nat} (hD : DominatorSets bs D)
    (h : Linked base bs) (hbase : IdsInOrder base) (i : Nat) :
    f.FindsTarget (block (withIdoms bs D)) (IdomField (withIdoms bs D)) i ↔
      f.FindsTarget (block bs) (Above bs) i := by
  have hblocks : ∀ j, f.breakaddrIn (block (withIdoms bs D) j) = f.breakaddrIn (block bs j) := by
    intro j
    rw [(hD.withIdoms_linked h hbase).breakaddrIn_eq, h.breakaddrIn_eq]
  constructor
  · rintro ⟨name, target_bb, hfinds, htarget⟩
    exact ⟨name, target_bb,
      hfinds.congr (fun j d => (hD.idomField_iff h hbase j d).mp) hblocks, htarget⟩
  · rintro ⟨name, target_bb, hfinds, htarget⟩
    exact ⟨name, target_bb,
      hfinds.congr (fun j d => (hD.idomField_iff h hbase j d).mpr) fun j => (hblocks j).symm,
      htarget⟩

/-- What a round needs of the blocks that it starts from. -/
structure FunctionInfo.RoundEnds (f : FunctionInfo) (bs : List BasicBlock) : Prop where
  entry : ∀ a, ¬ Edge bs a 0
  breaks : ∀ i p, f.EndsInBreak (block bs) i p → f.FindsTarget (block bs) (Above bs) i

theorem Linked.entry_iff (h : Linked base bs) :
    (block bs 0).predecessor_ids = ∅ ↔ ∀ a, ¬ Edge bs a 0 := by
  rw [Finset.eq_empty_iff_forall_notMem]
  exact forall_congr' fun a => not_congr (h.edges a 0).symm

/-- The sets of a round are determined. -/
theorem DominatorSets.unique {D D' : Nat → Finset Nat} (hD : DominatorSets bs D)
    (hD' : DominatorSets bs D') : D = D' := by
  funext b
  by_cases hr : Reached bs b
  · ext d
    rw [hD.exact b hr, hD'.exact b hr]
  · by_cases hnone : (block bs b).predecessor_ids = ∅
    · rw [hD.rest b hr hnone, hD'.rest b hr hnone]
    · rw [hD.stray b ⟨hr, hnone⟩, hD'.stray b ⟨hr, hnone⟩]

/-- A round with enough fuel for the dominators. -/
theorem Linked.pdomRound (h : Linked base bs) (hbase : IdsInOrder base) (f : FunctionInfo) :
    ∃ D, DominatorSets bs D ∧ ∀ fuel, bs.length * bs.length < fuel →
      f.pdomRound fuel bs =
        if (block bs 0).predecessor_ids = ∅ then f.connect_break_targets fuel (withIdoms bs D)
        else .error (.abort .assertion) := by
  obtain ⟨D, -, hD⟩ := h.find_dominators hbase (Nat.lt_succ_self _)
  refine ⟨D, hD, fun fuel hfuel => ?_⟩
  obtain ⟨D', hrun, hD'⟩ := h.find_dominators hbase hfuel
  obtain rfl := hD.unique hD'
  unfold FunctionInfo.pdomRound
  simp only [hrun, hD.find_idominators h hbase]
  by_cases hentry : (block bs 0).predecessor_ids = ∅
  · simp only [if_pos hentry]
  · simp only [if_neg hentry]

/-- A round ends just if the entry has no predecessors and every break finds
where it goes. -/
theorem FunctionInfo.Placed.pdomRound_iff (hf : f.Placed base) (h : Linked base bs)
    (hbase : IdsInOrder base) : (∃ fuel r, f.pdomRound fuel bs = .ok r) ↔ f.RoundEnds bs := by
  obtain ⟨D, hD, hround⟩ := h.pdomRound hbase f
  have hlinked := hD.withIdoms_linked h hbase
  have hbreaks : (∃ fuel r, f.connect_break_targets fuel (withIdoms bs D) = .ok r) ↔
      ∀ i p, f.EndsInBreak (block bs) i p → f.FindsTarget (block bs) (Above bs) i := by
    rw [hf.connect_break_targets_iff hlinked]
    refine forall_congr' fun i => forall_congr' fun p => ?_
    rw [hlinked.endsInBreak_iff, h.endsInBreak_iff, hD.findsTarget_iff h hbase]
  constructor
  · rintro ⟨fuel, r, hrun⟩
    have hmore := pdomRound_fuelOnly f fuel (max fuel (bs.length * bs.length + 1)) bs r
      (Nat.le_max_left _ _) hrun
    rw [hround _ (by omega)] at hmore
    split at hmore
    · rename_i hentry
      exact ⟨h.entry_iff.mp hentry, hbreaks.mp ⟨_, r, hmore⟩⟩
    · simp at hmore
  · rintro ⟨hentry, hall⟩
    obtain ⟨fuel, r, hrun⟩ := hbreaks.mpr hall
    refine ⟨max fuel (bs.length * bs.length + 1), r, ?_⟩
    rw [hround _ (by omega), if_pos (h.entry_iff.mpr hentry)]
    exact foldlM_mono (connectBreak_mono (Nat.le_max_left _ _)) hrun

/-- A round leaves the blocks linked. -/
theorem FunctionInfo.Placed.pdomRound_linked (hf : f.Placed base) (h : Linked base bs)
    (hbase : IdsInOrder base) {r : List BasicBlock × Bool} (hrun : f.pdomRound fuel bs = .ok r) :
    Linked base r.1 := by
  obtain ⟨D, hD, hround⟩ := h.pdomRound hbase f
  have hmore := pdomRound_fuelOnly f fuel (max fuel (bs.length * bs.length + 1)) bs r
    (Nat.le_max_left _ _) hrun
  rw [hround _ (by omega)] at hmore
  split at hmore
  · exact hf.connect_break_targets_linked (hD.withIdoms_linked h hbase) hmore
  · simp at hmore

/-! ## All rounds -/

/-- Blocks that some rounds leave of those of the function. -/
def FunctionInfo.AfterRounds (f : FunctionInfo) (bs : List BasicBlock) : Prop :=
  Relation.ReflTransGen (Turns f.pdomRound) f.m_basic_blocks bs

theorem FunctionInfo.Placed.afterRounds_linked (hf : f.Placed base) (hbase : IdsInOrder base)
    (h : Linked base f.m_basic_blocks) (hbs : f.AfterRounds bs) : Linked base bs := by
  induction hbs with
  | refl => exact h
  | tail _ hturn ih =>
    obtain ⟨fuel, hrun⟩ := hturn
    exact hf.pdomRound_linked ih hbase hrun

/-- There are finitely many blocks with ids below `n` that rounds can leave of
one block. -/
theorem finite_within (n : Nat) (c : BasicBlock) : {b : BasicBlock | b.cut = c.cut ∧ b.Within n}.Finite := by
  let ids := (Finset.range n).powerset
  let idoms := insert (-1 : Int) ((Finset.range n).image fun d : Nat => (d : Int))
  refine (Finset.finite_toSet ((ids ×ˢ ids ×ˢ ids ×ˢ ids ×ˢ idoms).image
    fun x => { c with
      predecessor_ids := x.1
      successor_ids := x.2.1
      dominator_ids := x.2.2.1
      Tmp_ids := x.2.2.2.1
      immediatedominator_id := x.2.2.2.2 })).subset ?_
  rintro b ⟨hcut, hb⟩
  rw [Finset.mem_coe, Finset.mem_image]
  refine ⟨(b.predecessor_ids, b.successor_ids, b.dominator_ids, b.Tmp_ids,
    b.immediatedominator_id), ?_, ?_⟩
  · simp only [Finset.mem_product, ids, idoms, Finset.mem_powerset, Finset.mem_insert,
      Finset.mem_image, Finset.mem_range]
    refine ⟨hb.predecessors, hb.successors, hb.dominators, hb.tmp, ?_⟩
    rcases hb.idom with heq | ⟨d, hd, heq⟩
    · exact .inl heq
    · exact .inr ⟨d, hd, heq.symm⟩
  · cases b
    cases c
    simp only [BasicBlock.cut, BasicBlock.mk.injEq] at hcut ⊢
    tauto

/-- There are finitely many lists of blocks that rounds can leave. -/
theorem finite_linked (base : List BasicBlock) : {bs | Linked base bs}.Finite := by
  have hfin : {b : BasicBlock | ∃ c ∈ base, b.cut = c.cut ∧ b.Within base.length}.Finite := by
    have hunion : {b : BasicBlock | ∃ c ∈ base, b.cut = c.cut ∧ b.Within base.length} =
        ⋃ c ∈ {c | c ∈ base}, {b : BasicBlock | b.cut = c.cut ∧ b.Within base.length} := by
      ext b
      simp only [Set.mem_ofPred_eq, Set.mem_iUnion, exists_prop]
    rw [hunion]
    exact (List.finite_toSet base).biUnion fun c _ => finite_within base.length c
  have hsub := hfin.to_subtype
  refine ((List.finite_length_eq {b : BasicBlock | ∃ c ∈ base, b.cut = c.cut ∧ b.Within base.length}
    base.length).image (List.map Subtype.val)).subset ?_
  intro bs hbs
  have hall : ∀ b ∈ bs, ∃ c ∈ base, b.cut = c.cut ∧ b.Within base.length := by
    intro b hb
    obtain ⟨i, hi, rfl⟩ := List.mem_iff_getElem.mp hb
    have hi' : i < base.length := hbs.length ▸ hi
    refine ⟨base[i], List.getElem_mem hi', ?_, ?_⟩
    · rw [← block_eq hi, ← block_eq hi', hbs.cut i]
    · rw [← block_eq hi]
      exact hbs.within i
  refine ⟨bs.attach.map fun b => ⟨b.1, hall b.1 b.2⟩, ?_, ?_⟩
  · change (bs.attach.map _).length = base.length
    rw [List.length_map, List.length_attach]
    exact hbs.length
  · simp

end

end gpgpu_sim_uvm
