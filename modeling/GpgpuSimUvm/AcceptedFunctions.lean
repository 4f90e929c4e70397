-- The functions that the control-flow analysis accepts: those whose entry block
-- is entered from nowhere, and whose breaks find where they go and come to rest.
import GpgpuSimUvm.PdomRounds

namespace gpgpu_sim_uvm

open control_flow

/-! ## The blocks that a function begins with -/

section

variable {f : FunctionInfo} {k : Nat} {s e : Nat → Nat}

theorem Created.bbAt_le (h : Created f k s e) {addr b : Nat} (hb : f.bbAt addr = some b) :
    b ≤ k := by
  obtain ⟨p, hp, hb⟩ := Option.bind_eq_some_iff.mp hb
  have hindex : get_m_instr_mem_index f.m_instructions p = some addr := by
    unfold m_instr_mem at hp
    simpa using List.find?_some hp
  obtain ⟨c, hc, hown, -⟩ := h.owner p (real_of_index hindex).1
  obtain rfl : c = b := Option.some.inj (hown.symm.trans hb)
  exact hc

theorem targetsOf_mem {p b : Nat} {targets : List Nat} (hrun : f.targetsOf p = some targets)
    (hb : b ∈ targets) : b = f.m_basic_blocks.length - 1 ∨ ∃ addr, f.bbAt addr = some b := by
  unfold FunctionInfo.targetsOf at hrun
  dsimp only at hrun
  split at hrun
  · cases hrun
  · split at hrun
    iterate 3
      · split at hrun
        · obtain ⟨addr, -, rfl⟩ := Option.map_eq_some_iff.mp hrun
          split at hb
          · rename_i next_bb hnext
            rcases List.mem_pair.mp hb with rfl | rfl
            · exact .inl rfl
            · exact .inr ⟨addr, hnext⟩
          · exact .inl (List.mem_singleton.mp hb)
        · obtain rfl := Option.some.inj hrun
          exact .inl (List.mem_singleton.mp hb)
    · obtain ⟨target_bb, htarget, hrun⟩ := Option.bind_eq_some_iff.mp hrun
      split at hrun
      · obtain ⟨next_bb, hnext, rfl⟩ := Option.map_eq_some_iff.mp hrun
        obtain ⟨addr, -, hnext⟩ := Option.bind_eq_some_iff.mp hnext
        rcases List.mem_pair.mp hb with rfl | rfl
        · exact .inr ⟨_, htarget⟩
        · exact .inr ⟨addr, hnext⟩
      · obtain rfl := Option.some.inj hrun
        rw [List.mem_singleton.mp hb]
        exact .inr ⟨_, htarget⟩
    · obtain ⟨next_bb, hnext, rfl⟩ := Option.map_eq_some_iff.mp hrun
      obtain ⟨addr, -, hnext⟩ := Option.bind_eq_some_iff.mp hnext
      rw [List.mem_singleton.mp hb]
      exact .inr ⟨addr, hnext⟩

/-- A break falls through until it has its target. -/
theorem next_of_targetsOf_break {p : Nat} {targets : List Nat}
    (hrun : f.targetsOf p = some targets)
    (hop : (f.m_instructions[p]?.bind PtxInstruction.get_opcode) = some .BREAK_OP) :
    ∃ next_bb, (f.next_addr p).bind f.bbAt = some next_bb := by
  obtain ⟨pI, hpI, hop⟩ := Option.bind_eq_some_iff.mp hop
  unfold FunctionInfo.targetsOf at hrun
  simp only [hpI, hop] at hrun
  obtain ⟨next_bb, hnext, -⟩ := Option.map_eq_some_iff.mp hrun
  exact ⟨next_bb, hnext⟩

/-- The edges that `connect_basic_blocks` makes. -/
theorem Created.connected_edges (h : Created f k s e) {f₂ : FunctionInfo}
    (hconnect : f.connect_basic_blocks = some f₂) :
    ∃ S P, f₂ = { f with m_basic_blocks := withEdges f.m_basic_blocks S P } ∧
      EdgeSets f.m_basic_blocks.length S P ∧
      ∀ b ≤ k, ∃ targets, f.targetsOf (e b) = some targets := by
  obtain ⟨-, hsome⟩ := connect_basic_blocks_some hconnect h.fresh
  have hends : ∀ b ≤ k, ∃ targets, f.targetsOf (e b) = some targets := by
    intro b hb
    obtain ⟨targets, htargets⟩ := hsome b (by rw [h.size]; omega) (by rw [h.fields b hb])
    rw [h.fields b hb] at htargets
    exact ⟨targets, htargets⟩
  have hall : ∀ b, ∃ targets, (b ≤ k → f.targetsOf (e b) = some targets) ∧
      (¬ b ≤ k → targets = []) := by
    intro b
    by_cases hb : b ≤ k
    · obtain ⟨targets, ht⟩ := hends b hb
      exact ⟨targets, fun _ => ht, fun hcon => absurd hb hcon⟩
    · exact ⟨[], fun hcon => absurd hcon hb, fun _ => rfl⟩
  choose targets htargets hnone using hall
  have hlt : ∀ b, ∀ c ∈ targets b, c < f.m_basic_blocks.length := by
    intro b c hc
    rw [h.size]
    by_cases hb : b ≤ k
    · rcases targetsOf_mem (htargets b hb) hc with heq | ⟨addr, hat⟩
      · rw [heq, h.size]
        omega
      · have := h.bbAt_le hat
        omega
    · simp [hnone b hb] at hc
  have hout : ∀ b, f.m_basic_blocks.length ≤ b → targets b = [] := by
    intro b hb
    rw [h.size] at hb
    exact hnone b (by omega)
  have hblocks : ∀ i < f.m_basic_blocks.length,
      if (block f.m_basic_blocks i).is_exit then targets i = []
      else (block f.m_basic_blocks i).ptx_end.bind f.targetsOf = some (targets i) := by
    intro i hi
    rw [h.size] at hi
    rcases Nat.lt_or_eq_of_le (Nat.le_of_lt_succ hi) with hle | rfl
    · rw [h.fields i (by omega)]
      simpa using htargets i (by omega)
    · rw [h.exit]
      simpa using hnone (k + 1) (by omega)
  obtain ⟨S, P, hrun, hS, hP⟩ := connect_basic_blocks_eq h.fresh hblocks
  have hS' : withEdges f.m_basic_blocks S P =
      withEdges f.m_basic_blocks (fun i => (targets i).toFinset) P := by
    unfold withEdges
    refine List.ext_getElem (by simp) fun i hi hi' => ?_
    simp only [List.getElem_mapIdx, hS i (by simpa using hi)]
  refine ⟨fun i => (targets i).toFinset, P, ?_, ⟨fun a b => ?_, fun a b hb => ?_, fun b a ha => ?_⟩,
    hends⟩
  · rw [← hS']
    exact Option.some.inj (hconnect.symm.trans hrun)
  · rw [hP, List.mem_toFinset]
    refine (and_iff_right_of_imp fun hb => ?_).symm
    by_contra hge
    rw [hout a (Nat.not_lt.mp hge)] at hb
    simp at hb
  · exact Finset.mem_range.mpr (hlt a b (List.mem_toFinset.mp hb))
  · exact Finset.mem_range.mpr ((hP a b).mp ha).1

end

/-- The blocks of a connected function, before the first round. -/
structure FunctionInfo.Begins (f : FunctionInfo) : Prop where
  placed : f.Placed f.m_basic_blocks
  inOrder : IdsInOrder f.m_basic_blocks
  linked : Linked f.m_basic_blocks f.m_basic_blocks

section

variable {f f₁ f₂ : FunctionInfo}

theorem connected_created (hcreate : f.create_basic_blocks = some f₁)
    (hconnect : f₁.connect_basic_blocks = some f₂) : ∃ k s e, Created f₁ k s e := by
  have htwo : ¬ TwoLeadingLabels f.m_instructions := by
    intro htwo
    rw [connect_two_labels htwo hcreate] at hconnect
    simp at hconnect
  have hreal : find_next_real_instruction f.m_instructions 0 < f.m_instructions.length := by
    by_contra hno
    unfold FunctionInfo.create_basic_blocks at hcreate
    rw [if_neg hno] at hcreate
    simp at hcreate
  obtain ⟨f', k, s, e, hcreate', -, h⟩ := create_basic_blocks_created htwo hreal
  obtain rfl : f₁ = f' := Option.some.inj (hcreate.symm.trans hcreate')
  exact ⟨k, s, e, h⟩

theorem connected_begins (hcreate : f.create_basic_blocks = some f₁)
    (hconnect : f₁.connect_basic_blocks = some f₂) : f₂.Begins := by
  obtain ⟨k, s, e, h⟩ := connected_created hcreate hconnect
  obtain ⟨S, P, rfl, hE, hends⟩ := h.connected_edges hconnect
  have hlen : f₁.m_basic_blocks.length = k + 2 := h.size
  have hfields : ∀ b ≤ k, block (withEdges f₁.m_basic_blocks S P) b =
      { bb_id := b, ptx_begin := some (s b), ptx_end := some (e b), is_entry := decide (b = 0),
        successor_ids := S b, predecessor_ids := P b } := by
    intro b hb
    rw [block_withEdges (by omega), h.fields b hb]
  have hexit : block (withEdges f₁.m_basic_blocks S P) (k + 1) =
      { bb_id := k + 1, is_exit := true, successor_ids := S (k + 1),
        predecessor_ids := P (k + 1) } := by
    rw [block_withEdges (by omega), h.exit]
  have hplain : ∀ i, (block (withEdges f₁.m_basic_blocks S P) i).dominator_ids = ∅ ∧
      (block (withEdges f₁.m_basic_blocks S P) i).Tmp_ids = ∅ ∧
      (block (withEdges f₁.m_basic_blocks S P) i).immediatedominator_id = -1 := by
    intro i
    rcases Nat.lt_trichotomy i (k + 1) with hi | rfl | hi
    · rw [hfields i (by omega)]
      exact ⟨rfl, rfl, rfl⟩
    · rw [hexit]
      exact ⟨rfl, rfl, rfl⟩
    · rw [block_of_ge (by rw [length_withEdges]; omega)]
      exact ⟨rfl, rfl, rfl⟩
  have hend : ∀ i p, FunctionInfo.EndsInBreak { f₁ with
      m_basic_blocks := withEdges f₁.m_basic_blocks S P }
      (block (withEdges f₁.m_basic_blocks S P)) i p → i ≤ k ∧ p = e i := by
    rintro i p ⟨hno, hp, -⟩
    rcases Nat.lt_trichotomy i (k + 1) with hi | rfl | hi
    · rw [hfields i (by omega)] at hp
      exact ⟨by omega, (Option.some.inj hp).symm⟩
    · rw [hexit] at hno
      simp at hno
    · rw [block_of_ge (by rw [length_withEdges]; omega)] at hp
      simp at hp
  refine ⟨⟨fun i hi hno => ?_, fun i p hp => ?_, fun i p hp => ?_, fun addr b hb => ?_⟩,
    ⟨?_, fun i hi => ?_⟩, ?_⟩
  · have hi : i < k + 2 := by simpa [hlen] using hi
    rcases Nat.lt_or_eq_of_le (Nat.le_of_lt_succ hi) with hle | rfl
    · exact ⟨e i, by rw [hfields i (by omega)]⟩
    · rw [hexit] at hno
      simp at hno
  · obtain ⟨hi, rfl⟩ := hend i p hp
    exact h.bb hi (h.ends i hi) ⟨h.ordered i hi, Nat.le_refl _⟩
  · obtain ⟨hi, rfl⟩ := hend i p hp
    obtain ⟨targets, htargets⟩ := hends i hi
    obtain ⟨next_bb, hnext⟩ := next_of_targetsOf_break htargets hp.2.2
    exact ⟨next_bb, hnext⟩
  · have := h.bbAt_le hb
    simp [hlen]
    omega
  · simp [hlen]
  · have hi : i < k + 2 := by simpa [hlen] using hi
    rcases Nat.lt_or_eq_of_le (Nat.le_of_lt_succ hi) with hle | rfl
    · rw [hfields i (by omega)]
    · rw [hexit]
  · have hE' : EdgeSets (withEdges f₁.m_basic_blocks S P).length S P := by simpa using hE
    refine ⟨rfl, fun i => rfl, fun i => ?_, fun a b => ?_, ?_, (hplain 0).2.2⟩
    · obtain ⟨hS, hP⟩ := block_withEdges_sets hE i
      obtain ⟨hdom, htmp, hidom⟩ := hplain i
      refine ⟨?_, ?_, ?_, ?_, .inl hidom⟩
      · rw [hS]
        exact hE'.successors i
      · rw [hP]
        exact hE'.predecessors i
      · rw [hdom]
        exact Finset.empty_subset _
      · rw [htmp]
        exact Finset.empty_subset _
    · unfold Edge
      rw [(block_withEdges_sets hE a).1, (block_withEdges_sets hE b).2]
      exact hE.both a b
    · rw [(hplain 0).1]
      exact Finset.empty_subset _

/-! ## What the loop of do_pdom does -/

/-- The loop comes to its end, and every round finds the dominators of the
blocks that the entry reaches, and of each but the entry the immediate one. -/
structure FunctionInfo.Accepted (f : FunctionInfo) : Prop where
  ends : ∃ fuel bs, ∀ fuel', fuel ≤ fuel' → f.do_pdom fuel' = .ok bs
  rounds : ∀ bs, f.AfterRounds bs → ∀ fuel, bs.length * bs.length < fuel →
    ∃ bs₁ bs₂, find_dominators fuel bs = .ok bs₁ ∧
      (∀ b, Reached bs b → ∀ d,
        d ∈ (block bs₁ b).dominator_ids ↔ Dominates (Edge bs) 0 d b) ∧
      find_idominators bs₁ = .ok bs₂ ∧
      ∀ b, Reached bs b → b ≠ 0 → ∃ d : Nat, (block bs₂ b).immediatedominator_id = d ∧
        ImmediateDominator (Edge bs) 0 d b

theorem FunctionInfo.Begins.after (hf : f.Begins) {bs : List BasicBlock}
    (hbs : f.AfterRounds bs) : Linked f.m_basic_blocks bs :=
  hf.placed.afterRounds_linked hf.inOrder hf.linked hbs

/-- The dominators of a round whose entry has no predecessors. -/
theorem FunctionInfo.Begins.round_exact (hf : f.Begins) {bs : List BasicBlock}
    (hbs : f.AfterRounds bs) (hentry : ∀ a, ¬ Edge bs a 0) {fuel : Nat}
    (hfuel : bs.length * bs.length < fuel) :
    ∃ bs₁ bs₂, find_dominators fuel bs = .ok bs₁ ∧
      (∀ b, Reached bs b → ∀ d,
        d ∈ (block bs₁ b).dominator_ids ↔ Dominates (Edge bs) 0 d b) ∧
      find_idominators bs₁ = .ok bs₂ ∧
      ∀ b, Reached bs b → b ≠ 0 → ∃ d : Nat, (block bs₂ b).immediatedominator_id = d ∧
        ImmediateDominator (Edge bs) 0 d b := by
  have h := hf.after hbs
  obtain ⟨D, hrun, hD⟩ := h.find_dominators hf.inOrder hfuel
  refine ⟨_, withIdoms bs D, hrun, fun b hb d => ?_, ?_, fun b hb hne => ?_⟩
  · have hids : dominance.ids (block (withSets dominance bs D) b) = D b :=
      ids_withSets D (h.reached_lt hf.inOrder hb)
    exact (iff_of_eq (congrArg (d ∈ ·) hids)).trans (hD.exact b hb d)
  · rw [hD.find_idominators h hf.inOrder, if_pos (h.entry_iff.mpr hentry)]
  · obtain ⟨d, hd⟩ := immediateDominator_of_reached hb hne
    refine ⟨d, (hD.idom_iff h hf.inOrder (h.reached_lt hf.inOrder hb)).mpr ?_, hd⟩
    exact .dominator hb hd

/-- The loop ends just if each of its rounds does and no blocks come back. -/
theorem FunctionInfo.Begins.ends_iff (hf : f.Begins) :
    (∃ fuel bs, f.do_pdom fuel = .ok bs) ↔ ∀ bs, f.AfterRounds bs →
      f.RoundEnds bs ∧ ¬ Relation.TransGen (Turns f.pdomRound) bs bs := by
  have hfin : {bs | Relation.ReflTransGen (Turns f.pdomRound) f.m_basic_blocks bs}.Finite :=
    (finite_linked f.m_basic_blocks).subset fun bs hbs => hf.after hbs
  unfold FunctionInfo.do_pdom
  rw [rounds_end_iff (pdomRound_fuelOnly f) hfin]
  refine forall_congr' fun bs => forall_congr' fun hbs => and_congr_left fun _ => ?_
  exact hf.placed.pdomRound_iff (hf.after hbs) hf.inOrder

theorem FunctionInfo.Begins.accepted_iff (hf : f.Begins) :
    f.Accepted ↔ ∀ bs, f.AfterRounds bs →
      f.RoundEnds bs ∧ ¬ Relation.TransGen (Turns f.pdomRound) bs bs := by
  rw [← hf.ends_iff]
  constructor
  · rintro ⟨⟨fuel, bs, hrun⟩, -⟩
    exact ⟨fuel, bs, hrun fuel (Nat.le_refl fuel)⟩
  · intro hends
    refine ⟨?_, fun bs hbs fuel hfuel => ?_⟩
    · obtain ⟨fuel, bs, hrun⟩ := hends
      exact ⟨fuel, bs, fun fuel' hle => rounds_mono (pdomRound_fuelOnly f) hle hrun⟩
    · exact hf.round_exact hbs (hf.ends_iff.mp hends bs hbs).1.entry hfuel

/-- The analysis accepts a function just if in every round no edge leads to the
entry block, every break finds its breakaddr on the way up, and the rounds never
come back to blocks that they started from. -/
theorem analysis_accepts_iff (hcreate : f.create_basic_blocks = some f₁)
    (hconnect : f₁.connect_basic_blocks = some f₂) :
    f₂.Accepted ↔ ∀ bs, f₂.AfterRounds bs →
      f₂.RoundEnds bs ∧ ¬ Relation.TransGen (Turns f₂.pdomRound) bs bs :=
  (connected_begins hcreate hconnect).accepted_iff

/-! ## Functions without breaks -/

/-- Without breaks the first round is the last. -/
theorem FunctionInfo.Begins.no_turn (hf : f.Begins)
    (hno : ∀ i p, ¬ f.EndsInBreak (block f.m_basic_blocks) i p) (bs : List BasicBlock) :
    ¬ Turns f.pdomRound f.m_basic_blocks bs := by
  rintro ⟨fuel, hrun⟩
  obtain ⟨D, hD, hround⟩ := hf.linked.pdomRound hf.inOrder f
  have hmore := pdomRound_fuelOnly f fuel
    (max fuel (f.m_basic_blocks.length * f.m_basic_blocks.length + 1)) _ _
    (Nat.le_max_left _ _) hrun
  rw [hround _ (by omega)] at hmore
  split at hmore
  · have hlinked := hD.withIdoms_linked hf.linked hf.inOrder
    unfold FunctionInfo.connect_break_targets at hmore
    rw [hf.placed.connectBreaks_none hlinked (fun i hi => List.mem_range.mp hi)
      (fun i p hp => hno i p (hlinked.endsInBreak_iff.mp hp))] at hmore
    simp at hmore
  · simp at hmore

/-- Without breaks and edges to the entry, the first round is all there is. -/
theorem FunctionInfo.Begins.rounds_without_breaks (hf : f.Begins)
    (hno : ∀ i p, ¬ f.EndsInBreak (block f.m_basic_blocks) i p)
    (hentry : ∀ a, ¬ Edge f.m_basic_blocks a 0) (bs : List BasicBlock) (hbs : f.AfterRounds bs) :
    f.RoundEnds bs ∧ ¬ Relation.TransGen (Turns f.pdomRound) bs bs := by
  obtain rfl : bs = f.m_basic_blocks := by
    rcases Relation.ReflTransGen.cases_head hbs with heq | ⟨c, hc, -⟩
    · exact heq.symm
    · exact absurd hc (hf.no_turn hno c)
  refine ⟨⟨hentry, fun i p hp => absurd hp (hno i p)⟩, fun hcircle => ?_⟩
  obtain ⟨c, hc, -⟩ := Relation.TransGen.head'_iff.mp hcircle
  exact hf.no_turn hno c hc

/-- The analysis accepts a function without breaks just if no edge leads to its
entry block. -/
theorem FunctionInfo.Begins.accepted_without_breaks (hf : f.Begins)
    (hno : ∀ i p, ¬ f.EndsInBreak (block f.m_basic_blocks) i p) :
    f.Accepted ↔ ∀ a, ¬ Edge f.m_basic_blocks a 0 := by
  rw [hf.accepted_iff]
  constructor
  · intro h
    exact (h _ .refl).1.entry
  · exact hf.rounds_without_breaks hno

end

/-- A loop, and code behind its branch that nothing leads to. -/
def deadCode : FunctionInfo where
  m_instructions :=
    [.real .OTHER false 0 false, .label 1, .real .OTHER false 0 false, .real .BRA_OP true 1 false,
      .real .BRA_OP false 9 false, .real .OTHER false 0 false, .label 9,
      .real .EXIT_OP false 0 false]

/-- With its blocks, the sets in the order of the links. -/
def deadCodeBlocks : FunctionInfo where
  m_instructions := deadCode.m_instructions
  m_basic_blocks :=
    [{ bb_id := 0, ptx_begin := some 0, ptx_end := some 0, is_entry := true,
       successor_ids := {1} },
      { bb_id := 1, ptx_begin := some 2, ptx_end := some 3, predecessor_ids := {1, 0},
        successor_ids := {2, 1} },
      { bb_id := 2, ptx_begin := some 4, ptx_end := some 4, predecessor_ids := {1},
        successor_ids := {4} },
      { bb_id := 3, ptx_begin := some 5, ptx_end := some 5, successor_ids := {4} },
      { bb_id := 4, ptx_begin := some 7, ptx_end := some 7, predecessor_ids := {3, 2},
        successor_ids := {5} },
      { bb_id := 5, is_exit := true, predecessor_ids := {4} }]
  m_bb := [0, 1, 1, 1, 2, 3, 4, 4]

theorem deadCode_connects :
    deadCode.create_basic_blocks.bind FunctionInfo.connect_basic_blocks = some deadCodeBlocks := by
  rfl

/-- It is accepted, though the entry does not reach all of it. -/
theorem deadCode_is_accepted : deadCodeBlocks.Accepted := by
  obtain ⟨f₁, hcreate, hconnect⟩ := Option.bind_eq_some_iff.mp deadCode_connects
  refine (analysis_accepts_iff hcreate hconnect).mpr
    ((connected_begins hcreate hconnect).rounds_without_breaks ?_ ?_)
  · intro i p hp
    have hi : i < 6 := hp.lt
    obtain ⟨-, hend, hop⟩ := hp
    interval_cases i <;> simp [deadCodeBlocks, deadCode, block] at hend <;> subst hend <;>
      simp [deadCodeBlocks, deadCode, PtxInstruction.get_opcode] at hop
  · intro a ha
    have hlt : a < 6 := by
      by_contra hge
      unfold Edge at ha
      rw [block_of_ge (show deadCodeBlocks.m_basic_blocks.length ≤ a from Nat.not_lt.mp hge)] at ha
      simp at ha
    unfold Edge at ha
    interval_cases a <;> simp [deadCodeBlocks, block] at ha

end gpgpu_sim_uvm
