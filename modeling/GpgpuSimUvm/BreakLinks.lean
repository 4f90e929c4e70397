-- Connecting the breaks: what the search up the dominator tree finds, and when
-- connect_break_targets comes to its end.
import GpgpuSimUvm.BlockPartition
import GpgpuSimUvm.RoundDominators

namespace gpgpu_sim_uvm

open control_flow

/-! ## More fuel -/

section

variable {f : FunctionInfo}

theorem foldlM_ok_cons {α β ε : Type} {g : β → α → Except ε β} {a : α} {l : List α} {s t : β} :
    (a :: l).foldlM g s = .ok t ↔ ∃ u, g s a = .ok u ∧ l.foldlM g u = .ok t := by
  rw [List.foldlM_cons]
  cases g s a with
  | error e => simp [bind, Except.bind]
  | ok u => simp [bind, Except.bind]

theorem foldlM_mono {α β ε : Type} {g g' : β → α → Except ε β}
    (h : ∀ s a t, g s a = .ok t → g' s a = .ok t) {l : List α} {s t : β}
    (hrun : l.foldlM g s = .ok t) : l.foldlM g' s = .ok t := by
  induction l generalizing s with
  | nil => exact hrun
  | cons a l ih =>
    obtain ⟨u, ha, hl⟩ := foldlM_ok_cons.mp hrun
    exact foldlM_ok_cons.mpr ⟨u, h s a u ha, ih hl⟩

theorem find_dominators_mono {fuel fuel' : Nat} (hle : fuel ≤ fuel') {bs t : List BasicBlock}
    (h : find_dominators fuel bs = .ok t) : find_dominators fuel' bs = .ok t := by
  unfold find_dominators findSets at h ⊢
  split at h
  · simp [Except.map] at h
  · rename_i htwo
    rw [if_neg htwo]
    rcases hrun : while_change Abort.unfinished
        (sweepBlocks dominance (List.range' 1 (bs.length - 1))) fuel (fillSets dominance 0 bs) with e | u
    · simp [hrun, Except.map] at h
    · rw [hrun] at h
      rw [while_change_mono (fun _ _ hok => hok) hle hrun]
      exact h

theorem find_break_target_mono {bs : List BasicBlock} {fuel fuel' : Nat} (hle : fuel ≤ fuel')
    {i : Nat} {name : Symbol} (h : f.find_break_target bs fuel i = .ok name) :
    f.find_break_target bs fuel' i = .ok name := by
  induction fuel generalizing fuel' i with
  | zero => simp [FunctionInfo.find_break_target] at h
  | succ fuel ih =>
    obtain ⟨fuel', rfl⟩ := Nat.exists_eq_succ_of_ne_zero (show fuel' ≠ 0 by omega)
    unfold FunctionInfo.find_break_target at h ⊢
    split at h
    · simp at h
    · split at h
      · simp at h
      · exact h
      · exact ih (by omega) h

theorem breakTargets_mono {bs : List BasicBlock} {fuel fuel' : Nat} (hle : fuel ≤ fuel') {p : Nat}
    {targets : List Nat} (h : f.breakTargets fuel bs p = .ok targets) :
    f.breakTargets fuel' bs p = .ok targets := by
  unfold FunctionInfo.breakTargets at h ⊢
  split at h
  · rename_i b pI hb hpI
    rcases hfind : f.find_break_target bs fuel b with e | name
    · simp [hfind] at h
    · rw [hfind] at h
      simpa only [find_break_target_mono hle hfind] using h
  · simp at h

theorem connectBreak_mono {fuel fuel' : Nat} (hle : fuel ≤ fuel') (r : List BasicBlock × Bool)
    (i : Nat) (t : List BasicBlock × Bool) (h : f.connectBreak fuel r i = .ok t) :
    f.connectBreak fuel' r i = .ok t := by
  unfold FunctionInfo.connectBreak at h ⊢
  split at h
  · rename_i hexit
    rwa [if_pos hexit]
  · rename_i hexit
    rw [if_neg hexit]
    split at h
    · simp at h
    · rename_i p hp
      split at h
      · rename_i hbreak
        simp only [if_pos hbreak]
        rcases htargets : f.breakTargets fuel (unlink r.1 i) p with e | targets
        · simp [htargets] at h
        · rw [htargets] at h
          simpa only [breakTargets_mono hle htargets] using h
      · rename_i hbreak
        simpa only [if_neg hbreak] using h

/-- More fuel changes nothing for a round that ends. -/
theorem pdomRound_fuelOnly (f : FunctionInfo) : FuelOnly f.pdomRound := by
  intro fuel fuel' bs r hle h
  unfold FunctionInfo.pdomRound at h ⊢
  rcases hdom : find_dominators fuel bs with e | dominated
  · simp [hdom] at h
  · rw [hdom] at h
    rw [find_dominators_mono hle hdom]
    rcases hidom : find_idominators dominated with e | idominated
    · simp [hidom] at h
    · simp only [hidom] at h ⊢
      exact foldlM_mono (connectBreak_mono hle) h

end

/-! ## The search -/

section

variable (f : FunctionInfo) (blocks : Nat → BasicBlock) (above : Nat → Nat → Prop)

/-- On the way up from a block that has one above it, the first block with a
breakaddr has `name` in its last. -/
inductive FunctionInfo.Finds : Nat → Symbol → Prop
  | here {i d : Nat} {name : Symbol} : above i d → f.breakaddrIn (blocks i) = .ok (some name) →
      FunctionInfo.Finds i name
  | up {i d : Nat} {name : Symbol} : above i d → f.breakaddrIn (blocks i) = .ok none →
      FunctionInfo.Finds d name → FunctionInfo.Finds i name

/-- It is the label of an instruction. -/
def FunctionInfo.FindsTarget (i : Nat) : Prop :=
  ∃ name target_bb, f.Finds blocks above i name ∧
    f.bbAt (labels f.m_instructions name) = some target_bb

/-- Block `i` ends in the break at `p`. -/
def FunctionInfo.EndsInBreak (i p : Nat) : Prop :=
  (blocks i).is_exit = false ∧ (blocks i).ptx_end = some p ∧
    (f.m_instructions[p]?.bind PtxInstruction.get_opcode) = some .BREAK_OP

end

/-- The field `immediatedominator_id`, where it is set. -/
def IdomField (bs : List BasicBlock) (i d : Nat) : Prop :=
  (block bs i).immediatedominator_id = (d : Int)

section

variable {f : FunctionInfo}

theorem FunctionInfo.Finds.congr {blocks blocks' : Nat → BasicBlock} {above above' : Nat → Nat → Prop}
    (habove : ∀ i d, above i d → above' i d)
    (hblocks : ∀ i, f.breakaddrIn (blocks i) = f.breakaddrIn (blocks' i)) {i : Nat} {name : Symbol}
    (h : f.Finds blocks above i name) : f.Finds blocks' above' i name := by
  induction h with
  | here hd hin => exact .here (habove _ _ hd) (hblocks _ ▸ hin)
  | up hd hin _ ih => exact .up (habove _ _ hd) (hblocks _ ▸ hin) ih

theorem find_break_target_iff {bs : List BasicBlock} {i : Nat} {name : Symbol} :
    (∃ fuel, f.find_break_target bs fuel i = .ok name) ↔
      f.Finds (block bs) (IdomField bs) i name := by
  constructor
  · rintro ⟨fuel, h⟩
    induction fuel generalizing i with
    | zero => simp [FunctionInfo.find_break_target] at h
    | succ fuel ih =>
      unfold FunctionInfo.find_break_target at h
      split at h
      · simp at h
      · rename_i d hd
        split at h
        · simp at h
        · rename_i name' hin
          obtain rfl : name' = name := Except.ok.inj h
          exact .here hd hin
        · rename_i hin
          exact .up hd hin (ih h)
  · intro h
    induction h with
    | here hd hin =>
      refine ⟨1, ?_⟩
      unfold FunctionInfo.find_break_target
      rw [hd]
      simp [hin]
    | up hd hin _ ih =>
      obtain ⟨fuel, hrun⟩ := ih
      refine ⟨fuel + 1, ?_⟩
      unfold FunctionInfo.find_break_target
      rw [hd]
      simpa [hin] using hrun

end

/-! ## The edges -/

/-- Edges between `n` blocks, known at both ends. -/
structure EdgeSets (n : Nat) (S P : Nat → Finset Nat) : Prop where
  both : ∀ a b, b ∈ S a ↔ a ∈ P b
  successors : ∀ a, S a ⊆ Finset.range n
  predecessors : ∀ b, P b ⊆ Finset.range n

section

variable {base bs : List BasicBlock} {S P : Nat → Finset Nat}

theorem Linked.edgeSets (h : Linked base bs) :
    EdgeSets base.length (fun i => (block bs i).successor_ids)
      fun i => (block bs i).predecessor_ids where
  both a b := h.edges a b
  successors a := (h.within a).successors
  predecessors b := (h.within b).predecessors

theorem withEdges_self (bs : List BasicBlock) :
    withEdges bs (fun i => (block bs i).successor_ids) (fun i => (block bs i).predecessor_ids) =
      bs := by
  unfold withEdges
  refine List.ext_getElem (by simp) fun i hi hi' => ?_
  simp [block_eq hi']

/-- No block outside has edges. -/
theorem block_withEdges_sets (hE : EdgeSets bs.length S P) (i : Nat) :
    (block (withEdges bs S P) i).successor_ids = S i ∧
      (block (withEdges bs S P) i).predecessor_ids = P i := by
  rcases Nat.lt_or_ge i bs.length with hi | hi
  · rw [block_withEdges hi]
    exact ⟨rfl, rfl⟩
  · have hS : S i = ∅ := by
      refine Finset.eq_empty_of_forall_notMem fun b hb => ?_
      have := Finset.mem_range.mp (hE.predecessors b ((hE.both i b).mp hb))
      omega
    have hP : P i = ∅ := by
      refine Finset.eq_empty_of_forall_notMem fun a ha => ?_
      have := Finset.mem_range.mp (hE.successors a ((hE.both a i).mpr ha))
      omega
    rw [block_of_ge (by simpa using hi), hS, hP]
    exact ⟨rfl, rfl⟩

/-- The edges are all that is new. -/
theorem block_withEdges_rest (i : Nat) :
    block (withEdges bs S P) i =
      { block bs i with
        successor_ids := (block (withEdges bs S P) i).successor_ids
        predecessor_ids := (block (withEdges bs S P) i).predecessor_ids } := by
  rcases Nat.lt_or_ge i bs.length with hi | hi
  · rw [block_withEdges hi]
  · rw [block_of_ge (by simpa using hi), block_of_ge hi]

/-- Other edges keep the blocks linked. -/
theorem Linked.withEdges (h : Linked base bs) (hE : EdgeSets base.length S P) :
    Linked base (withEdges bs S P) := by
  have hE' : EdgeSets bs.length S P := by
    rw [h.length]
    exact hE
  refine ⟨by simp [h.length], fun i => ?_, fun i => ?_, fun a b => ?_, ?_, ?_⟩
  · rw [← h.cut i, block_withEdges_rest i]
    rfl
  · obtain ⟨hS, hP⟩ := block_withEdges_sets hE' i
    rw [block_withEdges_rest i, hS, hP]
    exact ⟨hE.successors i, hE.predecessors i, (h.within i).dominators, (h.within i).tmp,
      (h.within i).idom⟩
  · unfold Edge
    rw [(block_withEdges_sets hE' a).1, (block_withEdges_sets hE' b).2]
    exact hE.both a b
  · rw [block_withEdges_rest 0]
    exact h.entry
  · rw [block_withEdges_rest 0]
    exact h.entry_idom

/-- The predecessors of the blocks once the edges of block `a` are gone. -/
def leftPreds (S P : Nat → Finset Nat) (a b : Nat) : Finset Nat :=
  if b ∈ S a then (P b).erase a else P b

theorem erasePreds_withEdges (a : Nat) (l : List Nat) (P : Nat → Finset Nat) :
    l.foldl (fun bs s => bs.modify s fun x =>
        { x with predecessor_ids := x.predecessor_ids.erase a }) (withEdges bs S P) =
      withEdges bs S fun b => if b ∈ l then (P b).erase a else P b := by
  induction l generalizing P with
  | nil => simp
  | cons s l ih =>
    have hstep : (withEdges bs S P).modify s (fun x =>
        { x with predecessor_ids := x.predecessor_ids.erase a }) =
        withEdges bs S (Function.update P s ((P s).erase a)) := by
      unfold withEdges
      refine List.ext_getElem (by simp) fun i hi hi' => ?_
      rw [List.getElem_modify]
      by_cases hs : s = i
      · subst hs
        simp
      · simp [hs, Function.update_of_ne (Ne.symm hs)]
    rw [List.foldl_cons, hstep, ih]
    congr 1
    funext b
    by_cases hb : b = s
    · subst hb
      simp
    · simp [hb]

theorem unlink_withEdges {a : Nat} (ha : a < bs.length) :
    unlink (withEdges bs S P) a =
      withEdges bs (Function.update S a ∅) (leftPreds S P a) := by
  have hsucc : (block (withEdges bs S P) a).successor_ids = S a := by rw [block_withEdges ha]
  unfold unlink
  rw [hsucc, erasePreds_withEdges]
  simp only [mem_inSetOrder]
  unfold withEdges
  refine List.ext_getElem (by simp) fun i hi hi' => ?_
  rw [List.getElem_modify]
  by_cases hi : a = i
  · subst hi
    simp [leftPreds]
  · simp [hi, leftPreds, Function.update_of_ne (Ne.symm hi)]

/-- The edges once block `a` leads to `targets`. -/
def relinkedPreds (S P : Nat → Finset Nat) (a : Nat) (targets : List Nat) (b : Nat) : Finset Nat :=
  if b ∈ targets then insert a (leftPreds S P a b) else leftPreds S P a b

theorem relink_withEdges {a : Nat} (ha : a < bs.length) (targets : List Nat) :
    targets.foldl (link a) (unlink (withEdges bs S P) a) =
      withEdges bs (Function.update S a targets.toFinset) (relinkedPreds S P a targets) := by
  rw [unlink_withEdges ha, foldl_link_withEdges, Function.update_idem, Function.update_self,
    Finset.empty_union]
  rfl

theorem EdgeSets.relink {n : Nat} (hE : EdgeSets n S P) {a : Nat} (ha : a < n)
    {targets : List Nat} (htargets : ∀ b ∈ targets, b < n) :
    EdgeSets n (Function.update S a targets.toFinset) (relinkedPreds S P a targets) := by
  have hleft : ∀ b c, c ∈ leftPreds S P a b ↔ c ≠ a ∧ c ∈ P b := by
    intro b c
    unfold leftPreds
    split
    · exact Finset.mem_erase
    · rename_i hb
      refine (and_iff_right_of_imp ?_).symm
      rintro hc rfl
      exact hb ((hE.both c b).mpr hc)
  have hpreds : ∀ b c, c ∈ relinkedPreds S P a targets b ↔
      c = a ∧ b ∈ targets ∨ c ≠ a ∧ c ∈ P b := by
    intro b c
    unfold relinkedPreds
    split
    · rename_i hb
      rw [Finset.mem_insert, hleft]
      tauto
    · rename_i hb
      rw [hleft]
      tauto
  refine ⟨fun c b => ?_, fun c => ?_, fun b c hc => ?_⟩
  · rw [hpreds]
    by_cases hc : c = a
    · subst hc
      simp
    · rw [Function.update_of_ne hc, hE.both]
      simp [hc]
  · by_cases hc : c = a
    · subst hc
      rw [Function.update_self]
      intro b hb
      exact Finset.mem_range.mpr (htargets b (List.mem_toFinset.mp hb))
    · rw [Function.update_of_ne hc]
      exact hE.successors c
  · rcases (hpreds b c).mp hc with ⟨rfl, -⟩ | ⟨-, hc⟩
    · exact Finset.mem_range.mpr ha
    · exact hE.predecessors b hc

end

end gpgpu_sim_uvm
