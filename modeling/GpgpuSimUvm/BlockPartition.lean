-- Basic blocks partition the function: what the instructions must be like for
-- every block to be a run that only its last instruction leaves.
import GpgpuSimUvm.BlockEdges
import Mathlib.Tactic.IntervalCases

namespace gpgpu_sim_uvm

/-! ## The loop over the blocks -/

/-- The blocks with the edges that `S` and `P` give them. -/
def withEdges (bs : List BasicBlock) (S P : Nat → Finset Nat) : List BasicBlock :=
  bs.mapIdx fun i b => { b with successor_ids := S i, predecessor_ids := P i }

section

variable {bs : List BasicBlock} {S P : Nat → Finset Nat}

@[simp] theorem length_withEdges : (withEdges bs S P).length = bs.length := by simp [withEdges]

theorem block_withEdges {i : Nat} (h : i < bs.length) :
    block (withEdges bs S P) i =
      { block bs i with successor_ids := S i, predecessor_ids := P i } := by
  simp [withEdges, block, h]

theorem link_withEdges (a b : Nat) :
    link a (withEdges bs S P) b =
      withEdges bs (Function.update S a (insert b (S a)))
        (Function.update P b (insert a (P b))) := by
  unfold link withEdges
  refine List.ext_getElem (by simp) fun i hi hi' => ?_
  simp only [List.getElem_modify, List.getElem_mapIdx]
  by_cases ha : a = i <;> by_cases hb : b = i
  · subst ha hb
    simp
  · subst ha
    simp [hb, Function.update_of_ne (Ne.symm hb)]
  · subst hb
    simp [ha, Function.update_of_ne (Ne.symm ha)]
  · simp [ha, hb, Function.update_of_ne (Ne.symm ha), Function.update_of_ne (Ne.symm hb)]

/-- All the links of one block. -/
theorem foldl_link_withEdges (a : Nat) (targets : List Nat) :
    targets.foldl (link a) (withEdges bs S P) =
      withEdges bs (Function.update S a (S a ∪ targets.toFinset))
        (fun b => if b ∈ targets then insert a (P b) else P b) := by
  induction targets generalizing S P with
  | nil => simp
  | cons b targets ih =>
    rw [List.foldl_cons, link_withEdges, ih]
    congr 1
    · rw [Function.update_idem, Function.update_self, List.toFinset_cons]
      congr 1
      ext x
      simp only [Finset.mem_union, Finset.mem_insert]
      tauto
    · funext c
      by_cases hc : c = b
      · subst hc
        simp
      · simp [hc]

end

section

variable {f : FunctionInfo}

theorem connectBlock_withEdges {S P : Nat → Finset Nat} {i : Nat}
    (hi : i < f.m_basic_blocks.length) {targets : List Nat}
    (htargets : if (block f.m_basic_blocks i).is_exit then targets = []
      else (block f.m_basic_blocks i).ptx_end.bind f.targetsOf = some targets) :
    f.connectBlock (withEdges f.m_basic_blocks S P) i =
      some (withEdges f.m_basic_blocks (Function.update S i (S i ∪ targets.toFinset))
        (fun b => if b ∈ targets then insert i (P b) else P b)) := by
  unfold FunctionInfo.connectBlock
  rw [block_withEdges hi]
  by_cases hexit : (block f.m_basic_blocks i).is_exit = true
  · rw [if_pos hexit] at htargets
    subst htargets
    simp [hexit]
  · rw [if_neg hexit] at htargets
    obtain ⟨p, hp, hps⟩ := Option.bind_eq_some_iff.mp htargets
    simp only [hexit, Bool.false_eq_true, if_false, hp, Option.bind_some, hps, Option.map_some,
      foldl_link_withEdges]

/-- Where every block has its targets, these are the edges. -/
theorem connect_basic_blocks_eq {targets : Nat → List Nat}
    (hfresh : f.m_basic_blocks = withEdges f.m_basic_blocks (fun _ => ∅) fun _ => ∅)
    (htargets : ∀ i < f.m_basic_blocks.length,
      if (block f.m_basic_blocks i).is_exit then targets i = []
      else (block f.m_basic_blocks i).ptx_end.bind f.targetsOf = some (targets i)) :
    ∃ S P, f.connect_basic_blocks =
        some { f with m_basic_blocks := withEdges f.m_basic_blocks S P } ∧
      (∀ i < f.m_basic_blocks.length, S i = (targets i).toFinset) ∧
      ∀ a b, a ∈ P b ↔ a < f.m_basic_blocks.length ∧ b ∈ targets a := by
  have hrun : ∀ n ≤ f.m_basic_blocks.length, ∃ S P,
      (List.range n).foldlM f.connectBlock f.m_basic_blocks =
        some (withEdges f.m_basic_blocks S P) ∧
      (∀ i, S i = if i < n then (targets i).toFinset else ∅) ∧
      ∀ a b, a ∈ P b ↔ a < n ∧ b ∈ targets a := by
    intro n
    induction n with
    | zero =>
      intro _
      refine ⟨fun _ => ∅, fun _ => ∅, ?_, by simp, by simp⟩
      rw [← hfresh]
      rfl
    | succ n ih =>
      intro hn
      obtain ⟨S, P, hfold, hS, hP⟩ := ih (by omega)
      have hstep := connectBlock_withEdges (S := S) (P := P) (show n < _ by omega)
        (htargets n (by omega))
      refine ⟨Function.update S n (S n ∪ (targets n).toFinset),
        fun b => if b ∈ targets n then insert n (P b) else P b, ?_, fun i => ?_, fun a b => ?_⟩
      · rw [List.range_succ, List.foldlM_append, hfold]
        simpa using hstep
      · by_cases hi : i = n
        · subst hi
          simp [hS]
        · rw [Function.update_of_ne hi, hS]
          have : i < n + 1 ↔ i < n := by omega
          simp [this]
      · by_cases hb : b ∈ targets n
        · simp only [if_pos hb, Finset.mem_insert, hP]
          constructor
          · rintro (rfl | ⟨ha, hab⟩)
            · exact ⟨Nat.lt_succ_self a, hb⟩
            · exact ⟨by omega, hab⟩
          · rintro ⟨ha, hab⟩
            rcases Nat.lt_or_eq_of_le (Nat.le_of_lt_succ ha) with hlt | rfl
            · exact .inr ⟨hlt, hab⟩
            · exact .inl rfl
        · simp only [if_neg hb, hP]
          refine ⟨fun ⟨ha, hab⟩ => ⟨by omega, hab⟩, fun ⟨ha, hab⟩ => ⟨?_, hab⟩⟩
          rcases Nat.lt_or_eq_of_le (Nat.le_of_lt_succ ha) with hlt | rfl
          · exact hlt
          · exact absurd hab hb
  obtain ⟨S, P, hfold, hS, hP⟩ := hrun _ (Nat.le_refl _)
  refine ⟨S, P, ?_, fun i hi => by rw [hS, if_pos hi], hP⟩
  unfold FunctionInfo.connect_basic_blocks
  rw [hfold]
  rfl

/-- Where the loop comes to its end, only the edges are new, and every block had
its targets. -/
theorem connect_basic_blocks_some {f₂ : FunctionInfo} (h : f.connect_basic_blocks = some f₂)
    (hfresh : f.m_basic_blocks = withEdges f.m_basic_blocks (fun _ => ∅) fun _ => ∅) :
    (∃ S P, f₂ = { f with m_basic_blocks := withEdges f.m_basic_blocks S P }) ∧
      ∀ i < f.m_basic_blocks.length, (block f.m_basic_blocks i).is_exit = false →
        ∃ targets, (block f.m_basic_blocks i).ptx_end.bind f.targetsOf = some targets := by
  have hrun : ∀ n ≤ f.m_basic_blocks.length, ∀ bs,
      (List.range n).foldlM f.connectBlock f.m_basic_blocks = some bs →
      (∃ S P, bs = withEdges f.m_basic_blocks S P) ∧
        ∀ i < n, (block f.m_basic_blocks i).is_exit = false →
          ∃ targets, (block f.m_basic_blocks i).ptx_end.bind f.targetsOf = some targets := by
    intro n
    induction n with
    | zero =>
      intro _ bs hbs
      obtain rfl : f.m_basic_blocks = bs := by simpa using hbs
      exact ⟨⟨_, _, hfresh⟩, by simp⟩
    | succ n ih =>
      intro hn bs hbs
      rw [List.range_succ, List.foldlM_append] at hbs
      obtain ⟨cs, hcs, hlast⟩ := Option.bind_eq_some_iff.mp hbs
      obtain ⟨⟨S, P, rfl⟩, hsome⟩ := ih (by omega) cs hcs
      have hlast : f.connectBlock (withEdges f.m_basic_blocks S P) n = some bs := by
        simpa using hlast
      by_cases hexit : (block f.m_basic_blocks n).is_exit = true
      · have hnone : if (block f.m_basic_blocks n).is_exit then ([] : List Nat) = []
            else (block f.m_basic_blocks n).ptx_end.bind f.targetsOf = some [] := by
          rw [if_pos hexit]
        rw [connectBlock_withEdges (show n < _ by omega) hnone] at hlast
        refine ⟨⟨_, _, (Option.some.inj hlast).symm⟩, fun i hi hne => ?_⟩
        rcases Nat.lt_or_eq_of_le (Nat.le_of_lt_succ hi) with hlt | rfl
        · exact hsome i hlt hne
        · rw [hexit] at hne
          simp at hne
      · have htargets : ∃ targets,
            (block f.m_basic_blocks n).ptx_end.bind f.targetsOf = some targets := by
          unfold FunctionInfo.connectBlock at hlast
          rw [block_withEdges (show n < _ by omega)] at hlast
          simp only [hexit, Bool.false_eq_true, if_false] at hlast
          obtain ⟨p, hp, hmap⟩ := Option.bind_eq_some_iff.mp hlast
          obtain ⟨targets, htargets, -⟩ := Option.map_eq_some_iff.mp hmap
          exact ⟨targets, Option.bind_eq_some_iff.mpr ⟨p, hp, htargets⟩⟩
        obtain ⟨targets, ht⟩ := id htargets
        rw [connectBlock_withEdges (show n < _ by omega) (by rw [if_neg hexit]; exact ht)] at hlast
        refine ⟨⟨_, _, (Option.some.inj hlast).symm⟩, fun i hi hne => ?_⟩
        rcases Nat.lt_or_eq_of_le (Nat.le_of_lt_succ hi) with hlt | rfl
        · exact hsome i hlt hne
        · exact htargets
  unfold FunctionInfo.connect_basic_blocks at h
  obtain ⟨bs, hbs, rfl⟩ := Option.map_eq_some_iff.mp h
  obtain ⟨⟨S, P, rfl⟩, hsome⟩ := hrun _ (Nat.le_refl _) bs hbs
  exact ⟨⟨S, P, rfl⟩, hsome⟩

end

/-! ## The targets of a block -/

section

variable {is : List PtxInstruction} {p q : Nat} {op : Opcode} {pred half : Bool} {name : Symbol}

theorem instrSucc_iff (hget : is[p]? = some (.real op pred name half)) :
    InstrSucc is p q ↔ q < is.length ∧
      ((op = .BRA_OP ∧ ∃ l, LastLabel is name l ∧ q = find_next_real_instruction is l) ∨
        fallsThrough op pred = true ∧ q = find_next_real_instruction is (p + 1)) := by
  constructor
  · rintro (⟨hget', hlast, hq, hlt⟩ | ⟨hget', hfall, hq, hlt⟩)
    · rw [hget] at hget'
      obtain ⟨rfl, rfl, rfl, rfl⟩ : op = .BRA_OP ∧ _ ∧ name = _ ∧ _ := by
        simpa using hget'
      exact ⟨hlt, .inl ⟨rfl, _, hlast, hq⟩⟩
    · rw [hget] at hget'
      obtain ⟨rfl, rfl, rfl, rfl⟩ : op = _ ∧ pred = _ ∧ name = _ ∧ half = _ := by
        simpa using hget'
      exact ⟨hlt, .inr ⟨hfall, hq⟩⟩
  · rintro ⟨hlt, ⟨rfl, l, hlast, hq⟩ | ⟨hfall, hq⟩⟩
    · exact .branch hget hlast hq hlt
    · exact .next hget hfall hq hlt

theorem leaves_iff (hget : is[p]? = some (.real op pred name half)) :
    Leaves is p ↔ op = .RET_OP ∨ op = .RETP_OP ∨ op = .EXIT_OP := by
  constructor
  · rintro ⟨op', pred', name', half', hget', hop⟩
    rw [hget] at hget'
    obtain ⟨rfl, -⟩ : op = op' ∧ _ := by simpa using hget'
    exact hop
  · exact fun hop => ⟨op, pred, name, half, hget, hop⟩

end

section

variable {f : FunctionInfo} {k : Nat} {s e : Nat → Nat}

theorem Created.end_lt (h : Created f k s e) {b c : Nat} (hbc : b < c) (hc : c ≤ k) :
    e b < s c := by
  induction c, hbc using Nat.le_induction with
  | base =>
    rw [h.next b (by omega)]
    exact le_next f.m_instructions (e b + 1)
  | succ m hm ih =>
    have hstep := le_next f.m_instructions (e m + 1)
    rw [← h.next m (by omega)] at hstep
    have := h.ordered m (by omega)
    have := ih (by omega)
    omega

/-- No instruction lies in two blocks. -/
theorem Created.disjoint (h : Created f k s e) {b c p : Nat} (hb : b ≤ k) (hc : c ≤ k)
    (hpb : s b ≤ p ∧ p ≤ e b) (hpc : s c ≤ p ∧ p ≤ e c) : b = c := by
  rcases Nat.lt_trichotomy b c with hlt | rfl | hgt
  · have := h.end_lt hlt hc
    omega
  · rfl
  · have := h.end_lt hgt hb
    omega

theorem Created.bb (h : Created f k s e) {b p : Nat} (hb : b ≤ k)
    (hp : RealAt f.m_instructions p) (hpb : s b ≤ p ∧ p ≤ e b) : f.m_bb[p]? = some b := by
  obtain ⟨c, hc, hpc, hin⟩ := h.owner p hp
  rw [hpc, h.disjoint hb hc hpb hin]

theorem Created.bb_start (h : Created f k s e) {b : Nat} (hb : b ≤ k) :
    f.m_bb[s b]? = some b :=
  h.bb hb (h.begins b hb) ⟨Nat.le_refl _, h.ordered b hb⟩

theorem Created.start_inj (h : Created f k s e) {b c : Nat} (hb : b ≤ k) (hc : c ≤ k)
    (heq : s b = s c) : b = c :=
  h.disjoint hb hc ⟨Nat.le_refl _, h.ordered b hb⟩ ⟨by omega, by rw [heq]; exact h.ordered c hc⟩

/-- Behind the last instruction of a block there is the next block, or behind
all of them nothing. -/
theorem Created.bbAt_next (h : Created f k s e) {b : Nat} (hb : b ≤ k) :
    ∃ addr, f.next_addr (e b) = some addr ∧
      f.bbAt addr = if b < k then some (b + 1) else none := by
  have hreal := h.ends b hb
  obtain ⟨op, pred, name, half, hget⟩ := id hreal
  refine ⟨assembledBytes f.m_instructions (e b + 1), ?_, ?_⟩
  · unfold FunctionInfo.next_addr
    rw [index_of_real hreal, hget, assembledBytes_real hget hreal]
  · unfold FunctionInfo.bbAt
    by_cases hlt : b < k
    · have hnext := h.next b hlt
      have hstart := h.begins (b + 1) hlt
      rw [hnext] at hstart
      rw [m_instr_mem_at hreal.lt hstart.lt, Option.bind_some, ← hnext, h.bb_start hlt, if_pos hlt]
    · obtain rfl : b = k := by omega
      rw [m_instr_mem_end hreal.lt h.last, if_neg hlt]
      rfl

theorem Created.next_iff (h : Created f k s e) {b c : Nat} (hb : b ≤ k) (hc : c ≤ k) :
    s c = find_next_real_instruction f.m_instructions (e b + 1) ↔ b < k ∧ c = b + 1 := by
  constructor
  · intro heq
    rcases Nat.lt_or_eq_of_le hb with hlt | rfl
    · rw [← h.next b hlt] at heq
      exact ⟨hlt, h.start_inj hc hlt heq⟩
    · have := h.last
      have := (h.begins c hc).lt
      omega
  · rintro ⟨hlt, rfl⟩
    exact h.next b hlt

/-- The target of a branch begins a block. -/
theorem Created.bbAt_label (h : Created f k s e) {name : Symbol} {l : Nat}
    (hl : LastLabel f.m_instructions name l)
    (hlt : find_next_real_instruction f.m_instructions l < f.m_instructions.length) :
    ∃ c ≤ k, f.bbAt (labels f.m_instructions name) = some c ∧
      s c = find_next_real_instruction f.m_instructions l := by
  obtain ⟨c, hc, hsc⟩ := h.targets l hl.label hlt
  refine ⟨c, hc, ?_, hsc⟩
  unfold FunctionInfo.bbAt
  rw [labels_of_last hl, m_instr_mem_at (Nat.le_of_lt hl.label.lt) hlt, Option.bind_some, ← hsc,
    h.bb_start hc]

/-- The last instruction of a block is followed by the first of another. -/
theorem Created.succ_iff (h : Created f k s e) {b c : Nat} (hb : b ≤ k) (hc : c ≤ k) {op : Opcode}
    {pred half : Bool} {name : Symbol}
    (hget : f.m_instructions[e b]? = some (.real op pred name half)) :
    InstrSucc f.m_instructions (e b) (s c) ↔
      (op = .BRA_OP ∧ ∃ l, LastLabel f.m_instructions name l ∧
        s c = find_next_real_instruction f.m_instructions l) ∨
      fallsThrough op pred = true ∧ b < k ∧ c = b + 1 := by
  rw [instrSucc_iff hget, h.next_iff hb hc]
  exact and_iff_right (h.begins c hc).lt

/-- The blocks that a branch and the next instruction lead to. -/
theorem Created.targetsOf_branch (h : Created f k s e) (hasm : Assembled f.m_instructions) {b : Nat}
    (hb : b ≤ k) {pred half : Bool} {name : Symbol}
    (hget : f.m_instructions[e b]? = some (.real .BRA_OP pred name half))
    (hon : pred = true → b < k) :
    ∃ targets, f.targetsOf (e b) = some targets ∧
      ∀ c, c ∈ targets ↔ c ≤ k ∧ InstrSucc f.m_instructions (e b) (s c) := by
  obtain ⟨l, hl, hlt⟩ := hasm _ _ _ _ _ hget (.inl rfl)
  obtain ⟨t, ht, hbb, hst⟩ := h.bbAt_label hl hlt
  obtain ⟨addr, haddr, hnext⟩ := h.bbAt_next hb
  have htarget : ∀ c ≤ k, (∃ l, LastLabel f.m_instructions name l ∧
      s c = find_next_real_instruction f.m_instructions l) ↔ c = t := by
    intro c hc
    constructor
    · rintro ⟨l', hl', hsc⟩
      rw [hl'.unique hl, ← hst] at hsc
      exact h.start_inj hc ht hsc
    · rintro rfl
      exact ⟨l, hl, hst⟩
  have hmem : ∀ c, (c ≤ k ∧ InstrSucc f.m_instructions (e b) (s c)) ↔
      c = t ∨ pred = true ∧ c = b + 1 := by
    intro c
    constructor
    · rintro ⟨hc, hsucc⟩
      rw [h.succ_iff hb hc hget, htarget c hc] at hsucc
      rcases hsucc with ⟨-, hct⟩ | ⟨hfall, -, hcb⟩
      · exact .inl hct
      · exact .inr ⟨hfall, hcb⟩
    · intro hc
      have hck : c ≤ k := by
        rcases hc with rfl | ⟨hp, rfl⟩
        · exact ht
        · exact hon hp
      refine ⟨hck, (h.succ_iff hb hck hget).mpr ?_⟩
      rw [htarget c hck]
      rcases hc with hct | ⟨hp, hcb⟩
      · exact .inl ⟨rfl, hct⟩
      · exact .inr ⟨hp, hon hp, hcb⟩
  unfold FunctionInfo.targetsOf
  cases pred with
  | false =>
    refine ⟨[t], by simp [hget, PtxInstruction.get_opcode, PtxInstruction.has_pred,
      PtxInstruction.dst, hbb], fun c => ?_⟩
    rw [hmem]
    simp
  | true =>
    rw [if_pos (hon rfl)] at hnext
    refine ⟨[t, b + 1], by simp [hget, PtxInstruction.get_opcode, PtxInstruction.has_pred,
      PtxInstruction.dst, hbb, haddr, hnext], fun c => ?_⟩
    rw [hmem]
    simp

/-- A return or exit leads out of the function, and to the next block too where
it has a predicate. -/
theorem Created.targetsOf_leaves (h : Created f k s e) {b : Nat} (hb : b ≤ k) {op : Opcode}
    {pred half : Bool} {name : Symbol}
    (hget : f.m_instructions[e b]? = some (.real op pred name half))
    (hop : op = .RET_OP ∨ op = .RETP_OP ∨ op = .EXIT_OP) :
    ∃ targets, f.targetsOf (e b) = some targets ∧
      ∀ c, c ∈ targets ↔ c = k + 1 ∨ c ≤ k ∧ InstrSucc f.m_instructions (e b) (s c) := by
  obtain ⟨addr, haddr, hnext⟩ := h.bbAt_next hb
  have hexit : f.m_basic_blocks.length - 1 = k + 1 := by simp [h.size]
  have hfall : fallsThrough op pred = pred := by
    rcases hop with rfl | rfl | rfl <;> rfl
  have hbra : op ≠ .BRA_OP := by
    rcases hop with rfl | rfl | rfl <;> simp
  have hmem : ∀ c, (c ≤ k ∧ InstrSucc f.m_instructions (e b) (s c)) ↔
      pred = true ∧ b < k ∧ c = b + 1 := by
    intro c
    constructor
    · rintro ⟨hc, hsucc⟩
      rw [h.succ_iff hb hc hget, hfall] at hsucc
      exact hsucc.resolve_left fun hcon => hbra hcon.1
    · rintro ⟨hp, hlt, rfl⟩
      refine ⟨hlt, (h.succ_iff hb hlt hget).mpr (.inr ⟨by rw [hfall, hp], hlt, rfl⟩)⟩
  have hrun : f.targetsOf (e b) = some (if pred = true ∧ b < k then [k + 1, b + 1] else [k + 1]) := by
    unfold FunctionInfo.targetsOf
    rw [hexit]
    by_cases hlt : b < k
    · rw [if_pos hlt] at hnext
      rcases hop with rfl | rfl | rfl <;> cases pred <;>
        simp [hget, PtxInstruction.get_opcode, PtxInstruction.has_pred, haddr, hnext, hlt]
    · rw [if_neg hlt] at hnext
      rcases hop with rfl | rfl | rfl <;> cases pred <;>
        simp [hget, PtxInstruction.get_opcode, PtxInstruction.has_pred, haddr, hnext, hlt]
  refine ⟨_, hrun, fun c => ?_⟩
  rw [hmem]
  split
  · rename_i hboth
    simp [hboth]
  · rename_i hnot
    simp only [List.mem_singleton]
    tauto

/-- Any other instruction leads to the next. -/
theorem Created.targetsOf_next (h : Created f k s e) {b : Nat} (hb : b ≤ k) {op : Opcode}
    {pred half : Bool} {name : Symbol}
    (hget : f.m_instructions[e b]? = some (.real op pred name half))
    (hop : ¬ (op = .RET_OP ∨ op = .RETP_OP ∨ op = .EXIT_OP)) (hbra : op ≠ .BRA_OP) :
    f.targetsOf (e b) = if b < k then some [b + 1] else none := by
  obtain ⟨addr, haddr, hnext⟩ := h.bbAt_next hb
  unfold FunctionInfo.targetsOf
  cases op <;> simp_all [PtxInstruction.get_opcode]

/-- The targets of a block are those of its last instruction. -/
theorem Created.targetsOf (h : Created f k s e) (hasm : Assembled f.m_instructions) {b : Nat}
    (hb : b ≤ k) (hend : EndsFunction f.m_instructions) :
    ∃ targets, f.targetsOf (e b) = some targets ∧
      ∀ c, c ∈ targets ↔ c = k + 1 ∧ Leaves f.m_instructions (e b) ∨
        c ≤ k ∧ InstrSucc f.m_instructions (e b) (s c) := by
  obtain ⟨op, pred, name, half, hget⟩ := h.ends b hb
  have hlast : ¬ b < k →
      op = .RET_OP ∨ op = .RETP_OP ∨ op = .EXIT_OP ∨ op = .BRA_OP ∧ pred = false := by
    intro hlt
    obtain rfl : b = k := by omega
    exact hend _ _ _ _ _ hget h.last
  have hleaves := leaves_iff hget
  by_cases hop : op = .RET_OP ∨ op = .RETP_OP ∨ op = .EXIT_OP
  · obtain ⟨targets, hrun, hmem⟩ := h.targetsOf_leaves hb hget hop
    refine ⟨targets, hrun, fun c => ?_⟩
    rw [hmem, hleaves, and_iff_left hop]
  · rw [hleaves]
    by_cases hbra : op = .BRA_OP
    · subst hbra
      obtain ⟨targets, hrun, hmem⟩ := h.targetsOf_branch hasm hb hget (by
        intro hp
        by_contra hlt
        have := hlast hlt
        simp_all)
      refine ⟨targets, hrun, fun c => ?_⟩
      rw [hmem]
      simp
    · have hlt : b < k := by
        by_contra hlt
        have := hlast hlt
        simp_all
      have hfall : fallsThrough op pred = true := by
        cases op <;> simp_all [fallsThrough]
      refine ⟨[b + 1], by rw [h.targetsOf_next hb hget hop hbra, if_pos hlt], fun c => ?_⟩
      constructor
      · intro hc
        obtain rfl : c = b + 1 := by simpa using hc
        exact .inr ⟨hlt, (h.succ_iff hb hlt hget).mpr (.inr ⟨hfall, hlt, rfl⟩)⟩
      · rintro (⟨-, hcon⟩ | ⟨hc, hsucc⟩)
        · exact absurd hcon hop
        · rw [h.succ_iff hb hc hget] at hsucc
          rcases hsucc with ⟨hcon, -⟩ | ⟨-, -, rfl⟩
          · exact absurd hcon hbra
          · simp

end

/-! ## The partition -/

section

variable {f : FunctionInfo} {k : Nat} {s e : Nat → Nat}

/-- The blocks have no edges yet. -/
theorem Created.fresh (h : Created f k s e) :
    f.m_basic_blocks = withEdges f.m_basic_blocks (fun _ => ∅) fun _ => ∅ := by
  refine List.ext_getElem (by simp) fun i hi hi' => ?_
  have hblock : block f.m_basic_blocks i = block (withEdges f.m_basic_blocks (fun _ => ∅)
      fun _ => ∅) i := by
    rw [block_withEdges hi]
    have hlt : i < k + 2 := by rwa [h.size] at hi
    rcases Nat.lt_or_eq_of_le (Nat.le_of_lt_succ hlt) with hle | rfl
    · rw [h.fields i (by omega)]
    · rw [h.exit]
  rwa [block_eq hi, block_eq hi'] at hblock

end

/-! ## Two labels in front -/

section

variable {is : List PtxInstruction}

theorem startBlock_keeps_first {c : Cutting} (hc : 2 ≤ c.m_basic_blocks.length) (i : Nat) :
    2 ≤ (c.startBlock is i).m_basic_blocks.length ∧
      block (c.startBlock is i).m_basic_blocks 0 = block c.m_basic_blocks 0 := by
  have hclosed : block (closeBlock c.m_basic_blocks c.last_real_inst) 0 =
      block c.m_basic_blocks 0 := by
    rw [block_closeBlock (by omega), if_neg (by omega)]
  unfold Cutting.startBlock
  dsimp only
  split
  · refine ⟨by simp; omega, ?_⟩
    rw [block_append_left (by simp; omega), hclosed]
  · exact ⟨by simpa using hc, hclosed⟩

theorem cutAt_keeps_first {c : Cutting} (hc : 2 ≤ c.m_basic_blocks.length) (i : Nat) :
    2 ≤ (c.cutAt is i).m_basic_blocks.length ∧
      block (c.cutAt is i).m_basic_blocks 0 = block c.m_basic_blocks 0 := by
  rw [cutAt_eq]
  unfold Cutting.assign
  dsimp only
  split
  · exact startBlock_keeps_first hc i
  · exact ⟨hc, rfl⟩

/-- The second label closes the first block, and its end is the first label. -/
theorem cutBlocks_two_labels (htwo : TwoLeadingLabels is)
    (hreal : find_next_real_instruction is 0 < is.length) :
    2 ≤ (cutBlocks is).m_basic_blocks.length ∧
      block (cutBlocks is).m_basic_blocks 0 =
        { bb_id := 0, ptx_begin := some (find_next_real_instruction is 0), ptx_end := some 0,
          is_entry := true } := by
  obtain ⟨h0, h1⟩ := htwo
  have hlen := h1.lt
  have hlead : leads is 1 = true := by
    rw [leads_label_label h0 h1]
    rfl
  have hleaders : leadersFrom is is.length 1 = 1 :: leadersAfter is 2 := by
    rw [leadersFrom_first (by omega), leadersAfter_step (by omega), leads_zero,
      leadersAfter_step (show 0 + 1 < _ by omega), hlead]
    rfl
  have hnext : find_next_real_instruction is 1 < is.length := by
    rwa [next_of_label h0] at hreal
  obtain ⟨name, hget0⟩ := id h0
  obtain ⟨name', hget1⟩ := id h1
  have hrun : ∀ n, 2 ≤ n →
      2 ≤ ((List.range n).foldl (Cutting.cutAt is)
        { m_basic_blocks := [{
            bb_id := 0
            ptx_begin := some (find_next_real_instruction is 0)
            is_entry := true }]
          l := leadersFrom is is.length 1
          last_real_inst := 0 }).m_basic_blocks.length ∧
      block ((List.range n).foldl (Cutting.cutAt is)
        { m_basic_blocks := [{
            bb_id := 0
            ptx_begin := some (find_next_real_instruction is 0)
            is_entry := true }]
          l := leadersFrom is is.length 1
          last_real_inst := 0 }).m_basic_blocks 0 =
        { bb_id := 0, ptx_begin := some (find_next_real_instruction is 0), ptx_end := some 0,
          is_entry := true } := by
    intro n hn
    induction n, hn using Nat.le_induction with
    | base =>
      simp [List.range_succ, hleaders, Cutting.cutAt, Cutting.startBlock, hget0, hget1, hnext,
        closeBlock, block]
    | succ n hn ih =>
      rw [List.range_succ, List.foldl_append]
      obtain ⟨hsize, hfirst⟩ := ih
      have hstep := @cutAt_keeps_first is _ hsize n
      exact ⟨hstep.1, hstep.2.trans hfirst⟩
  exact hrun is.length (by omega)

/-- The end of the first block is then no instruction to go on from. -/
theorem connect_two_labels {f f₁ : FunctionInfo} (htwo : TwoLeadingLabels f.m_instructions)
    (hcreate : f.create_basic_blocks = some f₁) : f₁.connect_basic_blocks = none := by
  unfold FunctionInfo.create_basic_blocks at hcreate
  split at hcreate
  · rename_i hreal
    obtain ⟨hsize, hfirst⟩ := cutBlocks_two_labels htwo hreal
    obtain rfl := Option.some.inj hcreate
    obtain ⟨⟨name, hget⟩, -⟩ := htwo
    have hblock : block (closeBlock (cutBlocks f.m_instructions).m_basic_blocks
        (cutBlocks f.m_instructions).last_real_inst ++
          [{ bb_id := (closeBlock (cutBlocks f.m_instructions).m_basic_blocks
              (cutBlocks f.m_instructions).last_real_inst).length, is_exit := true }]) 0 =
        { bb_id := 0, ptx_begin := some (find_next_real_instruction f.m_instructions 0),
          ptx_end := some 0, is_entry := true } := by
      rw [block_append_left (by simp; omega), block_closeBlock (by omega), if_neg (by omega),
        hfirst]
    unfold FunctionInfo.connect_basic_blocks
    dsimp only
    rw [List.length_append, List.length_singleton, List.range_succ_eq_map, List.foldlM_cons]
    have hnone : ∀ g : FunctionInfo, g.m_instructions = f.m_instructions →
        g.targetsOf 0 = none := by
      intro g hg
      unfold FunctionInfo.targetsOf FunctionInfo.next_addr get_m_instr_mem_index
      simp [hg, hget, PtxInstruction.get_opcode]
    unfold FunctionInfo.connectBlock
    rw [hblock]
    simp [hnone]
  · simp at hcreate

end

/-! ## The condition -/

end gpgpu_sim_uvm
