-- The second loop of create_basic_blocks cuts the list into runs of real
-- instructions that end where the next one begins.
import GpgpuSimUvm.BlockCuts

namespace gpgpu_sim_uvm

/-! ## The blocks of a cutting -/

@[simp] theorem length_closeBlock (bs : List BasicBlock) (v : Nat) :
    (closeBlock bs v).length = bs.length := by simp [closeBlock]

theorem block_closeBlock {bs : List BasicBlock} {v j : Nat} (h : j < bs.length) :
    block (closeBlock bs v) j =
      if j + 1 = bs.length then { block bs j with ptx_end := some v } else block bs j := by
  rw [block_eq (by simpa using h), block_eq h]
  unfold closeBlock
  rw [List.getElem_modify]
  by_cases hj : j + 1 = bs.length
  · rw [if_pos (by omega), if_pos hj]
  · rw [if_neg (by omega), if_neg hj]

theorem block_append_left {bs cs : List BasicBlock} {j : Nat} (h : j < bs.length) :
    block (bs ++ cs) j = block bs j := by
  simp [block, List.getElem?_append_left h]

theorem block_append_self {bs : List BasicBlock} (b : BasicBlock) :
    block (bs ++ [b]) bs.length = b := by
  simp [block]

/-! ## Transfers -/

/-- The opcodes that end a block. -/
def transfers : Opcode → Bool
  | .BRA_OP | .RET_OP | .EXIT_OP | .RETP_OP | .BREAK_OP => true
  | _ => false

def TransferAt (is : List PtxInstruction) (p : Nat) : Prop :=
  ∃ op pred dst half, is[p]? = some (.real op pred dst half) ∧ transfers op = true

theorem TransferAt.real {is : List PtxInstruction} {p : Nat} (h : TransferAt is p) :
    RealAt is p := by
  obtain ⟨op, pred, dst, half, h, -⟩ := h
  exact ⟨op, pred, dst, half, h⟩

/-- Behind a transfer, other than the first instruction, a real instruction
leads. -/
theorem TransferAt.leads {is : List PtxInstruction} {p : Nat} (h : TransferAt is p) (hp : 1 ≤ p)
    (hr : RealAt is (p + 1)) : leads is (p + 1) = true := by
  obtain ⟨op, pred, dst, half, h, hop⟩ := h
  rw [leads_real h hr]
  cases op <;> simp_all [transfers, cutsBehind]

/-! ## What holds between the turns -/

/-- The blocks up to `k` begin at `s`, and those before it end at `e`. -/
structure Runs (is : List PtxInstruction) (k i : Nat) (s e : Nat → Nat) (c : Cutting) : Prop where
  size : c.m_basic_blocks.length = k + 1
  bbs : c.m_bb.length = i
  fields : ∀ j ≤ k, ∃ last, block c.m_basic_blocks j =
    { bb_id := j, ptx_begin := some (s j), ptx_end := last, is_entry := decide (j = 0) }
  first : s 0 = find_next_real_instruction is 0
  begins : ∀ j ≤ k, RealAt is (s j)
  closed : ∀ j < k, (block c.m_basic_blocks j).ptx_end = some (e j) ∧ RealAt is (e j) ∧
    s j ≤ e j ∧ s (j + 1) = find_next_real_instruction is (e j + 1)
  led : ∀ j < k, ∃ q, leads is q = true ∧ s (j + 1) = find_next_real_instruction is q
  owner : ∀ p < i, RealAt is p → (∃ j < k, c.m_bb[p]? = some j ∧ s j ≤ p ∧ p ≤ e j) ∨
    c.m_bb[p]? = some k ∧ s k ≤ p ∧ p ≤ c.last_real_inst
  targets : ∀ q < i, LabelAt is q → find_next_real_instruction is q < is.length →
    ∃ j ≤ k, s j = find_next_real_instruction is q
  transfers : ∀ p < i, TransferAt is p → (∃ j < k, e j = p) ∨ p = c.last_real_inst ∧ s k ≤ p ∨
    p = 0 ∧ RealAt is 1

/-- The last block has begun, and behind its last instruction there are labels
only. -/
structure Started (is : List PtxInstruction) (i sk last : Nat) : Prop where
  begun : sk ≤ last
  before : last < i
  real : RealAt is last
  labels : ∀ q, last < q → q < i → LabelAt is q

/-- The last block begins at the next real instruction. -/
structure Announced (is : List PtxInstruction) (i sk : Nat) : Prop where
  ahead : i ≤ sk
  next : sk = find_next_real_instruction is i

/-- Between two turns. -/
structure Cut (is : List PtxInstruction) (k i : Nat) (s e : Nat → Nat) (c : Cutting) : Prop
    extends Runs is k i s e c where
  leaders : c.l = leadersAfter is i
  place : Started is i (s k) c.last_real_inst ∨
    Announced is i (s k) ∧ (0 < i → LabelAt is (i - 1))

/-- Within a turn, behind the test for a leader. -/
structure Tested (is : List PtxInstruction) (k i : Nat) (s e : Nat → Nat) (c : Cutting) : Prop
    extends Runs is k i s e c where
  leaders : c.l = leadersAfter is (i + 1)
  place : Started is i (s k) c.last_real_inst ∧
      (RealAt is i → i = c.last_real_inst + 1 ∧ (TransferAt is c.last_real_inst → i = 1)) ∧
      (LabelAt is i → find_next_real_instruction is i < is.length →
        ∃ j ≤ k, s j = find_next_real_instruction is i) ∨
    Announced is i (s k)

section

variable {is : List PtxInstruction} {k i : Nat} {s e : Nat → Nat} {c : Cutting}

/-- The blocks follow one another. -/
theorem Runs.start_lt (h : Runs is k i s e c) {j : Nat} (hj : j < k) : e j < s (j + 1) := by
  obtain ⟨-, -, -, hnext⟩ := h.closed j hj
  have := le_next is (e j + 1)
  omega

theorem Runs.end_lt (h : Runs is k i s e c) {j j' : Nat} (hjj : j < j') (hj' : j' ≤ k) :
    e j < s j' := by
  induction j', hjj using Nat.le_induction with
  | base => exact h.start_lt (by omega)
  | succ m hm ih =>
    have hm' := h.start_lt (show m < k by omega)
    obtain ⟨-, -, hle, -⟩ := h.closed m (by omega)
    have := ih (by omega)
    omega

theorem Runs.start_le (h : Runs is k i s e c) {j : Nat} (hj : j ≤ k) : s j ≤ s k := by
  rcases Nat.lt_or_eq_of_le hj with hlt | rfl
  · have := h.end_lt hlt (Nat.le_refl k)
    obtain ⟨-, -, hle, -⟩ := h.closed j hlt
    omega
  · exact Nat.le_refl _

/-! ## The start of a block -/

/-- Where the last block has begun, its run ends at the leader. -/
theorem Cut.push (h : Cut is k i s e c) (hst : Started is i (s k) c.last_real_inst)
    (hlead : leads is i = true) (hnext : find_next_real_instruction is i < is.length) :
    Tested is (k + 1) i (Function.update s (k + 1) (find_next_real_instruction is i))
      (Function.update e k c.last_real_inst) (c.startBlock is i) := by
  have hsk : ∀ j ≤ k, Function.update s (k + 1) (find_next_real_instruction is i) j = s j :=
    fun j hj => Function.update_of_ne (by omega) _ _
  have hsn : Function.update s (k + 1) (find_next_real_instruction is i) (k + 1) =
      find_next_real_instruction is i := Function.update_self _ _ _
  have hek : ∀ j < k, Function.update e k c.last_real_inst j = e j :=
    fun j hj => Function.update_of_ne (by omega) _ _
  have hen : Function.update e k c.last_real_inst k = c.last_real_inst :=
    Function.update_self _ _ _
  have hgap : find_next_real_instruction is (c.last_real_inst + 1) =
      find_next_real_instruction is i :=
    next_skip hst.before fun q hq hqi => hst.labels q hq hqi
  have hsize := h.size
  have hlen : (closeBlock c.m_basic_blocks c.last_real_inst).length = k + 1 := by simp [hsize]
  -- the blocks before the new one
  have hold : ∀ j ≤ k, block (c.startBlock is i).m_basic_blocks j =
      if j = k then { block c.m_basic_blocks j with ptx_end := some c.last_real_inst }
      else block c.m_basic_blocks j := by
    intro j hj
    simp only [Cutting.startBlock, if_pos hnext]
    rw [block_append_left (by omega), block_closeBlock (by omega), hsize]
    simp
  have hnew : block (c.startBlock is i).m_basic_blocks (k + 1) =
      { bb_id := k + 1, ptx_begin := some (find_next_real_instruction is i) } := by
    simp only [Cutting.startBlock, if_pos hnext]
    rw [← hlen, block_append_self]
  have hbb : (c.startBlock is i).m_bb = c.m_bb := by simp [Cutting.startBlock, hnext]
  have hlast : (c.startBlock is i).last_real_inst = find_next_real_instruction is i := by
    simp [Cutting.startBlock, hnext]
  refine { size := ?_, bbs := by rw [hbb, h.bbs], fields := fun j hj => ?_, first := ?_,
           begins := fun j hj => ?_, closed := fun j hj => ?_, led := fun j hj => ?_,
           owner := fun p hp hr => ?_, targets := fun q hq hl hlt => ?_,
           transfers := fun p hp ht => ?_, leaders := ?_, place := .inr ?_ }
  · simp [Cutting.startBlock, hnext, hsize]
  · rcases Nat.lt_or_eq_of_le hj with hlt | rfl
    · obtain ⟨last, hf⟩ := h.fields j (by omega)
      rw [hold j (by omega), hsk j (by omega), hf]
      split
      · exact ⟨_, rfl⟩
      · exact ⟨_, rfl⟩
    · rw [hnew, hsn]
      exact ⟨none, by simp⟩
  · rw [hsk 0 (Nat.zero_le k), h.first]
  · rcases Nat.lt_or_eq_of_le hj with hlt | rfl
    · rw [hsk j (by omega)]
      exact h.begins j (by omega)
    · rw [hsn]
      exact next_real hnext
  · rcases Nat.lt_or_eq_of_le (Nat.le_of_lt_succ hj) with hlt | rfl
    · rw [hold j (by omega), if_neg (by omega), hsk j (by omega), hsk (j + 1) (by omega), hek j hlt]
      exact h.closed j hlt
    · rw [hold j (Nat.le_refl j), if_pos rfl, hsk j (Nat.le_refl j), hsn, hen]
      exact ⟨rfl, hst.real, hst.begun, hgap.symm⟩
  · rcases Nat.lt_or_eq_of_le (Nat.le_of_lt_succ hj) with hlt | rfl
    · rw [hsk (j + 1) (by omega)]
      exact h.led j hlt
    · rw [hsn]
      exact ⟨i, hlead, rfl⟩
  · rw [hbb]
    rcases h.owner p hp hr with ⟨j, hj, hpj, hsj, hej⟩ | ⟨hpk, hsp, hpl⟩
    · exact .inl ⟨j, by omega, hpj, by rwa [hsk j (by omega)], by rwa [hek j hj]⟩
    · exact .inl ⟨k, by omega, hpk, by rwa [hsk k (Nat.le_refl k)], by rwa [hen]⟩
  · obtain ⟨j, hj, hsj⟩ := h.targets q hq hl hlt
    exact ⟨j, by omega, by rw [hsk j hj, hsj]⟩
  · rcases h.transfers p hp ht with ⟨j, hj, hej⟩ | ⟨hpl, -⟩ | hz
    · exact .inl ⟨j, by omega, by rw [hek j hj, hej]⟩
    · exact .inl ⟨k, by omega, by rw [hen, hpl]⟩
    · exact .inr (.inr hz)
  · have hl : (c.startBlock is i).l = c.l.tail := by simp [Cutting.startBlock, hnext]
    rw [hl, h.leaders, leadersAfter_step (leads_lt hlead), if_pos hlead, List.tail_cons]
  · rw [hsn]
    exact ⟨le_next is i, rfl⟩

/-- A trailing label starts nothing. -/
theorem Cut.bogus (h : Cut is k i s e c) (hst : Started is i (s k) c.last_real_inst)
    (hlead : leads is i = true) (hnext : ¬ find_next_real_instruction is i < is.length) :
    Tested is k i s e (c.startBlock is i) := by
  have hsize := h.size
  have hold : ∀ j ≤ k, block (c.startBlock is i).m_basic_blocks j =
      if j = k then { block c.m_basic_blocks j with ptx_end := some c.last_real_inst }
      else block c.m_basic_blocks j := by
    intro j hj
    simp only [Cutting.startBlock, if_neg hnext]
    rw [block_closeBlock (by omega), hsize]
    simp
  have hbb : (c.startBlock is i).m_bb = c.m_bb := by simp [Cutting.startBlock, hnext]
  have hlast : (c.startBlock is i).last_real_inst = c.last_real_inst := by
    simp [Cutting.startBlock, hnext]
  refine { size := ?_, bbs := by rw [hbb, h.bbs], fields := fun j hj => ?_, first := h.first,
           begins := h.begins, closed := fun j hj => ?_, led := h.led,
           owner := by rw [hbb, hlast]; exact h.owner, targets := h.targets,
           transfers := by rw [hlast]; exact h.transfers, leaders := ?_, place := .inl ?_ }
  · simp [Cutting.startBlock, hnext, hsize]
  · obtain ⟨last, hf⟩ := h.fields j hj
    rw [hold j hj, hf]
    split
    · exact ⟨_, rfl⟩
    · exact ⟨_, rfl⟩
  · rw [hold j (by omega), if_neg (by omega)]
    exact h.closed j hj
  · have hl : (c.startBlock is i).l = c.l.tail := by simp [Cutting.startBlock, hnext]
    rw [hl, h.leaders, leadersAfter_step (leads_lt hlead), if_pos hlead, List.tail_cons]
  · rw [hlast]
    refine ⟨hst, fun hr => ?_, fun _ hlt => absurd hlt hnext⟩
    rw [next_of_real hr] at hnext
    exact absurd hr.lt hnext

/-- The list begins with two labels. -/
def TwoLeadingLabels (is : List PtxInstruction) : Prop := LabelAt is 0 ∧ LabelAt is 1

/-- No leader is found where the last block has yet to begin. -/
theorem Cut.started (h : Cut is k i s e c) (htwo : ¬ TwoLeadingLabels is)
    (hlead : leads is i = true) : Started is i (s k) c.last_real_inst := by
  refine h.place.resolve_right fun ⟨_, hlabel⟩ => ?_
  cases i with
  | zero => simp [leads_zero] at hlead
  | succ j =>
    have hl : LabelAt is j := hlabel (Nat.succ_pos j)
    rcases label_or_real (leads_lt hlead) with hl' | hr'
    · rw [leads_label_label hl hl'] at hlead
      obtain rfl : j = 0 := by simpa using hlead
      exact htwo ⟨hl, hl'⟩
    · rw [leads_label_real hl hr'] at hlead
      exact absurd hlead (by simp)

/-- Where there is no leader the last block goes on, or is still to begin. -/
theorem Cut.skip (h : Cut is k i s e c) (hi : i < is.length) (hlead : leads is i = false) :
    Tested is k i s e c := by
  have hleaders : c.l = leadersAfter is (i + 1) := by
    rw [h.leaders, leadersAfter_step hi, hlead]
    simp
  refine { toRuns := h.toRuns, leaders := hleaders, place := ?_ }
  rcases h.place with hst | ⟨han, -⟩
  · refine .inl ⟨hst, fun hr => ?_, fun hl hlt => ?_⟩
    · -- a label in front of a real instruction would have begun a block
      have hnext : i = c.last_real_inst + 1 := by
        by_contra hne
        have hbefore := hst.before
        have hl : LabelAt is (i - 1) := hst.labels (i - 1) (by omega) (by omega)
        have heq : find_next_real_instruction is (i - 1) = i := by
          rw [next_of_label hl, Nat.sub_add_cancel (by omega), next_of_real hr]
        obtain ⟨j, hj, hsj⟩ := h.targets (i - 1) (by omega) hl (by rwa [heq])
        have := h.start_le hj
        have := hst.begun
        omega
      refine ⟨hnext, fun ht => ?_⟩
      by_contra hne
      have := ht.leads (by omega) (hnext ▸ hr)
      rw [← hnext, hlead] at this
      simp at this
    · cases i with
      | zero => exact absurd hst.before (Nat.not_lt_zero _)
      | succ j =>
        rcases label_or_real (Nat.lt_of_succ_lt hi) with hl' | hr'
        · rw [← next_of_label hl'] at hlt ⊢
          exact h.targets j (Nat.lt_succ_self j) hl' hlt
        · rw [leads_real_label hr' hl] at hlead
          exact absurd hlead (by simp)
  · exact .inr han

/-! ## A turn -/

/-- What a turn does behind the test for a leader. -/
def Cutting.assign (is : List PtxInstruction) (c : Cutting) (i : Nat) : Cutting :=
  { c with
    m_bb := c.m_bb ++ [c.m_basic_blocks.length - 1]
    last_real_inst := match is[i]? with
      | some (.real ..) => i
      | _ => c.last_real_inst }

theorem cutAt_eq (is : List PtxInstruction) (c : Cutting) (i : Nat) :
    c.cutAt is i = (if c.l.head? = some i then c.startBlock is i else c).assign is i := rfl

theorem last_assign_real (hr : RealAt is i) : (c.assign is i).last_real_inst = i := by
  obtain ⟨op, pred, dst, half, h⟩ := hr
  simp [Cutting.assign, h]

theorem last_assign_label (hl : LabelAt is i) :
    (c.assign is i).last_real_inst = c.last_real_inst := by
  obtain ⟨name, h⟩ := hl
  simp [Cutting.assign, h]

theorem Tested.assign_real (h : Tested is k i s e c) (hr : RealAt is i) :
    Cut is k (i + 1) s e (c.assign is i) := by
  have hlast := last_assign_real (c := c) hr
  have hsize := h.size
  have hbbs := h.bbs
  have hown : (c.assign is i).m_bb[i]? = some k := by
    simp [Cutting.assign, ← hbbs, hsize]
  have hkeep : ∀ p < i, (c.assign is i).m_bb[p]? = c.m_bb[p]? := by
    intro p hp
    simp only [Cutting.assign]
    rw [List.getElem?_append_left (by omega)]
  -- the block holds the instruction, and its earlier ones are behind it
  have hsk : s k ≤ i := by
    rcases h.place with ⟨hst, -, -⟩ | han
    · have := hst.begun
      have := hst.before
      omega
    · rw [han.next, next_of_real hr]
  have hlabels : ∀ p < i, s k ≤ p → p ≤ c.last_real_inst ∧ (TransferAt is p → p = c.last_real_inst →
      i = p + 1 ∧ i = 1) := by
    intro p hp hsp
    rcases h.place with ⟨hst, hnext, -⟩ | han
    · obtain ⟨hi, ht⟩ := hnext hr
      refine ⟨by omega, fun htp hpl => ⟨by omega, ht (hpl ▸ htp)⟩⟩
    · have := han.ahead
      omega
  refine { size := hsize, bbs := by simp [Cutting.assign, hbbs], fields := h.fields,
           first := h.first, begins := h.begins, closed := h.closed, led := h.led,
           owner := fun p hp hrp => ?_, targets := fun q hq hl hlt => ?_,
           transfers := fun p hp ht => ?_, leaders := h.leaders, place := .inl ?_ }
  · rw [hlast]
    rcases Nat.lt_or_eq_of_le (Nat.le_of_lt_succ hp) with hlt | rfl
    · rw [hkeep p hlt]
      refine (h.owner p hlt hrp).imp_right fun ⟨hpk, hsp, _⟩ => ⟨hpk, hsp, by omega⟩
    · exact .inr ⟨hown, hsk, Nat.le_refl _⟩
  · rcases Nat.lt_or_eq_of_le (Nat.le_of_lt_succ hq) with hqi | rfl
    · exact h.targets q hqi hl hlt
    · exact absurd hl hr.not_label
  · rw [hlast]
    rcases Nat.lt_or_eq_of_le (Nat.le_of_lt_succ hp) with hlt | rfl
    · rcases h.transfers p hlt ht with hcl | ⟨hpl, hsp⟩ | hz
      · exact .inl hcl
      · obtain ⟨hip, hi1⟩ := (hlabels p hlt hsp).2 ht hpl
        subst hi1
        exact .inr (.inr ⟨by omega, hr⟩)
      · exact .inr (.inr hz)
    · exact .inr (.inl ⟨rfl, hsk⟩)
  · rw [hlast]
    exact ⟨hsk, Nat.lt_succ_self i, hr, fun q hq hqi => by omega⟩

theorem Tested.assign_label (h : Tested is k i s e c) (hl : LabelAt is i) :
    Cut is k (i + 1) s e (c.assign is i) := by
  have hlast := last_assign_label (c := c) hl
  have hsize := h.size
  have hbbs := h.bbs
  have hkeep : ∀ p < i, (c.assign is i).m_bb[p]? = c.m_bb[p]? := by
    intro p hp
    simp only [Cutting.assign]
    rw [List.getElem?_append_left (by omega)]
  refine { size := hsize, bbs := by simp [Cutting.assign, hbbs], fields := h.fields,
           first := h.first, begins := h.begins, closed := h.closed, led := h.led,
           owner := fun p hp hrp => ?_, targets := fun q hq hlq hlt => ?_,
           transfers := fun p hp ht => ?_, leaders := h.leaders, place := ?_ }
  · rcases Nat.lt_or_eq_of_le (Nat.le_of_lt_succ hp) with hlt | rfl
    · rw [hlast, hkeep p hlt]
      exact h.owner p hlt hrp
    · exact absurd hl hrp.not_label
  · rcases Nat.lt_or_eq_of_le (Nat.le_of_lt_succ hq) with hqi | rfl
    · exact h.targets q hqi hlq hlt
    · rcases h.place with ⟨-, -, htarget⟩ | han
      · exact htarget hl hlt
      · exact ⟨k, Nat.le_refl k, han.next⟩
  · rw [hlast]
    rcases Nat.lt_or_eq_of_le (Nat.le_of_lt_succ hp) with hlt | rfl
    · exact h.transfers p hlt ht
    · exact absurd hl ht.real.not_label
  · rw [hlast]
    rcases h.place with ⟨hst, -, -⟩ | han
    · refine .inl ⟨hst.begun, Nat.lt_succ_of_lt hst.before, hst.real, fun q hq hqi => ?_⟩
      rcases Nat.lt_or_eq_of_le (Nat.le_of_lt_succ hqi) with hlt | rfl
      · exact hst.labels q hq hlt
      · exact hl
    · have hnext := han.next
      rw [next_of_label hl] at hnext
      have := le_next is (i + 1)
      exact .inr ⟨⟨by omega, hnext⟩, fun _ => by simpa using hl⟩

/-- One turn of the second loop. -/
theorem Cut.cutAt (h : Cut is k i s e c) (htwo : ¬ TwoLeadingLabels is) (hi : i < is.length) :
    ∃ k' s' e', Cut is k' (i + 1) s' e' (c.cutAt is i) := by
  have htested : ∃ k' s' e', Tested is k' i s' e'
      (if c.l.head? = some i then c.startBlock is i else c) := by
    have hhead : c.l.head? = some i ↔ leads is i = true := by
      rw [h.leaders, leadersAfter_step hi]
      constructor
      · intro hh
        by_contra hne
        rw [if_neg hne] at hh
        have hmem := List.mem_of_mem_head? hh
        simp only [leadersAfter, List.mem_filter, List.mem_range'_1] at hmem
        omega
      · intro hl
        simp [hl]
    by_cases hlead : leads is i = true
    · rw [if_pos (hhead.mpr hlead)]
      have hst := h.started htwo hlead
      by_cases hnext : find_next_real_instruction is i < is.length
      · exact ⟨_, _, _, h.push hst hlead hnext⟩
      · exact ⟨_, _, _, h.bogus hst hlead hnext⟩
    · rw [if_neg fun hh => hlead (hhead.mp hh)]
      exact ⟨_, _, _, h.skip hi (by simpa using hlead)⟩
  obtain ⟨k', s', e', ht⟩ := htested
  rw [cutAt_eq]
  refine ⟨k', s', e', ?_⟩
  rcases label_or_real hi with hl | hr
  · exact ht.assign_label hl
  · exact ht.assign_real hr

/-- The whole loop. -/
theorem cutBlocks_cut (htwo : ¬ TwoLeadingLabels is)
    (hreal : find_next_real_instruction is 0 < is.length) :
    ∃ k s e, Cut is k is.length s e (cutBlocks is) := by
  have hrun : ∀ n ≤ is.length, ∃ k s e, Cut is k n s e
      ((List.range n).foldl (Cutting.cutAt is)
        { m_basic_blocks := [{
            bb_id := 0
            ptx_begin := some (find_next_real_instruction is 0)
            is_entry := true }]
          l := leadersFrom is is.length 1
          last_real_inst := 0 }) := by
    intro n
    induction n with
    | zero =>
      intro _
      refine ⟨0, fun _ => find_next_real_instruction is 0, fun _ => 0, ?_⟩
      refine { size := rfl, bbs := rfl, fields := fun j hj => ⟨none, ?_⟩, first := rfl,
               begins := fun j _ => next_real hreal, closed := by simp, led := by simp,
               owner := by simp, targets := by simp, transfers := by simp,
               leaders := leadersFrom_first (by omega),
               place := .inr ⟨⟨Nat.zero_le _, rfl⟩, by simp⟩ }
      obtain rfl : j = 0 := by omega
      rfl
    | succ n ih =>
      intro hn
      obtain ⟨k, s, e, h⟩ := ih (by omega)
      rw [List.range_succ, List.foldl_append]
      exact h.cutAt htwo (by omega)
  exact hrun is.length (Nat.le_refl _)

end

end gpgpu_sim_uvm
