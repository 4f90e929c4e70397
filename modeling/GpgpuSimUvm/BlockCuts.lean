-- How the two loops of create_basic_blocks keep in step: what the first finds as
-- leaders, and which runs of instructions the second cuts at them.
import GpgpuSimUvm.BasicBlocks

namespace gpgpu_sim_uvm

/-! ## Labels and real instructions -/

def LabelAt (is : List PtxInstruction) (p : Nat) : Prop := ∃ name, is[p]? = some (.label name)

def RealAt (is : List PtxInstruction) (p : Nat) : Prop :=
  ∃ op pred dst half, is[p]? = some (.real op pred dst half)

section

variable {is : List PtxInstruction} {i p : Nat}

theorem LabelAt.lt (h : LabelAt is p) : p < is.length := by
  obtain ⟨name, h⟩ := h
  exact (List.getElem?_eq_some_iff.mp h).1

theorem RealAt.lt (h : RealAt is p) : p < is.length := by
  obtain ⟨op, pred, dst, half, h⟩ := h
  exact (List.getElem?_eq_some_iff.mp h).1

theorem RealAt.not_label (h : RealAt is p) : ¬ LabelAt is p := by
  obtain ⟨op, pred, dst, half, h⟩ := h
  rintro ⟨name, h'⟩
  simp [h] at h'

theorem label_or_real (h : p < is.length) : LabelAt is p ∨ RealAt is p := by
  rcases hp : is[p] with name | ⟨op, pred, dst, half⟩
  · exact .inl ⟨name, by simp [h, hp]⟩
  · exact .inr ⟨op, pred, dst, half, by simp [h, hp]⟩

/-! ## The next real instruction -/

theorem le_next (is : List PtxInstruction) (i : Nat) : i ≤ find_next_real_instruction is i :=
  Nat.le_add_right _ _

theorem next_of_real (h : RealAt is i) : find_next_real_instruction is i = i := by
  have hlt := h.lt
  obtain ⟨op, pred, dst, half, h⟩ := h
  have heq := (List.getElem?_eq_some_iff.mp h).2
  unfold find_next_real_instruction
  rw [List.drop_eq_getElem_cons hlt, heq]
  simp [PtxInstruction.is_label]

theorem next_of_label (h : LabelAt is i) :
    find_next_real_instruction is i = find_next_real_instruction is (i + 1) := by
  have hlt := h.lt
  obtain ⟨name, h⟩ := h
  have heq := (List.getElem?_eq_some_iff.mp h).2
  unfold find_next_real_instruction
  rw [List.drop_eq_getElem_cons hlt, heq]
  simp [PtxInstruction.is_label, List.takeWhile_cons]
  omega

theorem next_of_end (h : is.length ≤ i) : find_next_real_instruction is i = i := by
  unfold find_next_real_instruction
  simp [List.drop_eq_nil_of_le h]

/-- Labels are passed over. -/
theorem next_skip {j : Nat} (hij : i ≤ j) (h : ∀ q, i ≤ q → q < j → LabelAt is q) :
    find_next_real_instruction is i = find_next_real_instruction is j := by
  induction j, hij using Nat.le_induction with
  | base => rfl
  | succ j hij ih =>
    rw [ih fun q hq hqj => h q hq (by omega), next_of_label (h j hij (Nat.lt_succ_self j))]

theorem next_real (h : find_next_real_instruction is i < is.length) :
    RealAt is (find_next_real_instruction is i) := by
  have hi : i < is.length := Nat.lt_of_le_of_lt (le_next is i) h
  obtain ⟨n, hn⟩ : ∃ n, is.length - i = n := ⟨_, rfl⟩
  induction n generalizing i with
  | zero => omega
  | succ n ih =>
    rcases label_or_real hi with hl | hr
    · rw [next_of_label hl] at h ⊢
      have := le_next is (i + 1)
      exact ih h (by omega) (by omega)
    · rw [next_of_real hr]
      exact hr

/-- All places before the next real instruction hold labels. -/
theorem label_before_next {q : Nat} (hi : i ≤ q) (hq : q < find_next_real_instruction is i)
    (hlt : q < is.length) : LabelAt is q := by
  refine (label_or_real hlt).resolve_right fun hr => ?_
  obtain ⟨n, hn⟩ : ∃ n, q - i = n := ⟨_, rfl⟩
  induction n generalizing i with
  | zero =>
    obtain rfl : i = q := by omega
    rw [next_of_real hr] at hq
    omega
  | succ n ih =>
    rcases label_or_real (show i < is.length by omega) with hl | hri
    · rw [next_of_label hl] at hq
      exact ih (by omega) hq (by omega)
    · rw [next_of_real hri] at hq
      omega

/-- A real instruction is where its own search ends, or behind it. -/
theorem next_le_real (hi : i ≤ p) (hp : RealAt is p) : find_next_real_instruction is i ≤ p := by
  by_contra hlt
  exact hp.not_label (label_before_next hi (by omega) hp.lt)

end

/-! ## The leaders -/

/-- The loop that finds leaders looks behind this instruction. -/
def cutsBehind : PtxInstruction → Bool
  | .label _ => false
  | .real .BRA_OP .. => true
  | .real .RET_OP .. => true
  | .real .EXIT_OP .. => true
  | .real .RETP_OP .. => true
  | .real .BREAK_OP .. => true
  | .real .CALL_OP has_pred .. => has_pred
  | .real .CALLP_OP has_pred .. => has_pred
  | .real .. => false

/-- The places that the loop finds, behind the first: a label that no label
precedes, and what follows a transfer. The first instruction is not looked at. -/
def leads (is : List PtxInstruction) (i : Nat) : Bool :=
  match i with
  | 0 => false
  | j + 1 =>
    match is[j + 1]?, is[j]? with
    | some (.label _), some (.label _) => j = 0
    | some (.label _), some (.real ..) => true
    | some (.real ..), some pI => decide (1 ≤ j) && cutsBehind pI
    | _, _ => false

/-- The leaders from `i` on. -/
def leadersAfter (is : List PtxInstruction) (i : Nat) : List Nat :=
  (List.range' i (is.length - i)).filter (leads is)

section

variable {is : List PtxInstruction} {i : Nat}

theorem leadersFrom_label (n : Nat) (h : LabelAt is i) :
    leadersFrom is (n + 1) i = i :: leadersFrom is n (find_next_real_instruction is (i + 1)) := by
  obtain ⟨name, h⟩ := h
  rw [leadersFrom]
  simp [h]

theorem leadersFrom_real (n : Nat) {pI : PtxInstruction} (hi : is[i]? = some pI)
    (h : RealAt is i) :
    leadersFrom is (n + 1) i =
      if cutsBehind pI then
        (if i + 1 < is.length then [i + 1] else []) ++
          leadersFrom is n (find_next_real_instruction is (i + 1))
      else leadersFrom is n (i + 1) := by
  obtain ⟨op, pred, dst, half, h⟩ := h
  obtain rfl : pI = .real op pred dst half := by simpa [h] using hi.symm
  rw [leadersFrom]
  simp only [h]
  cases op <;> cases pred <;> simp [cutsBehind]

theorem leadersFrom_end (n : Nat) (h : is.length ≤ i) : leadersFrom is n i = [] := by
  cases n with
  | zero => rfl
  | succ n => simp [leadersFrom, List.getElem?_eq_none h]

theorem leadersAfter_end (h : is.length ≤ i) : leadersAfter is i = [] := by
  simp [leadersAfter, Nat.sub_eq_zero_of_le h]

theorem leadersAfter_step (h : i < is.length) :
    leadersAfter is i =
      if leads is i then i :: leadersAfter is (i + 1) else leadersAfter is (i + 1) := by
  unfold leadersAfter
  obtain ⟨m, hm⟩ : ∃ m, is.length - i = m + 1 := ⟨is.length - i - 1, by omega⟩
  rw [hm, List.range'_succ, List.filter_cons, show is.length - (i + 1) = m by omega]

/-- A label behind a label leads at the second place only. -/
theorem leads_label_label (h : LabelAt is i) (h' : LabelAt is (i + 1)) :
    leads is (i + 1) = decide (i = 0) := by
  obtain ⟨name, h⟩ := h
  obtain ⟨name', h'⟩ := h'
  simp [leads, h, h']

theorem leads_real_label (h : RealAt is i) (h' : LabelAt is (i + 1)) :
    leads is (i + 1) = true := by
  obtain ⟨op, pred, dst, half, h⟩ := h
  obtain ⟨name', h'⟩ := h'
  simp [leads, h, h']

/-- A real instruction leads behind what cuts, unless that is the first. -/
theorem leads_real {pI : PtxInstruction} (h : is[i]? = some pI) (h' : RealAt is (i + 1)) :
    leads is (i + 1) = (decide (1 ≤ i) && cutsBehind pI) := by
  obtain ⟨op, pred, dst, half, h'⟩ := h'
  cases pI <;> simp [leads, h, h']

theorem leads_label_real (h : LabelAt is i) (h' : RealAt is (i + 1)) :
    leads is (i + 1) = false := by
  obtain ⟨name, h⟩ := h
  simp [leads_real h h', cutsBehind]

theorem leads_lt (h : leads is i = true) : i < is.length := by
  by_contra hge
  cases i with
  | zero => simp [leads] at h
  | succ j => simp [leads, List.getElem?_eq_none (Nat.not_lt.mp hge)] at h

/-- Where the loop goes on from `j`, with a real instruction just pushed. -/
def leadersPast (is : List PtxInstruction) (j : Nat) : List Nat :=
  match is[j]? with
  | some (.real ..) => leadersAfter is (j + 1)
  | _ => leadersAfter is j

theorem leadersPast_real (h : RealAt is i) : leadersPast is i = leadersAfter is (i + 1) := by
  obtain ⟨op, pred, dst, half, h⟩ := h
  simp [leadersPast, h]

theorem leadersPast_label (h : LabelAt is i) : leadersPast is i = leadersAfter is i := by
  obtain ⟨name, h⟩ := h
  simp [leadersPast, h]

theorem leadersPast_end (h : is.length ≤ i) : leadersPast is i = [] := by
  simp [leadersPast, List.getElem?_eq_none h, leadersAfter_end h]

/-- Behind a label, other than the first instruction, none of the labels that
are passed over leads, nor does the instruction that they name. -/
theorem leadersAfter_label (hi : 1 ≤ i) (h : LabelAt is i) :
    leadersAfter is (i + 1) = leadersPast is (find_next_real_instruction is (i + 1)) := by
  obtain ⟨n, hn⟩ : ∃ n, is.length - i = n := ⟨_, rfl⟩
  have hlt := h.lt
  induction n generalizing i with
  | zero => omega
  | succ n ih =>
    by_cases hend : i + 1 < is.length
    · rw [leadersAfter_step hend]
      rcases label_or_real hend with hl | hr
      · rw [leads_label_label h hl, next_of_label hl]
        rw [if_neg (by simpa using Nat.ne_of_gt hi)]
        exact ih (by omega) hl (by omega) hend
      · rw [leads_label_real h hr, next_of_real hr, leadersPast_real hr]
        simp
    · have hend : is.length ≤ i + 1 := by omega
      rw [leadersAfter_end hend, next_of_end hend, leadersPast_end hend]

/-- The loop finds the leaders. -/
theorem leadersFrom_eq {n : Nat} (hn : is.length - i ≤ n) (hi : 1 ≤ i)
    (hlead : LabelAt is i → leads is i = true) : leadersFrom is n i = leadersPast is i := by
  induction n generalizing i with
  | zero => rw [leadersFrom_end 0 (by omega), leadersPast_end (by omega)]
  | succ n ih =>
    by_cases hlt : i < is.length
    · -- the search goes on behind `i` at a real instruction, or at the end
      have hon : leadersFrom is n (find_next_real_instruction is (i + 1)) =
          leadersPast is (find_next_real_instruction is (i + 1)) := by
        have := le_next is (i + 1)
        refine ih (by omega) (by omega) fun hl => ?_
        exact absurd hl (next_real hl.lt).not_label
      rcases label_or_real hlt with hl | hr
      · rw [leadersFrom_label n hl, leadersPast_label hl, leadersAfter_step hlt, hlead hl, hon,
          leadersAfter_label hi hl]
        simp
      · obtain ⟨op, pred, dst, half, hget⟩ := id hr
        rw [leadersFrom_real n hget hr, leadersPast_real hr]
        by_cases hend : i + 1 < is.length
        · rw [leadersAfter_step hend]
          rcases label_or_real hend with hl' | hr'
          · have hlead' := leads_real_label hr hl'
            rw [hlead', if_pos hend, if_pos rfl]
            split
            · rw [hon, next_of_label hl', ← leadersAfter_label (by omega) hl']
              rfl
            · rw [ih (by omega) (by omega) fun _ => hlead', leadersPast_label hl',
                leadersAfter_step hend, hlead', if_pos rfl]
          · rw [leads_real hget hr', next_of_real hr', if_pos hend]
            by_cases hcut : cutsBehind (.real op pred dst half) = true
            · have hon' := hon
              rw [next_of_real hr', leadersPast_real hr'] at hon'
              simp [hcut, hi, hon']
            · rw [ih (by omega) (by omega) fun hl => absurd hl hr'.not_label, leadersPast_real hr']
              simp [hcut]
        · have hend : is.length ≤ i + 1 := by omega
          rw [leadersAfter_end hend, leadersFrom_end n hend, next_of_end hend,
            leadersFrom_end n hend]
          simp [Nat.not_lt.mpr hend]
    · rw [leadersFrom_end _ (by omega), leadersPast_end (by omega)]

theorem leads_zero : leads is 0 = false := rfl

/-- What the second loop starts with. -/
theorem leadersFrom_first (h : 0 < is.length) :
    leadersFrom is is.length 1 = leadersAfter is 0 := by
  have hfirst : LabelAt is 1 → leads is 1 = true := by
    intro hl
    rcases label_or_real h with h0 | h0
    · rw [leads_label_label h0 hl]
      rfl
    · exact leads_real_label h0 hl
  rw [leadersFrom_eq (by omega) (Nat.le_refl 1) hfirst, leadersAfter_step h, leads_zero]
  by_cases h1 : 1 < is.length
  · rcases label_or_real h1 with hl | hr
    · rw [leadersPast_label hl]
      rfl
    · obtain ⟨pI, hget⟩ : ∃ pI, is[0]? = some pI := ⟨is[0], by simp [h]⟩
      rw [leadersPast_real hr, leadersAfter_step h1, leads_real hget hr]
      rfl
  · rw [leadersPast_end (by omega), leadersAfter_end (by omega)]
    rfl

end

end gpgpu_sim_uvm
