-- The edges that connect_basic_blocks makes are the successors of instructions:
-- an address leads to the instruction that the list has there.
import GpgpuSimUvm.BlockRuns

namespace gpgpu_sim_uvm

/-! ## Addresses -/

section

variable {is : List PtxInstruction} {i p q : Nat}

theorem inst_size_pos (pI : PtxInstruction) : 0 < pI.inst_size := by
  cases pI with
  | label name => simp [PtxInstruction.inst_size]
  | real op pred dst half => cases half <;> simp [PtxInstruction.inst_size]

theorem assembledBytes_real {pI : PtxInstruction} (h : is[p]? = some pI) (hr : RealAt is p) :
    assembledBytes is (p + 1) = assembledBytes is p + pI.inst_size := by
  obtain ⟨op, pred, dst, half, hget⟩ := hr
  obtain rfl : pI = .real op pred dst half := by simpa [hget] using h.symm
  unfold assembledBytes
  rw [List.take_add_one, h]
  simp [PtxInstruction.is_label]

theorem assembledBytes_label (h : LabelAt is p) :
    assembledBytes is (p + 1) = assembledBytes is p := by
  obtain ⟨name, h⟩ := h
  unfold assembledBytes
  rw [List.take_add_one, h]
  simp [PtxInstruction.is_label]

theorem assembledBytes_mono (h : p ≤ q) (hq : q ≤ is.length) :
    assembledBytes is p ≤ assembledBytes is q := by
  induction q, h using Nat.le_induction with
  | base => exact Nat.le_refl _
  | succ q h ih =>
    have := ih (by omega)
    rcases label_or_real (show q < is.length by omega) with hl | hr
    · rw [assembledBytes_label hl]
      exact this
    · obtain ⟨op, pred, dst, half, hget⟩ := id hr
      rw [assembledBytes_real hget hr]
      omega

/-- What lies behind a real instruction has a higher address. -/
theorem assembledBytes_lt (hr : RealAt is p) (h : p < q) (hq : q ≤ is.length) :
    assembledBytes is p < assembledBytes is q := by
  obtain ⟨op, pred, dst, half, hget⟩ := id hr
  have hstep := assembledBytes_real hget hr
  have hpos := inst_size_pos (.real op pred dst half)
  have hmono : assembledBytes is (p + 1) ≤ assembledBytes is q := assembledBytes_mono h hq
  omega

theorem assembledBytes_next (hi : i ≤ is.length)
    (h : find_next_real_instruction is i < is.length) :
    assembledBytes is (find_next_real_instruction is i) = assembledBytes is i := by
  obtain ⟨n, hn⟩ : ∃ n, is.length - i = n := ⟨_, rfl⟩
  induction n generalizing i with
  | zero =>
    rw [next_of_end (by omega)]
  | succ n ih =>
    rcases label_or_real (show i < is.length by omega) with hl | hr
    · rw [next_of_label hl] at h ⊢
      rw [ih (by omega) h (by omega), assembledBytes_label hl]
    · rw [next_of_real hr]

theorem index_of_real (hr : RealAt is p) :
    get_m_instr_mem_index is p = some (assembledBytes is p) := by
  obtain ⟨op, pred, dst, half, h⟩ := hr
  simp [get_m_instr_mem_index, h]

theorem real_of_index {addr : Nat} (h : get_m_instr_mem_index is p = some addr) :
    RealAt is p ∧ addr = assembledBytes is p := by
  unfold get_m_instr_mem_index at h
  split at h
  · rename_i op pred dst half hget
    exact ⟨⟨op, pred, dst, half, hget⟩, by simpa using h.symm⟩
  · simp at h

/-- At the address that the assembler has come to at `i` there is the next real
instruction. -/
theorem m_instr_mem_at (hi : i ≤ is.length)
    (h : find_next_real_instruction is i < is.length) :
    m_instr_mem is (assembledBytes is i) = some (find_next_real_instruction is i) := by
  have hreal := next_real h
  have haddr := assembledBytes_next hi h
  unfold m_instr_mem
  rcases hfind : (List.range is.length).find? fun p =>
      get_m_instr_mem_index is p = some (assembledBytes is i) with _ | p
  · rw [List.find?_eq_none] at hfind
    have := hfind _ (List.mem_range.mpr h)
    rw [index_of_real hreal, haddr] at this
    simp at this
  · have hp := List.find?_some hfind
    obtain ⟨hr, heq⟩ := real_of_index (by simpa using hp)
    rcases Nat.lt_trichotomy p (find_next_real_instruction is i) with hlt | rfl | hgt
    · have := assembledBytes_lt hr hlt (Nat.le_of_lt h)
      omega
    · rfl
    · have := assembledBytes_lt hreal hgt (Nat.le_of_lt hr.lt)
      omega

/-- Behind the last real instruction nothing was written. -/
theorem m_instr_mem_end (hi : i ≤ is.length)
    (h : is.length ≤ find_next_real_instruction is i) :
    m_instr_mem is (assembledBytes is i) = none := by
  unfold m_instr_mem
  rw [List.find?_eq_none]
  intro p hp hget
  obtain ⟨hr, heq⟩ := real_of_index (by simpa using hget)
  rcases Nat.lt_or_ge p i with hlt | hge
  · have := assembledBytes_lt hr hlt hi
    omega
  · have := next_le_real hge hr
    have := hr.lt
    omega

/-- `l` is the label that the assembler has under this name. -/
def LastLabel (is : List PtxInstruction) (name : Symbol) (l : Nat) : Prop :=
  is[l]? = some (.label name) ∧ ∀ l', l < l' → is[l']? ≠ some (.label name)

theorem LastLabel.label {name : Symbol} {l : Nat} (h : LastLabel is name l) : LabelAt is l :=
  ⟨name, h.1⟩

theorem LastLabel.unique {name : Symbol} {l l' : Nat} (h : LastLabel is name l)
    (h' : LastLabel is name l') : l = l' := by
  rcases Nat.lt_trichotomy l l' with hlt | rfl | hgt
  · exact absurd h'.1 (h.2 l' hlt)
  · rfl
  · exact absurd h.1 (h'.2 l hgt)

theorem labels_of_last {name : Symbol} {l : Nat} (h : LastLabel is name l) :
    labels is name = assembledBytes is l := by
  have hlt := h.label.lt
  have hfind : (List.range is.length).reverse.find? (fun p => is[p]? = some (.label name)) =
      some l := by
    rw [List.find?_eq_some_iff_append]
    refine ⟨by simp [h.1], (List.range' (l + 1) (is.length - (l + 1))).reverse,
      (List.range l).reverse, ?_, ?_⟩
    · have hsplit : List.range is.length =
          List.range l ++ l :: List.range' (l + 1) (is.length - (l + 1)) := by
        have happend := @List.range'_append_1 0 l (is.length - l)
        rw [Nat.zero_add, Nat.add_sub_cancel' (Nat.le_of_lt hlt)] at happend
        rw [← List.range'_succ, List.range_eq_range', List.range_eq_range',
          show is.length - (l + 1) + 1 = is.length - l by omega, happend]
      rw [hsplit]
      simp
    · intro a ha
      simp only [List.mem_reverse, List.mem_range'_1] at ha
      simpa using h.2 a (by omega)
  unfold labels
  rw [hfind]

end

/-! ## The successors of an instruction -/

/-- Whether the next instruction follows. A break counts in here until
`connect_break_targets` gives it its target. -/
def fallsThrough (op : Opcode) (has_pred : Bool) : Bool :=
  match op with
  | .RET_OP | .RETP_OP | .EXIT_OP | .BRA_OP => has_pred
  | _ => true

/-- `q` follows `p` in some execution. -/
inductive InstrSucc (is : List PtxInstruction) (p q : Nat) : Prop
  | branch {pred : Bool} {name : Symbol} {half : Bool} {l : Nat} :
      is[p]? = some (.real .BRA_OP pred name half) → LastLabel is name l →
      q = find_next_real_instruction is l → q < is.length → InstrSucc is p q
  | next {op : Opcode} {pred : Bool} {name : Symbol} {half : Bool} :
      is[p]? = some (.real op pred name half) → fallsThrough op pred = true →
      q = find_next_real_instruction is (p + 1) → q < is.length → InstrSucc is p q

/-- The function may be left at `p`. -/
def Leaves (is : List PtxInstruction) (p : Nat) : Prop :=
  ∃ op pred name half, is[p]? = some (.real op pred name half) ∧
    (op = .RET_OP ∨ op = .RETP_OP ∨ op = .EXIT_OP)

/-- What `ptx_assemble` has checked before: the labels that instructions name
are there, in front of a real instruction. -/
def Assembled (is : List PtxInstruction) : Prop :=
  ∀ (p : Nat) (op : Opcode) pred name half, is[p]? = some (PtxInstruction.real op pred name half) →
    op = .BRA_OP ∨ op = .BREAKADDR_OP ∨ op = .CALLP_OP →
    ∃ l, LastLabel is name l ∧ find_next_real_instruction is l < is.length

/-- The last real instruction does not go on to the next. -/
def EndsFunction (is : List PtxInstruction) : Prop :=
  ∀ (p : Nat) (op : Opcode) pred name half, is[p]? = some (PtxInstruction.real op pred name half) →
    is.length ≤ find_next_real_instruction is (p + 1) →
    op = .RET_OP ∨ op = .RETP_OP ∨ op = .EXIT_OP ∨ op = .BRA_OP ∧ pred = false

/-- The blocks that `create_basic_blocks` leaves. -/
structure Created (f : FunctionInfo) (k : Nat) (s e : Nat → Nat) : Prop where
  size : f.m_basic_blocks.length = k + 2
  fields : ∀ b ≤ k, block f.m_basic_blocks b =
    { bb_id := b, ptx_begin := some (s b), ptx_end := some (e b), is_entry := decide (b = 0) }
  exit : block f.m_basic_blocks (k + 1) = { bb_id := k + 1, is_exit := true }
  begins : ∀ b ≤ k, RealAt f.m_instructions (s b)
  ends : ∀ b ≤ k, RealAt f.m_instructions (e b)
  ordered : ∀ b ≤ k, s b ≤ e b
  next : ∀ b < k, s (b + 1) = find_next_real_instruction f.m_instructions (e b + 1)
  last : f.m_instructions.length ≤ find_next_real_instruction f.m_instructions (e k + 1)
  led : ∀ b < k, ∃ q, leads f.m_instructions q = true ∧
    s (b + 1) = find_next_real_instruction f.m_instructions q
  owner : ∀ p, RealAt f.m_instructions p → ∃ b ≤ k, f.m_bb[p]? = some b ∧ s b ≤ p ∧ p ≤ e b
  targets : ∀ q, LabelAt f.m_instructions q →
    find_next_real_instruction f.m_instructions q < f.m_instructions.length →
    ∃ b ≤ k, s b = find_next_real_instruction f.m_instructions q
  transfers : ∀ p, TransferAt f.m_instructions p →
    (∃ b ≤ k, e b = p) ∨ p = 0 ∧ RealAt f.m_instructions 1

/-- What the loops have cut are the blocks of the function. -/
theorem create_basic_blocks_created {f : FunctionInfo} (htwo : ¬ TwoLeadingLabels f.m_instructions)
    (hreal : find_next_real_instruction f.m_instructions 0 < f.m_instructions.length) :
    ∃ f₁ k s e, f.create_basic_blocks = some f₁ ∧ f₁.m_instructions = f.m_instructions ∧
      Created f₁ k s e := by
  obtain ⟨k, s, e, h⟩ := cutBlocks_cut htwo hreal
  have hst : Started f.m_instructions f.m_instructions.length (s k)
      (cutBlocks f.m_instructions).last_real_inst := by
    refine h.place.resolve_right fun ⟨han, _⟩ => ?_
    have := han.ahead
    have := (h.begins k (Nat.le_refl k)).lt
    omega
  have hsize := h.size
  have hlen : (closeBlock (cutBlocks f.m_instructions).m_basic_blocks
      (cutBlocks f.m_instructions).last_real_inst).length = k + 1 := by simp [hsize]
  have hek : ∀ b < k, Function.update e k (cutBlocks f.m_instructions).last_real_inst b = e b :=
    fun b hb => Function.update_of_ne (by omega) _ _
  have hen : Function.update e k (cutBlocks f.m_instructions).last_real_inst k =
      (cutBlocks f.m_instructions).last_real_inst := Function.update_self _ _ _
  unfold FunctionInfo.create_basic_blocks
  rw [if_pos hreal]
  refine ⟨_, k, s, Function.update e k (cutBlocks f.m_instructions).last_real_inst, rfl, rfl, ?_⟩
  refine { size := by simp [hsize], fields := fun b hb => ?_, exit := ?_, begins := h.begins,
           ends := fun b hb => ?_, ordered := fun b hb => ?_, next := fun b hb => ?_, last := ?_,
           led := h.led, owner := fun p hp => ?_, targets := fun q hq hlt => ?_,
           transfers := fun p hp => ?_ }
  · obtain ⟨last, hf⟩ := h.fields b hb
    rw [block_append_left (by omega), block_closeBlock (by omega), hsize, hf]
    rcases Nat.lt_or_eq_of_le hb with hlt | rfl
    · have hclosed := (h.closed b hlt).1
      rw [hf] at hclosed
      rw [if_neg (by omega), hek b hlt]
      simpa using hclosed
    · rw [if_pos rfl, hen]
  · rw [← hlen, block_append_self]
  · rcases Nat.lt_or_eq_of_le hb with hlt | rfl
    · rw [hek b hlt]
      exact (h.closed b hlt).2.1
    · rw [hen]
      exact hst.real
  · rcases Nat.lt_or_eq_of_le hb with hlt | rfl
    · rw [hek b hlt]
      exact (h.closed b hlt).2.2.1
    · rw [hen]
      exact hst.begun
  · rw [hek b hb]
    exact (h.closed b hb).2.2.2
  · rw [hen, next_skip hst.before fun q hq hqi => hst.labels q hq hqi, next_of_end (Nat.le_refl _)]
  · rcases h.owner p hp.lt hp with ⟨b, hb, hpb, hsb, heb⟩ | ⟨hpk, hsp, hpl⟩
    · exact ⟨b, by omega, hpb, hsb, by rwa [hek b hb]⟩
    · exact ⟨k, Nat.le_refl k, hpk, hsp, by rwa [hen]⟩
  · exact h.targets q hq.lt hq hlt
  · rcases h.transfers p hp.real.lt hp with ⟨b, hb, heb⟩ | ⟨hpl, -⟩ | hz
    · exact .inl ⟨b, by omega, by rw [hek b hb, heb]⟩
    · exact .inl ⟨k, Nat.le_refl k, by rw [hen, hpl]⟩
    · exact .inr hz

end gpgpu_sim_uvm
