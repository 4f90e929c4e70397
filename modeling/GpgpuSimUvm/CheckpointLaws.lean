-- What a checkpoint keeps: the fields of the stack that fit an `int`, and the blocks of the
-- memory whose indices have 32 bits.
import GpgpuSimUvm.Checkpoint

namespace gpgpu_sim_uvm

namespace checkpoint

open c_text

/-! ## Integers -/

/-- What an address is after it was printed as an `int` and read back. -/
def cut (x : Nat) : Nat := ofInt64 (toInt x)

/-- The values that an `int` stands for, as 64 bits. -/
def FitsInt (x : Nat) : Prop := x < 2 ^ 31 ∨ 2 ^ 64 - 2 ^ 31 ≤ x

theorem atoi_of_readInt {cs : List Char} {v : Int} (h : readInt cs = v) :
    atoi cs = toInt (v % 2 ^ 32).toNat := by rw [atoi, h]

theorem toInt_toInt (x : Nat) : toInt (toInt x % 2 ^ 32).toNat = toInt x := by
  have hlow : (toInt x % 2 ^ 32).toNat = x % 2 ^ 32 := by
    simp only [toInt]
    split_ifs <;> omega
  rw [hlow, toInt, toInt, Nat.mod_mod]

theorem toInt_toLongLong (x : Nat) : toInt (toLongLong x % 2 ^ 32).toNat = toInt x := by
  have hlow : (toLongLong x % 2 ^ 32).toNat = x % 2 ^ 32 := by
    simp only [toLongLong]
    split_ifs <;> omega
  rw [hlow, toInt, toInt, Nat.mod_mod]

theorem cut_eq_iff {x : Nat} (hx : x < 2 ^ 64) : cut x = x ↔ FitsInt x := by
  simp only [cut, ofInt64, toInt, FitsInt]
  split_ifs <;> omega

theorem ofInt32_toInt {x : Nat} (hx : x < 2 ^ 32) : ofInt32 (toInt x) = x := by
  simp only [ofInt32, toInt]
  split_ifs <;> omega

theorem natAbs_toInt_lt (x : Nat) : (toInt x).natAbs < 10 ^ 10 := by
  simp only [toInt]
  split_ifs <;> omega

theorem natAbs_toLongLong_lt (x : Nat) : (toLongLong x).natAbs < 10 ^ 19 := by
  simp only [toLongLong]
  split_ifs <;> omega

/-! ## One entry -/

namespace StackEntry

/-- The fields have the widths of the source, and no thread beyond the warp is active. -/
structure WellFormed (m_warp_size : Nat) (e : StackEntry) : Prop where
  m_pc : e.m_pc < 2 ^ 64
  m_calldepth : e.m_calldepth < 2 ^ 32
  m_recvg_pc : e.m_recvg_pc < 2 ^ 64
  m_branch_div_cycle : e.m_branch_div_cycle < 2 ^ 64
  mask : ∀ j, m_warp_size ≤ j → e.m_active_mask j = false

/-- Both program counters and the cycle fit an `int`. -/
def Printable (e : StackEntry) : Prop :=
  FitsInt e.m_pc ∧ FitsInt e.m_recvg_pc ∧ FitsInt e.m_branch_div_cycle

/-- The entry after a checkpoint. -/
def cutBack (e : StackEntry) : StackEntry :=
  { e with
    m_pc := cut e.m_pc
    m_recvg_pc := cut e.m_recvg_pc
    m_branch_div_cycle := cut e.m_branch_div_cycle }

theorem cutBack_eq_iff {m_warp_size : Nat} {e : StackEntry} (h : e.WellFormed m_warp_size) :
    e.cutBack = e ↔ e.Printable := by
  rw [Printable, ← cut_eq_iff h.m_pc, ← cut_eq_iff h.m_recvg_pc,
    ← cut_eq_iff h.m_branch_div_cycle]
  constructor
  · intro heq
    exact ⟨congrArg (fun f => f.m_pc) heq, congrArg (fun f => f.m_recvg_pc) heq,
      congrArg (fun f => f.m_branch_div_cycle) heq⟩
  · rintro ⟨hpc, hrecvg, hcycle⟩
    rw [cutBack, hpc, hrecvg, hcycle]

end StackEntry

/-- The tokens of a mask. -/
theorem tokens_printMask (js : List Nat) (mask : Nat → Bool) (rest : List Char) :
    tokens (js.flatMap (fun j => [if mask j then '1' else '0', ' ']) ++ rest) =
      js.map (fun j => [if mask j then '1' else '0']) ++ tokens rest := by
  induction js with
  | nil => rfl
  | cons j js ih =>
    have hblank : ∀ c ∈ [if mask j then '1' else '0'], c ≠ ' ' := by
      intro c hc
      rw [List.mem_singleton.mp hc]
      split_ifs <;> decide
    have hfirst := tokens_append (List.cons_ne_nil _ _) hblank
      (js.flatMap (fun j => [if mask j then '1' else '0', ' ']) ++ rest)
    rw [ih] at hfirst
    rw [List.flatMap_cons, List.append_assoc, List.map_cons]
    exact hfirst

theorem tokens_printInt (v : Int) (rest : List Char) :
    tokens (printInt v ++ ' ' :: rest) = printInt v :: tokens rest :=
  tokens_append (printInt_ne_nil v) printInt_no_blank rest

theorem tokens_printEntry (m_warp_id m_warp_size : Nat) (e : StackEntry) :
    tokens (printEntry m_warp_id m_warp_size e ++ ['\n']) =
      (List.range m_warp_size).map (fun j => [if e.m_active_mask j then '1' else '0']) ++
        [printInt (toInt e.m_pc), printInt (toInt e.m_calldepth), printInt (toInt e.m_recvg_pc),
          printInt (toLongLong e.m_branch_div_cycle), printInt (printType e.m_type),
          printInt (toInt m_warp_id), printInt (toInt m_warp_size) ++ ['\n']] := by
  have hlast : tokens (printInt (toInt m_warp_size) ++ ['\n']) =
      [printInt (toInt m_warp_size) ++ ['\n']] := by
    apply tokens_single
    · simp [printInt_ne_nil]
    · intro c hc
      rcases List.mem_append.mp hc with hc | hc
      · exact printInt_no_blank c hc
      · rw [List.mem_singleton.mp hc]
        decide
  rw [printEntry, printMask, List.append_assoc, tokens_printMask]
  simp only [List.append_assoc, List.cons_append, tokens_printInt, hlast]

theorem atoi_printInt (v : Int) : atoi (printInt v) = toInt (v % 2 ^ 32).toNat := by
  have hread : readInt (printInt v ++ []) = v := readInt_printInt v (by simp)
  rw [List.append_nil] at hread
  exact atoi_of_readInt hread

theorem printType_head (t : StackEntryType) :
    (if (printInt (printType t)).head? = some '0' then StackEntryType.NORMAL else .CALL) = t := by
  cases t <;> rfl

/-- A line gives its entry back, with what an `int` cannot hold cut off. -/
theorem resumeEntry_printEntry (m_warp_id : Nat) {m_warp_size : Nat} {e : StackEntry}
    (h : e.WellFormed m_warp_size) :
    resumeEntry m_warp_size (printEntry m_warp_id m_warp_size e ++ ['\n']) = some e.cutBack := by
  have htokens := tokens_printEntry m_warp_id m_warp_size e
  have hdrop : (tokens (printEntry m_warp_id m_warp_size e ++ ['\n'])).drop m_warp_size =
      [printInt (toInt e.m_pc), printInt (toInt e.m_calldepth), printInt (toInt e.m_recvg_pc),
        printInt (toLongLong e.m_branch_div_cycle), printInt (printType e.m_type),
        printInt (toInt m_warp_id), printInt (toInt m_warp_size) ++ ['\n']] := by
    rw [htokens]
    apply List.drop_left'
    simp
  have hmask : (fun j => decide (j < m_warp_size) &&
      decide ((tokens (printEntry m_warp_id m_warp_size e ++ ['\n']))[j]?.bind List.head? =
        some '1')) = e.m_active_mask := by
    funext j
    by_cases hj : j < m_warp_size
    · have hget : (tokens (printEntry m_warp_id m_warp_size e ++ ['\n']))[j]? =
          some [if e.m_active_mask j then '1' else '0'] := by
        rw [htokens, List.getElem?_append_left (by simpa using hj), List.getElem?_map,
          List.getElem?_range hj, Option.map_some]
      rw [hget, decide_eq_true hj]
      cases e.m_active_mask j <;> rfl
    · rw [decide_eq_false hj, Bool.false_and, h.mask j (Nat.le_of_not_lt hj)]
  rw [resumeEntry, hdrop]
  simp only [hmask, atoi_printInt, toInt_toInt, toInt_toLongLong, printType_head,
    ofInt32_toInt h.m_calldepth]
  rfl

/-! ## The lines of a stack -/

theorem length_printEntry (m_warp_id : Nat) {m_warp_size : Nat} (hsize : m_warp_size ≤ 32)
    (e : StackEntry) : (printEntry m_warp_id m_warp_size e).length < 199 := by
  have hmask : (printMask m_warp_size e.m_active_mask).length = m_warp_size * 2 := by
    simp [printMask, List.length_flatMap]
  have hint : ∀ x, (printInt (toInt x)).length ≤ 11 := fun x =>
    length_printInt_le (by decide) (natAbs_toInt_lt x)
  have hlong := length_printInt_le (k := 19) (by decide) (natAbs_toLongLong_lt e.m_branch_div_cycle)
  have htype : (printInt (printType e.m_type)).length = 1 := by cases e.m_type <;> rfl
  have hpc := hint e.m_pc
  have hcalldepth := hint e.m_calldepth
  have hrecvg := hint e.m_recvg_pc
  have hid := hint m_warp_id
  have hws := hint m_warp_size
  rw [printEntry]
  simp only [List.length_append, List.length_cons, hmask, htype]
  omega

theorem printEntry_no_newline (m_warp_id m_warp_size : Nat) (e : StackEntry) :
    ∀ c ∈ printEntry m_warp_id m_warp_size e, c ≠ '\n' := by
  have hblank : ' ' ≠ '\n' := by decide
  have hcons : ∀ {rest : List Char} {v : Int}, (∀ c ∈ rest, c ≠ '\n') →
      ∀ c ∈ printInt v ++ ' ' :: rest, c ≠ '\n' := by
    intro rest v hrest c hc
    rcases List.mem_append.mp hc with hc | hc
    · exact printInt_no_newline c hc
    · rcases List.mem_cons.mp hc with rfl | hc
      · exact hblank
      · exact hrest c hc
  intro c hc
  rcases List.mem_append.mp hc with hc | hc
  · obtain ⟨j, -, hc⟩ := List.mem_flatMap.mp hc
    simp only [List.mem_cons, List.not_mem_nil, or_false] at hc
    rcases hc with rfl | rfl
    · split_ifs <;> decide
    · exact hblank
  · exact hcons (hcons (hcons (hcons (hcons (hcons printInt_no_newline))))) c hc

/-- A resumed stack is the stack with its entries cut back. -/
theorem resume_print_checkpoint (m_warp_id : Nat) {m_warp_size : Nat} (hsize : m_warp_size ≤ 32)
    {m_stack : List StackEntry} (h : ∀ e ∈ m_stack, e.WellFormed m_warp_size) :
    resume m_warp_size (print_checkpoint m_warp_id m_warp_size m_stack) =
      some (m_stack.map StackEntry.cutBack) := by
  rw [resume]
  induction m_stack with
  | nil => rfl
  | cons e m_stack ih =>
    have hline := lines_append (printEntry_no_newline m_warp_id m_warp_size e)
      (length_printEntry m_warp_id hsize e) (print_checkpoint m_warp_id m_warp_size m_stack)
    rw [print_checkpoint, List.flatMap_cons, List.append_assoc, List.singleton_append]
    rw [print_checkpoint] at hline ih
    rw [hline, List.mapM_cons, resumeEntry_printEntry m_warp_id (h e (List.mem_cons_self ..)),
      ih fun f hf => h f (List.mem_cons_of_mem _ hf)]
    rfl

/-- A stack comes back as it was when all its entries can be printed, and only then. -/
theorem resume_eq_iff (m_warp_id : Nat) {m_warp_size : Nat} (hsize : m_warp_size ≤ 32)
    {m_stack : List StackEntry} (h : ∀ e ∈ m_stack, e.WellFormed m_warp_size) :
    resume m_warp_size (print_checkpoint m_warp_id m_warp_size m_stack) = some m_stack ↔
      ∀ e ∈ m_stack, e.Printable := by
  rw [resume_print_checkpoint m_warp_id hsize h, Option.some_inj]
  induction m_stack with
  | nil => simp
  | cons e m_stack ih =>
    rw [List.map_cons, List.cons.injEq, ih fun f hf => h f (List.mem_cons_of_mem _ hf),
      StackEntry.cutBack_eq_iff (h e (List.mem_cons_self ..)), List.forall_mem_cons]

/-! ## The lines of a block -/

def headerLine (s : Space) (index : Nat) : List Char :=
  s.m_name ++ ' ' :: (printHex (index % 2 ^ 32) ++ [':'])

def wordLine (b : Block) (d : Nat) : List Char := printHex (wordAt b d) ++ [' ']

/-- The file is the lines of its blocks. -/
theorem lines_of_words {t : List Char} (b : Block) (ds : List Nat) :
    ds.flatMap (fun d => '\n' :: (printHex (wordAt b d) ++ [' '])) ++ '\n' :: t =
      '\n' :: (ds.flatMap (fun d => wordLine b d ++ ['\n']) ++ t) := by
  induction ds with
  | nil => rfl
  | cons d ds ih =>
    rw [List.flatMap_cons, List.flatMap_cons, List.append_assoc, ih, wordLine]
    simp

theorem name_plain (s : Space) :
    s.m_name ≠ [] ∧ (∀ c ∈ s.m_name, c ≠ ' ' ∧ c ≠ '\n') ∧ s.m_name.length < 40 ∧
      (s.m_name.head? = some 'g' ∨ s.m_name.head? = some 's' ∨ s.m_name.head? = some 'l') := by
  have hint : ∀ n : Nat, (printInt (n % 2 ^ 32 : Nat)).length ≤ 11 := by
    intro n
    apply length_printInt_le (by decide)
    omega
  have hplain : ∀ v : Int, ∀ c ∈ printInt v, c ≠ ' ' ∧ c ≠ '\n' := fun v c hc =>
    ⟨printInt_no_blank c hc, printInt_no_newline c hc⟩
  cases s with
  | global_mem large_pages =>
    refine ⟨List.cons_ne_nil _ _, ?_, by simp [Space.m_name], Or.inl rfl⟩
    simp only [Space.m_name]
    simp
  | shared_mem sid =>
    have hlen := hint sid
    have hshared : ∀ c ∈ ['s', 'h', 'a', 'r', 'e', 'd', '_'], c ≠ ' ' ∧ c ≠ '\n' := by simp
    refine ⟨List.cons_ne_nil _ _, ?_, ?_, Or.inr (Or.inl rfl)⟩
    · intro c hc
      rcases List.mem_append.mp hc with hc | hc
      · exact hshared c hc
      · exact hplain _ c hc
    · rw [Space.m_name, List.length_append]
      simp only [List.length_cons, List.length_nil]
      omega
  | local_mem sid tid =>
    have hlen := hint sid
    have hlen' := hint tid
    have hlocal : ∀ c ∈ ['l', 'o', 'c', 'a', 'l', '_'], c ≠ ' ' ∧ c ≠ '\n' := by simp
    have hbar : ∀ c ∈ ['_'], c ≠ ' ' ∧ c ≠ '\n' := by simp
    refine ⟨List.cons_ne_nil _ _, ?_, ?_, Or.inr (Or.inr rfl)⟩
    · intro c hc
      simp only [Space.m_name, List.mem_append] at hc
      rcases hc with ((hc | hc) | hc) | hc
      · exact hlocal c hc
      · exact hplain _ c hc
      · exact hbar c hc
      · exact hplain _ c hc
    · simp only [Space.m_name, List.length_append, List.length_cons, List.length_nil]
      omega

theorem lines_header (s : Space) (index : Nat) (text : List Char) :
    lines 127 (headerLine s index ++ '\n' :: text) =
      (headerLine s index ++ ['\n']) :: lines 127 text := by
  obtain ⟨-, hname, hlen, -⟩ := name_plain s
  apply lines_append
  · intro c hc
    rcases List.mem_append.mp hc with hc | hc
    · exact (hname c hc).2
    · rcases List.mem_cons.mp hc with rfl | hc
      · decide
      · rcases List.mem_append.mp hc with hc | hc
        · exact (mem_printHex hc).2.1
        · rw [List.mem_singleton.mp hc]
          decide
  · rw [headerLine, List.length_append, List.length_cons, List.length_append, length_printHex,
      List.length_singleton]
    omega

theorem lines_words (b : Block) (ds : List Nat) (text : List Char) :
    lines 127 (ds.flatMap (fun d => wordLine b d ++ ['\n']) ++ text) =
      ds.map (fun d => wordLine b d ++ ['\n']) ++ lines 127 text := by
  induction ds with
  | nil => rfl
  | cons d ds ih =>
    have hline : lines 127 (wordLine b d ++ '\n' ::
        (ds.flatMap (fun d => wordLine b d ++ ['\n']) ++ text)) =
          (wordLine b d ++ ['\n']) ::
            lines 127 (ds.flatMap (fun d => wordLine b d ++ ['\n']) ++ text) := by
      apply lines_append
      · intro c hc
        rcases List.mem_append.mp hc with hc | hc
        · exact (mem_printHex hc).2.1
        · rw [List.mem_singleton.mp hc]
          decide
      · rw [wordLine, List.length_append, length_printHex, List.length_singleton]
        decide
    rw [List.flatMap_cons, List.append_assoc, List.append_assoc, List.singleton_append, hline, ih]
    rfl

/-- The lines that `load_global_mem` reads of a block. -/
def blockLines (s : Space) (e : Nat × Block) : List (List Char) :=
  (headerLine s e.1 ++ ['\n']) ::
    (List.range (s.BSIZE / 4)).map fun d => wordLine e.2 d ++ ['\n']

theorem lines_store (s : Space) (blocks : List (Nat × Block)) :
    lines 127 (store_global_mem s blocks) = blocks.flatMap (blockLines s) := by
  induction blocks with
  | nil => rfl
  | cons e blocks ih =>
    have htext : store_global_mem s (e :: blocks) = headerLine s e.1 ++ '\n' ::
        ((List.range (s.BSIZE / 4)).flatMap (fun d => wordLine e.2 d ++ ['\n']) ++
          store_global_mem s blocks) := by
      have hwords := lines_of_words (t := store_global_mem s blocks) e.2 (List.range (s.BSIZE / 4))
      rw [← hwords, headerLine]
      simp [store_global_mem, printBlock]
    rw [htext, lines_header, lines_words, ih]
    rfl

/-! ## One loaded block -/

theorem loadLine_header (s : Space) (index : Nat) (st : Loading) :
    loadLine s.BSIZE st (headerLine s index ++ ['\n']) =
      some { st with index := index % 2 ^ 32, offset := 0 } := by
  obtain ⟨hne, hname, -, hhead⟩ := name_plain s
  have hend : ∀ c ∈ [':', '\n'], c ≠ ' ' := by simp
  have hrest : tokens (printHex (index % 2 ^ 32) ++ [':', '\n']) =
      [printHex (index % 2 ^ 32) ++ [':', '\n']] := by
    apply tokens_single
    · simp [printHex]
    · intro c hc
      rcases List.mem_append.mp hc with hc | hc
      · exact (mem_printHex hc).1
      · exact hend c hc
  have htokens : tokens (headerLine s index ++ ['\n']) =
      [s.m_name, printHex (index % 2 ^ 32) ++ [':', '\n']] := by
    have hfirst := tokens_append hne (fun c hc => (hname c hc).1)
      (printHex (index % 2 ^ 32) ++ [':', '\n'])
    rw [hrest] at hfirst
    rw [← hfirst, headerLine]
    simp
  have hread : readHex 0 (printHex (index % 2 ^ 32) ++ [':', '\n']) = index % 2 ^ 32 := by
    apply readHex_printHex (Nat.mod_lt _ (Nat.two_pow_pos 32))
    intro c hc
    cases hc
    rfl
  rw [loadLine, htokens]
  simp only [if_pos hhead, hread]

theorem wordAt_lt (b : Block) (d : Nat) : wordAt b d < 2 ^ 32 := by
  have h0 := (b (4 * d)).toNat_lt
  have h1 := (b (4 * d + 1)).toNat_lt
  have h2 := (b (4 * d + 2)).toNat_lt
  have h3 := (b (4 * d + 3)).toNat_lt
  rw [wordAt]
  omega

theorem loadLine_word (b : Block) (d : Nat) {BSIZE : Nat} (st : Loading)
    (hroom : st.offset + 4 ≤ BSIZE) :
    loadLine BSIZE st (wordLine b d ++ ['\n']) =
      some
        { st with
          m_data := st.m_data.alter st.index blankBlock (writeWord st.offset (wordAt b d))
          offset := st.offset + 4 } := by
  have hplain : ∀ c ∈ printHex (wordAt b d), c ≠ ' ' := fun c hc => (mem_printHex hc).1
  have htokens : tokens (wordLine b d ++ ['\n']) = [printHex (wordAt b d), ['\n']] := by
    have hfirst := tokens_append (List.cons_ne_nil _ _) hplain ['\n']
    rw [wordLine, List.append_assoc]
    exact hfirst
  have hhead : ¬ ((printHex (wordAt b d)).head? = some 'g' ∨
      (printHex (wordAt b d)).head? = some 's' ∨ (printHex (wordAt b d)).head? = some 'l') := by
    have hmem : ∀ c, (printHex (wordAt b d)).head? = some c → c ∈ printHex (wordAt b d) :=
      fun c hc => List.mem_of_mem_head? hc
    rintro (h | h | h)
    · exact (mem_printHex (hmem _ h)).2.2.1 rfl
    · exact (mem_printHex (hmem _ h)).2.2.2.1 rfl
    · exact (mem_printHex (hmem _ h)).2.2.2.2 rfl
  have hread : readHex 0 (printHex (wordAt b d) ++ []) = wordAt b d :=
    readHex_printHex (wordAt_lt b d) (by simp)
  rw [List.append_nil] at hread
  rw [loadLine, htokens]
  simp only [if_neg hhead, if_pos hroom, hread]

/-- The four bytes of a written word. -/
theorem writeWord_wordAt (b b' : Block) (d o : Nat) :
    writeWord (4 * d) (wordAt b d) b' o = if 4 * d ≤ o ∧ o < 4 * d + 4 then b o else b' o := by
  have h0 := (b (4 * d)).toNat_lt
  have h1 := (b (4 * d + 1)).toNat_lt
  have h2 := (b (4 * d + 2)).toNat_lt
  have h3 := (b (4 * d + 3)).toNat_lt
  rw [writeWord]
  split_ifs with hin
  · apply UInt8.toNat_inj.mp
    rw [UInt8.toNat_ofNat', wordAt]
    have hcases : o = 4 * d ∨ o = 4 * d + 1 ∨ o = 4 * d + 2 ∨ o = 4 * d + 3 := by omega
    rcases hcases with rfl | rfl | rfl | rfl
    · rw [Nat.sub_self]
      omega
    · rw [Nat.add_sub_cancel_left]
      omega
    · rw [Nat.add_sub_cancel_left]
      omega
    · rw [Nat.add_sub_cancel_left]
      omega
  · rfl

/-- The first `n` words of a block. -/
theorem load_words (b : Block) {BSIZE n : Nat} (hn : 4 * n ≤ BSIZE) (st : Loading)
    (hoffset : st.offset = 0) :
    ∃ st', ((List.range n).map fun d => wordLine b d ++ ['\n']).foldlM (loadLine BSIZE) st = some st' ∧
      st'.offset = 4 * n ∧ st'.index = st.index ∧
        ∀ i o, byteAt st'.m_data i o =
          if i = st.index ∧ o < 4 * n then b o else byteAt st.m_data i o := by
  induction n with
  | zero =>
    refine ⟨st, rfl, hoffset, rfl, fun i o => ?_⟩
    rw [if_neg]
    omega
  | succ n ih =>
    obtain ⟨st', hrun, hoff, hindex, hbytes⟩ := ih (by omega)
    have hroom : st'.offset + 4 ≤ BSIZE := by omega
    have hword := loadLine_word b n st' hroom
    refine ⟨{ st' with
      m_data := st'.m_data.alter st'.index blankBlock (writeWord st'.offset (wordAt b n))
      offset := st'.offset + 4 }, ?_, ?_, ?_, ?_⟩
    · rw [List.range_succ, List.map_append, List.foldlM_append, hrun]
      simp only [List.map_singleton, Option.bind_eq_bind, Option.bind_some, List.foldlM_cons,
        List.foldlM_nil, hword]
      rfl
    · simp only [hoff]
      omega
    · exact hindex
    · intro i o
      have hblock := hbytes st'.index o
      simp only [byteAt_alter]
      rw [hoff, writeWord_wordAt]
      rw [byteAt] at hblock
      rw [hblock, hbytes i o, hindex]
      by_cases hi : i = st.index
      · subst hi
        simp only [true_and, if_true]
        split_ifs <;> first | rfl | omega
      · simp only [hi, false_and, if_false]

theorem four_dvd_BSIZE (s : Space) : 4 * (s.BSIZE / 4) = s.BSIZE := by
  cases s with
  | global_mem large_pages =>
    rw [Space.BSIZE]
    split_ifs <;> rfl
  | shared_mem sid => rw [Space.BSIZE]
  | local_mem sid tid => rw [Space.BSIZE]

/-- A block takes the place of the one whose index has the same low 32 bits. -/
theorem load_block (s : Space) (e : Nat × Block) (st : Loading) :
    ∃ st', (blockLines s e).foldlM (loadLine s.BSIZE) st = some st' ∧
      ∀ i, ∀ o < s.BSIZE, byteAt st'.m_data i o =
        if i = e.1 % 2 ^ 32 then e.2 o else byteAt st.m_data i o := by
  obtain ⟨st', hrun, -, -, hbytes⟩ := load_words e.2 (le_of_eq (four_dvd_BSIZE s))
    { st with index := e.1 % 2 ^ 32, offset := 0 } rfl
  refine ⟨st', ?_, ?_⟩
  · rw [blockLines, List.foldlM_cons, loadLine_header]
    exact hrun
  · intro i o ho
    rw [hbytes, four_dvd_BSIZE]
    simp only [ho, and_true]

/-! ## The whole memory -/

/-- The bytes of a file are those of the last block with the low bits of the index. -/
def loadedByte (blocks : List (Nat × Block)) (i o : Nat) (before : UInt8) : UInt8 :=
  blocks.foldl (fun v e => if i = e.1 % 2 ^ 32 then e.2 o else v) before

theorem load_blocks (s : Space) (blocks : List (Nat × Block)) (st : Loading) :
    ∃ st', (blocks.flatMap (blockLines s)).foldlM (loadLine s.BSIZE) st = some st' ∧
      ∀ i, ∀ o < s.BSIZE, byteAt st'.m_data i o = loadedByte blocks i o (byteAt st.m_data i o) := by
  induction blocks generalizing st with
  | nil => exact ⟨st, rfl, fun _ _ _ => rfl⟩
  | cons e blocks ih =>
    obtain ⟨st1, hrun1, hbytes1⟩ := load_block s e st
    obtain ⟨st2, hrun2, hbytes2⟩ := ih st1
    refine ⟨st2, ?_, ?_⟩
    · rw [List.flatMap_cons, List.foldlM_append, hrun1]
      exact hrun2
    · intro i o ho
      rw [hbytes2 i o ho, hbytes1 i o ho]
      rfl

theorem load_store (s : Space) (blocks : List (Nat × Block)) :
    ∃ m_data, load_global_mem s.BSIZE .empty (store_global_mem s blocks) = some m_data ∧
      ∀ i, ∀ o < s.BSIZE, byteAt m_data i o = loadedByte blocks i o 0 := by
  obtain ⟨st, hrun, hbytes⟩ := load_blocks s blocks { m_data := .empty }
  refine ⟨st.m_data, ?_, hbytes⟩
  rw [load_global_mem, lines_store, hrun]
  rfl

/-! ## What the memory keeps -/

/-- No byte of the block is set. -/
def Blank (BSIZE : Nat) (b : Block) : Prop := ∀ o < BSIZE, b o = 0

/-- A page with an index of more than 32 bits holds nothing, and neither does the page that its
low bits name when that page is written before it. -/
def PagesPrintable (BSIZE : Nat) (blocks : List (Nat × Block)) : Prop :=
  (∀ e ∈ blocks, 2 ^ 32 ≤ e.1 → Blank BSIZE e.2) ∧
    blocks.Pairwise fun e0 e => 2 ^ 32 ≤ e.1 → e0.1 = e.1 % 2 ^ 32 → Blank BSIZE e0.2

theorem loadedByte_append (b0 b1 : List (Nat × Block)) (i o : Nat) (v : UInt8) :
    loadedByte (b0 ++ b1) i o v = loadedByte b1 i o (loadedByte b0 i o v) := List.foldl_append

theorem loadedByte_cons (e : Nat × Block) (blocks : List (Nat × Block)) (i o : Nat) (v : UInt8) :
    loadedByte (e :: blocks) i o v =
      loadedByte blocks i o (if i = e.1 % 2 ^ 32 then e.2 o else v) := rfl

/-- Writing the same byte again. -/
theorem loadedByte_same {blocks : List (Nat × Block)} {i o : Nat} {v : UInt8}
    (h : ∀ e ∈ blocks, i = e.1 % 2 ^ 32 → e.2 o = v) : loadedByte blocks i o v = v := by
  induction blocks with
  | nil => rfl
  | cons e blocks ih =>
    have hv : (if i = e.1 % 2 ^ 32 then e.2 o else v) = v := by
      split_ifs with hi
      · exact h e (List.mem_cons_self ..) hi
      · rfl
    rw [loadedByte_cons, hv]
    exact ih fun f hf => h f (List.mem_cons_of_mem _ hf)

/-- The last of the blocks that match leaves its byte. -/
theorem loadedByte_of_mem {blocks : List (Nat × Block)} {i o : Nat} {w : UInt8}
    (h : ∀ e ∈ blocks, i = e.1 % 2 ^ 32 → e.2 o = w) {e : Nat × Block} (he : e ∈ blocks)
    (hi : i = e.1 % 2 ^ 32) (v : UInt8) : loadedByte blocks i o v = w := by
  obtain ⟨b0, b1, rfl⟩ := List.append_of_mem he
  rw [loadedByte_append, loadedByte_cons, if_pos hi, h e he hi]
  apply loadedByte_same
  intro f hf
  exact h f (List.mem_append_right _ (List.mem_cons_of_mem _ hf))

section

variable {mem : BlockMap} {blocks : List (Nat × Block)} (hperm : blocks.Perm mem.entries)
include hperm

theorem byteAt_of_mem {e : Nat × Block} (he : e ∈ blocks) (o : Nat) :
    byteAt mem e.1 o = e.2 o := by
  rw [byteAt, StdMap.findD_of_mem mem blankBlock (hperm.mem_iff.mp he)]

theorem byteAt_of_not_mem {i : Nat} (hi : ∀ e ∈ blocks, e.1 ≠ i) (o : Nat) :
    byteAt mem i o = 0 := by
  have hnone : mem.find i = none := by
    rw [StdMap.find_eq_none_iff]
    intro hkey
    obtain ⟨e, he, rfl⟩ := List.mem_map.mp hkey
    exact hi e (hperm.mem_iff.mpr he) rfl
  rw [byteAt, StdMap.findD, hnone]
  rfl

theorem blocks_keys_nodup : (blocks.map Prod.fst).Nodup :=
  (hperm.map Prod.fst).nodup_iff.mpr mem.keys_nodup

/-- Of the blocks apart from the page itself, only pages beyond 32 bits match its index. -/
theorem other_index_high {b0 b1 : List (Nat × Block)} (hsplit : blocks = b0 ++ b1)
    {e0 e : Nat × Block} (he0 : e0 ∈ b0) (he : e ∈ b1) (hi : e0.1 = e.1 % 2 ^ 32) :
    2 ^ 32 ≤ e.1 := by
  have hnodup := blocks_keys_nodup hperm
  rw [hsplit, List.map_append, List.nodup_append] at hnodup
  have hne := hnodup.2.2 e0.1 (List.mem_map_of_mem he0) e.1 (List.mem_map_of_mem he)
  by_contra hlow
  rw [Nat.mod_eq_of_lt (Nat.lt_of_not_le hlow)] at hi
  exact hne hi

/-- When no page beyond 32 bits matters, every byte is loaded as it was. -/
theorem loadedByte_eq_byteAt {BSIZE : Nat} (h : PagesPrintable BSIZE blocks) {o : Nat}
    (ho : o < BSIZE) (i : Nat) : loadedByte blocks i o 0 = byteAt mem i o := by
  obtain ⟨hhigh, hpair⟩ := h
  by_cases hkey : ∃ e0 ∈ blocks, e0.1 = i
  · obtain ⟨e0, he0, rfl⟩ := hkey
    rw [byteAt_of_mem hperm he0]
    by_cases hlow : e0.1 < 2 ^ 32
    · obtain ⟨b0, b1, hsplit⟩ := List.append_of_mem he0
      rw [hsplit, loadedByte_append, loadedByte_cons, if_pos (Nat.mod_eq_of_lt hlow).symm]
      apply loadedByte_same
      intro e he hi
      -- a later page with these low bits is beyond 32 bits, so both are blank
      have hafter : e ∈ blocks := by
        rw [hsplit]
        exact List.mem_append_right _ (List.mem_cons_of_mem _ he)
      have hsplit' : blocks = (b0 ++ [e0]) ++ b1 := by
        rw [hsplit, List.append_assoc]
        rfl
      have hbeyond := other_index_high hperm hsplit'
        (List.mem_append_right _ (List.mem_singleton_self _)) he hi
      rw [hsplit] at hpair
      have hblank := (List.pairwise_cons.mp (List.pairwise_append.mp hpair).2.1).1 e he hbeyond hi
      rw [hhigh e hafter hbeyond o ho, hblank o ho]
    · rw [hhigh e0 he0 (Nat.le_of_not_lt hlow) o ho]
      apply loadedByte_same
      intro e _ hi
      have hmod := Nat.mod_lt e.1 (Nat.two_pow_pos 32)
      omega
  · have hnone : ∀ e ∈ blocks, e.1 ≠ i := fun e he heq => hkey ⟨e, he, heq⟩
    rw [byteAt_of_not_mem hperm hnone]
    apply loadedByte_same
    intro e he hi
    apply hhigh e he _ o ho
    by_contra hlow
    rw [Nat.mod_eq_of_lt (Nat.lt_of_not_le hlow)] at hi
    exact hnone e he hi.symm

/-- When every byte is loaded as it was, no page beyond 32 bits matters. -/
theorem pagesPrintable_of_loaded {BSIZE : Nat}
    (h : ∀ i, ∀ o < BSIZE, loadedByte blocks i o 0 = byteAt mem i o) :
    PagesPrintable BSIZE blocks := by
  have hhigh : ∀ e ∈ blocks, 2 ^ 32 ≤ e.1 → Blank BSIZE e.2 := by
    intro e he hbeyond o ho
    rw [← byteAt_of_mem hperm he, ← h e.1 o ho]
    apply loadedByte_same
    intro f _ hi
    have hmod := Nat.mod_lt f.1 (Nat.two_pow_pos 32)
    omega
  refine ⟨hhigh, List.pairwise_iff_forall_sublist.mpr ?_⟩
  intro e0 e hsub hbeyond hi o ho
  obtain ⟨b0, b1, hsplit, he0, hsub⟩ := List.cons_sublist_iff.mp hsub
  have he : e ∈ b1 := List.singleton_sublist.mp hsub
  have hmem0 : e0 ∈ blocks := by
    rw [hsplit]
    exact List.mem_append_left _ he0
  rw [← byteAt_of_mem hperm hmem0, ← h e0.1 o ho, hsplit, loadedByte_append]
  apply loadedByte_of_mem _ he hi
  intro f hf hfi
  have hfbeyond := other_index_high hperm hsplit he0 hf hfi
  apply hhigh f _ hfbeyond o ho
  rw [hsplit]
  exact List.mem_append_right _ hf

end

/-- A memory comes back as it was when its pages can be printed, and only then. -/
theorem load_store_iff (s : Space) {mem : BlockMap} {blocks : List (Nat × Block)}
    (hperm : blocks.Perm mem.entries) :
    (∃ m_data, load_global_mem s.BSIZE .empty (store_global_mem s blocks) = some m_data ∧
      ∀ i, ∀ o < s.BSIZE, byteAt m_data i o = byteAt mem i o) ↔ PagesPrintable s.BSIZE blocks := by
  obtain ⟨m_data, hload, hbytes⟩ := load_store s blocks
  constructor
  · rintro ⟨m_data', hload', hsame⟩
    rw [hload, Option.some_inj] at hload'
    subst hload'
    apply pagesPrintable_of_loaded hperm
    intro i o ho
    rw [← hbytes i o ho, hsame i o ho]
  · intro h
    refine ⟨m_data, hload, ?_⟩
    intro i o ho
    rw [hbytes i o ho, loadedByte_eq_byteAt hperm h ho]

/-- Checkpoint and resume are inverse for exactly the stacks and the memories whose values the
formats can print. -/
theorem checkpoint_iff (m_warp_id : Nat) {m_warp_size : Nat} {m_stack : List StackEntry}
    (hsize : m_warp_size ≤ 32) (hwell : ∀ e ∈ m_stack, e.WellFormed m_warp_size) (s : Space)
    {mem : BlockMap} {blocks : List (Nat × Block)} (hperm : blocks.Perm mem.entries) :
    (resume m_warp_size (print_checkpoint m_warp_id m_warp_size m_stack) = some m_stack ↔
        ∀ e ∈ m_stack, e.Printable) ∧
      ((∃ m_data, load_global_mem s.BSIZE .empty (store_global_mem s blocks) = some m_data ∧
        ∀ i, ∀ o < s.BSIZE, byteAt m_data i o = byteAt mem i o) ↔
          PagesPrintable s.BSIZE blocks) :=
  ⟨resume_eq_iff m_warp_id hsize hwell, load_store_iff s hperm⟩

def divergedEntry (cycle : Nat) : StackEntry :=
  { m_active_mask := fun j => decide (j < 16)
    m_pc := 248
    m_recvg_pc := 320
    m_branch_div_cycle := cycle }

/-- A memory with one page, which begins with a word that is not zero. -/
def onePage (index : Nat) : BlockMap := StdMap.empty.alter index blankBlock (writeWord 0 77)

theorem divergedEntry_wellFormed {cycle : Nat} (h : cycle < 2 ^ 64) :
    (divergedEntry cycle).WellFormed 32 := by
  refine ⟨?_, ?_, ?_, h, ?_⟩
  · simp [divergedEntry]
  · simp [divergedEntry]
  · simp [divergedEntry]
  · intro j hj
    simp only [divergedEntry, decide_eq_false_iff_not]
    omega

/-- A warp that diverged at cycle 1000, and a memory of page 3. -/
theorem checkpoint_small :
    resume 32 (print_checkpoint 5 32 [divergedEntry 1000]) = some [divergedEntry 1000] ∧
      ∃ m_data, load_global_mem 4096 .empty
          (store_global_mem (.global_mem false) (onePage 3).entries) = some m_data ∧
        ∀ i, ∀ o < 4096, byteAt m_data i o = byteAt (onePage 3) i o := by
  have hwell : ∀ e ∈ [divergedEntry 1000], e.WellFormed 32 := by
    intro e he
    rw [List.mem_singleton.mp he]
    exact divergedEntry_wellFormed (by omega)
  have hiff := checkpoint_iff 5 (le_refl 32) hwell (.global_mem false)
    (List.Perm.refl (onePage 3).entries)
  constructor
  · apply hiff.1.mpr
    intro e he
    rw [List.mem_singleton.mp he]
    refine ⟨Or.inl ?_, Or.inl ?_, Or.inl ?_⟩ <;> simp [divergedEntry]
  · apply hiff.2.mpr
    refine ⟨?_, List.pairwise_singleton _ _⟩
    intro e he hbeyond
    rw [List.mem_singleton.mp he] at hbeyond
    simp at hbeyond

/-- A warp that diverged at cycle 2^31 resumes with another cycle, and a page beyond 32 bits
comes back empty. -/
theorem checkpoint_cuts :
    resume 32 (print_checkpoint 5 32 [divergedEntry (2 ^ 31)]) ≠ some [divergedEntry (2 ^ 31)] ∧
      ¬ ∃ m_data, load_global_mem 4096 .empty
          (store_global_mem (.global_mem false) (onePage (2 ^ 32)).entries) = some m_data ∧
        ∀ i, ∀ o < 4096, byteAt m_data i o = byteAt (onePage (2 ^ 32)) i o := by
  constructor
  · intro hresume
    have hwell : ∀ e ∈ [divergedEntry (2 ^ 31)], e.WellFormed 32 := by
      intro e he
      rw [List.mem_singleton.mp he]
      exact divergedEntry_wellFormed (by omega)
    have hprint := (resume_eq_iff 5 (le_refl 32) hwell).mp hresume _ (List.mem_singleton_self _)
    have hcycle : FitsInt (2 ^ 31) := hprint.2.2
    rw [FitsInt] at hcycle
    omega
  · intro hload
    have hpages := (load_store_iff (.global_mem false) (List.Perm.refl _)).mp hload
    have hblank := hpages.1 (2 ^ 32, writeWord 0 77 blankBlock) (List.mem_singleton_self _)
      (le_refl _) 0 (by decide)
    revert hblank
    decide

end checkpoint

end gpgpu_sim_uvm
