-- What each function of the scoreboard and of the pending writes changes: which registers
-- are reserved, and how many accesses each of them waits for.
import GpgpuSimUvm.Scoreboard

namespace gpgpu_sim_uvm.scoreboard

variable {inst : WarpInst} {l : List Nat} {w : Nat}

/-! ## The registers of an instruction -/

/-- The instruction writes the register. -/
def WarpInst.Writes (inst : WarpInst) (r : Nat) : Prop := 0 < r ∧ r ∈ inst.out

instance (inst : WarpInst) (r : Nat) : Decidable (inst.Writes r) :=
  inferInstanceAs (Decidable (_ ∧ _))

/-- The registers that it writes, in their order. -/
def WarpInst.outputs (inst : WarpInst) : List Nat := inst.out.filter fun r => decide (0 < r)

theorem WarpInst.mem_outputs {r : Nat} : r ∈ inst.outputs ↔ inst.Writes r := by
  simp [outputs, Writes, and_comm]

/-- The registers come before the zeros. -/
def Packed (l : List Nat) : Prop := l.Pairwise fun a b => a = 0 → b = 0

instance (l : List Nat) : Decidable (Packed l) := inferInstanceAs (Decidable (l.Pairwise _))

theorem Packed.mem_take (h : Packed l) {r : Nat} (hr : r ∈ l) (hpos : 0 < r) :
    r ∈ l.take (l.countP fun r => decide (0 < r)) := by
  induction l with
  | nil => cases hr
  | cons a l ih =>
    obtain ⟨hzero, hl⟩ := List.pairwise_cons.mp h
    have ha : 0 < a := by
      rcases List.mem_cons.mp hr with rfl | hr
      · exact hpos
      · by_contra hcon
        have := hzero r hr (by omega)
        omega
    rw [List.countP_cons_of_pos (by simpa using ha), List.take_succ_cons]
    rcases List.mem_cons.mp hr with rfl | hr
    · exact List.mem_cons_self
    · exact List.mem_cons_of_mem _ (ih hl hr)

/-- A fold that passes zeros is one over the registers. -/
theorem foldl_registers {S : Type} (f : S → Nat → S) (l : List Nat) (s : S) :
    l.foldl (fun s r => if 0 < r then f s r else s) s =
      (l.filter fun r => decide (0 < r)).foldl f s := by
  simp [List.foldl_filter]

theorem foldlM_registers {S : Type} (f : S → Nat → Option S) (l : List Nat) (s : S) :
    l.foldlM (fun s r => if 0 < r then f s r else some s) s =
      (l.filter fun r => decide (0 < r)).foldlM f s := by
  induction l generalizing s with
  | nil => rfl
  | cons a l ih =>
    rw [List.foldlM_cons, List.filter_cons]
    by_cases ha : 0 < a
    · simp only [ha, if_true, decide_true, List.foldlM_cons, ih]
    · simp only [ha, if_false, decide_false, Bool.false_eq_true, ih]
      rfl

/-! ## The scoreboard -/

namespace Scoreboard

variable {s : Scoreboard}

theorem reserve_all (hl : l.Nodup) (hfree : ∀ r ∈ l, r ∉ s.reg_table w) :
    ∃ s', l.foldlM (fun s r => reserveRegister s w r) s = some s' ∧
      (∀ v r, r ∈ s'.reg_table v ↔ r ∈ s.reg_table v ∨ v = w ∧ r ∈ l) ∧
      s'.longopregs = s.longopregs := by
  induction l generalizing s with
  | nil => exact ⟨s, rfl, by simp, rfl⟩
  | cons a l ih =>
    obtain ⟨hnot, hl⟩ := List.nodup_cons.mp hl
    have hreserve : s.reserveRegister w a =
        some { s with reg_table := Function.update s.reg_table w (insert a (s.reg_table w)) } :=
      if_neg (hfree a List.mem_cons_self)
    obtain ⟨s', hs', hmem, hlong⟩ := ih (s := { s with
      reg_table := Function.update s.reg_table w (insert a (s.reg_table w)) }) hl fun r hr => by
        simp only [Function.update_self, Finset.mem_insert, not_or]
        exact ⟨fun heq => hnot (heq ▸ hr), hfree r (List.mem_cons_of_mem _ hr)⟩
    refine ⟨s', ?_, fun v r => ?_, hlong⟩
    · rw [List.foldlM_cons, hreserve]
      exact hs'
    · rw [hmem]
      rcases eq_or_ne v w with rfl | hv
      · simp [or_comm, or_left_comm, or_assoc]
      · simp [hv]

theorem mark_all (l : List Nat) (s : Scoreboard) :
    (l.foldl (fun s r => markLongOp s w r) s).reg_table = s.reg_table ∧
      ∀ v r, r ∈ (l.foldl (fun s r => markLongOp s w r) s).longopregs v ↔
        r ∈ s.longopregs v ∨ v = w ∧ r ∈ l := by
  induction l generalizing s with
  | nil => simp
  | cons a l ih =>
    obtain ⟨htable, hlong⟩ := ih (s.markLongOp w a)
    refine ⟨htable, fun v r => ?_⟩
    rw [List.foldl_cons, hlong]
    rcases eq_or_ne v w with rfl | hv
    · simp [markLongOp, or_comm, or_left_comm, or_assoc]
    · simp [markLongOp, hv]

/-- Reserving the registers of an instruction that are free. -/
theorem reserveRegisters_some (hl : inst.outputs.Nodup)
    (hfree : ∀ r, inst.Writes r → r ∉ s.reg_table inst.warp_id) :
    ∃ s', s.reserveRegisters inst = some s' ∧
      (∀ v r, r ∈ s'.reg_table v ↔ r ∈ s.reg_table v ∨ v = inst.warp_id ∧ inst.Writes r) ∧
      (∀ v r, r ∈ s.longopregs v → r ∈ s'.longopregs v) ∧
      (inst.isLongOp = true → ∀ r, inst.Writes r → r ∈ s'.longopregs inst.warp_id) := by
  obtain ⟨s', hs', hmem, hlong⟩ := reserve_all hl fun r hr => hfree r (WarpInst.mem_outputs.mp hr)
  obtain ⟨htable, hmarked⟩ := mark_all (w := inst.warp_id) inst.outputs s'
  simp only [WarpInst.mem_outputs] at hmem hmarked
  unfold reserveRegisters
  rw [foldlM_registers, show (inst.out.filter fun r => decide (0 < r)) = inst.outputs from rfl, hs',
    Option.map_some]
  refine ⟨_, rfl, ?_⟩
  cases hop : inst.isLongOp with
  | true =>
    rw [if_pos rfl, foldl_registers,
      show (inst.out.filter fun r => decide (0 < r)) = inst.outputs from rfl, htable]
    refine ⟨hmem, fun v r hr => (hmarked v r).mpr (.inl (hlong ▸ hr)), fun _ r hr => ?_⟩
    exact (hmarked _ r).mpr (.inr ⟨rfl, hr⟩)
  | false =>
    rw [if_neg (by simp)]
    exact ⟨hmem, fun v r hr => hlong ▸ hr, fun hcon => by cases hcon⟩

theorem mem_releaseRegister {v r a : Nat} :
    r ∈ (s.releaseRegister w a).reg_table v ↔ r ∈ s.reg_table v ∧ ¬ (v = w ∧ r = a) := by
  unfold releaseRegister
  rcases eq_or_ne v w with rfl | hv
  · simp [and_comm]
  · simp [hv]

/-- A fold over releases of some kind. -/
theorem release_all {f : Scoreboard → Nat → Scoreboard} {T : Scoreboard → Nat → Finset Nat}
    (hf : ∀ s a v r, r ∈ T (f s a) v ↔ r ∈ T s v ∧ ¬ (v = w ∧ r = a)) (l : List Nat)
    (s : Scoreboard) (v r : Nat) :
    r ∈ T (l.foldl f s) v ↔ r ∈ T s v ∧ ¬ (v = w ∧ r ∈ l) := by
  induction l generalizing s with
  | nil => simp
  | cons a l ih =>
    rw [List.foldl_cons, ih, hf, List.mem_cons]
    tauto

/-- `releaseRegister` alone leaves the long operations as they are. -/
theorem longopregs_release_all (l : List Nat) (s : Scoreboard) :
    (l.foldl (fun s r => releaseRegister s w r) s).longopregs = s.longopregs := by
  induction l generalizing s with
  | nil => rfl
  | cons a l ih =>
    rw [List.foldl_cons, ih]
    rfl

theorem releaseRegisters_spec (s : Scoreboard) (inst : WarpInst) (v r : Nat) :
    (r ∈ (s.releaseRegisters inst).reg_table v ↔
      r ∈ s.reg_table v ∧ ¬ (v = inst.warp_id ∧ inst.Writes r)) ∧
    (r ∈ (s.releaseRegisters inst).longopregs v ↔
      r ∈ s.longopregs v ∧ ¬ (v = inst.warp_id ∧ inst.Writes r)) := by
  have htable : ∀ (s : Scoreboard) (a v r : Nat), r ∈ (s.releaseOutput inst.warp_id a).reg_table v ↔
      r ∈ s.reg_table v ∧ ¬ (v = inst.warp_id ∧ r = a) := fun s a v r => mem_releaseRegister
  have hlong : ∀ (s : Scoreboard) (a v r : Nat), r ∈ (s.releaseOutput inst.warp_id a).longopregs v ↔
      r ∈ s.longopregs v ∧ ¬ (v = inst.warp_id ∧ r = a) := by
    intro s a v r
    unfold releaseOutput releaseRegister
    rcases eq_or_ne v inst.warp_id with rfl | hv
    · simp [and_comm]
    · simp [hv]
  unfold releaseRegisters
  rw [foldl_registers, ← WarpInst.mem_outputs]
  exact ⟨release_all (T := reg_table) htable _ s v r,
    release_all (T := longopregs) hlong _ s v r⟩

/-- Without a collision no register of the instruction is reserved. -/
theorem free_of_checkCollision (h : s.checkCollision w inst = false) {r : Nat}
    (hr : r ∈ inst.inst_regs) : r ∉ s.reg_table w := by
  have hnone := List.any_eq_false.mp h r hr
  simpa using hnone

end Scoreboard

/-! ## The pending writes -/

namespace Registers

variable {g g' : Registers}

/-- The accesses that a register waits for. -/
def owed (g : Registers) (w r : Nat) : Option Nat := (g.m_pending_writes w).find r

theorem owed_alterPending (g : Registers) (w a : Nat) (f : Nat → Nat) (v r : Nat) :
    (g.alterPending w a f).owed v r =
      if v = w ∧ r = a then some (f ((g.owed w a).getD 0)) else g.owed v r := by
  unfold owed alterPending
  dsimp only
  rcases eq_or_ne v w with rfl | hv
  · rw [Function.update_self]
    rcases eq_or_ne r a with rfl | hr
    · rw [if_pos ⟨rfl, rfl⟩, StdMap.find_alter_self]
      rfl
    · rw [if_neg fun hcon => hr hcon.2, StdMap.find_alter_ne _ _ _ hr]
  · rw [if_neg fun hcon => hv hcon.1, Function.update_of_ne hv]

theorem owed_erasePending (g : Registers) (w a v r : Nat) :
    (g.erasePending w a).owed v r = if v = w ∧ r = a then none else g.owed v r := by
  unfold owed erasePending
  dsimp only
  rcases eq_or_ne v w with rfl | hv
  · rw [Function.update_self]
    rcases eq_or_ne r a with rfl | hr
    · rw [if_pos ⟨rfl, rfl⟩, StdMap.find_erase_self]
    · rw [if_neg fun hcon => hr hcon.2, StdMap.find_erase_ne _ hr]
  · rw [if_neg fun hcon => hv hcon.1, Function.update_of_ne hv]

/-- Each register of the list is counted once. -/
theorem owed_alter_all (f : Nat → Nat) (hl : l.Nodup) (g : Registers) (v r : Nat) :
    (l.foldl (fun g a => alterPending g w a f) g).owed v r =
      if v = w ∧ r ∈ l then some (f ((g.owed w r).getD 0)) else g.owed v r := by
  induction l generalizing g with
  | nil => simp
  | cons a l ih =>
    obtain ⟨hnot, hl⟩ := List.nodup_cons.mp hl
    rw [List.foldl_cons, ih hl, owed_alterPending, owed_alterPending]
    rcases eq_or_ne r a with rfl | hr
    · simp [hnot]
    · simp [hr]

theorem scoreboard_alter_all (f : Nat → Nat) (l : List Nat) (g : Registers) :
    (l.foldl (fun g a => alterPending g w a f) g).m_scoreboard = g.m_scoreboard := by
  induction l generalizing g with
  | nil => rfl
  | cons a l ih =>
    rw [List.foldl_cons, ih]
    rfl

/-- Every register of the instruction waits for `n` accesses, and nothing else changed. -/
structure Counted (inst : WarpInst) (n : Nat) (g g' : Registers) : Prop where
  owed : ∀ v r, g'.owed v r =
    if v = inst.warp_id ∧ inst.Writes r then some n else g.owed v r
  kept : g'.m_scoreboard = g.m_scoreboard

/-- `n` accesses of the instruction are to come; without one its registers are released. -/
structure Returned (inst : WarpInst) (n : Nat) (g g' : Registers) : Prop where
  owed : ∀ v r, g'.owed v r =
    if v = inst.warp_id ∧ inst.Writes r then if n = 0 then none else some n else g.owed v r
  reserved : ∀ v r, r ∈ g'.m_scoreboard.reg_table v ↔
    r ∈ g.m_scoreboard.reg_table v ∧ ¬ (n = 0 ∧ v = inst.warp_id ∧ inst.Writes r)
  long : ∀ v r, r ∈ g.m_scoreboard.longopregs v →
    ¬ (n = 0 ∧ v = inst.warp_id ∧ inst.Writes r) → r ∈ g'.m_scoreboard.longopregs v

theorem counted_of_alter_all {f : Nat → Nat} (hl : inst.outputs.Nodup) {n : Nat}
    (hf : ∀ r, inst.Writes r → f ((g.owed inst.warp_id r).getD 0) = n) :
    Counted inst n g (inst.outputs.foldl (fun g a => alterPending g inst.warp_id a f) g) := by
  refine ⟨fun v r => ?_, scoreboard_alter_all f _ g⟩
  rw [owed_alter_all f hl]
  simp only [WarpInst.mem_outputs]
  split
  · rename_i h
    rw [hf r h.2]
  · rfl

theorem issue_counted (hl : inst.outputs.Nodup) (hload : inst.is_load = true)
    (hspace : inst.space ≠ .shared_space) (n : Nat)
    (howed : ∀ r, inst.Writes r → g.owed inst.warp_id r = none) :
    Counted inst n g (g.issue inst n) := by
  unfold issue
  rw [if_pos ⟨hload, hspace⟩, foldl_registers]
  refine counted_of_alter_all hl fun r hr => ?_
  rw [howed r hr]
  exact Nat.zero_add n

theorem cacheHit_counted (hl : inst.outputs.Nodup) (hload : inst.is_load = true) {n : Nat}
    (howed : ∀ r, inst.Writes r → g.owed inst.warp_id r = some (n + 1)) :
    Counted inst n g (g.cacheHit inst) := by
  unfold cacheHit
  rw [if_pos hload, foldl_registers]
  refine counted_of_alter_all hl fun r hr => ?_
  rw [howed r hr]
  rfl

/-- The loop stops at the first register that waits. -/
theorem pending_requests_waits {n : Nat} (hn : n ≠ 0) {regs : List Nat} {g : Registers}
    (hsome : ∃ r ∈ regs, 0 < r) (howed : ∀ r ∈ regs, 0 < r → g.owed w r = some n) :
    pending_requests w g regs = (g, true) := by
  induction regs with
  | nil =>
    obtain ⟨r, hr, -⟩ := hsome
    cases hr
  | cons a regs ih =>
    unfold pending_requests
    by_cases ha : 0 < a
    · have hfind := howed a List.mem_cons_self ha
      unfold owed at hfind
      rw [if_pos ha, hfind]
      exact if_pos (Nat.pos_of_ne_zero hn)
    · rw [if_neg ha]
      refine ih ?_ fun r hr => howed r (List.mem_cons_of_mem _ hr)
      obtain ⟨r, hr, hpos⟩ := hsome
      rcases List.mem_cons.mp hr with rfl | hr
      · exact absurd hpos ha
      · exact ⟨r, hr, hpos⟩

/-- Where no register waits, the loop takes their counts away. -/
theorem pending_requests_done (regs : List Nat) (g : Registers)
    (howed : ∀ r ∈ regs, 0 < r → ∀ n, g.owed w r = some n → n = 0) :
    ∃ g', pending_requests w g regs = (g', false) ∧ g'.m_scoreboard = g.m_scoreboard ∧
      ∀ v r, g'.owed v r = if v = w ∧ 0 < r ∧ r ∈ regs then none else g.owed v r := by
  induction regs generalizing g with
  | nil => exact ⟨g, rfl, rfl, by simp⟩
  | cons a regs ih =>
    unfold pending_requests
    by_cases ha : 0 < a
    · obtain ⟨g', hrun, hscore, howed'⟩ := ih (g.erasePending w a) (by
        intro r hr hpos n hn
        rw [owed_erasePending] at hn
        split at hn
        · cases hn
        · exact howed r (List.mem_cons_of_mem _ hr) hpos n hn)
      have herased : ∀ v r, g'.owed v r =
          if v = w ∧ 0 < r ∧ r ∈ a :: regs then none else g.owed v r := by
        intro v r
        rw [howed', owed_erasePending]
        rcases eq_or_ne r a with rfl | hr
        · by_cases hv : v = w <;> simp [hv, ha]
        · simp [hr]
      rw [if_pos ha]
      cases hfind : (g.m_pending_writes w).find a with
      | some n =>
        have hn := howed a List.mem_cons_self ha n hfind
        dsimp only
        rw [if_neg (by omega)]
        exact ⟨g', hrun, hscore, herased⟩
      | none =>
        obtain ⟨g'', hrun', hscore', howed''⟩ :=
          ih g fun r hr => howed r (List.mem_cons_of_mem _ hr)
        refine ⟨g'', hrun', hscore', fun v r => ?_⟩
        rw [howed'']
        by_cases hr : v = w ∧ r = a
        · obtain ⟨rfl, rfl⟩ := hr
          have hnone : g.owed v r = none := hfind
          simp [hnone]
        · have hmem : (v = w ∧ 0 < r ∧ r ∈ a :: regs) ↔ v = w ∧ 0 < r ∧ r ∈ regs := by
            rw [List.mem_cons]
            tauto
          simp only [hmem]
    · rw [if_neg ha]
      obtain ⟨g', hrun, hscore, howed'⟩ := ih g fun r hr => howed r (List.mem_cons_of_mem _ hr)
      refine ⟨g', hrun, hscore, fun v r => ?_⟩
      have hmem : (0 < r ∧ r ∈ a :: regs) ↔ 0 < r ∧ r ∈ regs := by
        rw [List.mem_cons]
        refine and_congr_right fun hpos => or_iff_right ?_
        rintro rfl
        exact ha hpos
      simp only [howed', hmem]

/-- `releaseIfDone` over a list that has the registers of the load. -/
theorem releaseIfDone_returned {n : Nat} {regs : List Nat}
    (hregs : ∀ r, 0 < r → (r ∈ regs ↔ r ∈ inst.out))
    (howed : ∀ r, inst.Writes r → g.owed inst.warp_id r = some n) :
    Returned inst n g (g.releaseIfDone inst regs) := by
  have hwrites : ∀ r ∈ regs, 0 < r → inst.Writes r := fun r hr hpos => ⟨hpos, (hregs r hpos).mp hr⟩
  unfold releaseIfDone
  by_cases hwaits : n ≠ 0 ∧ ∃ r ∈ regs, 0 < r
  · obtain ⟨hn, hsome⟩ := hwaits
    rw [pending_requests_waits hn hsome fun r hr hpos => howed r (hwrites r hr hpos)]
    dsimp only
    refine ⟨fun v r => ?_, fun v r => ?_, fun v r hr _ => hr⟩
    · split
      · rename_i h
        rw [h.1, howed r h.2]
      · rfl
    · simp [hn]
  · have hzero : ∀ r, inst.Writes r → n = 0 := by
      intro r hr
      by_contra hn
      exact hwaits ⟨hn, r, (hregs r hr.1).mpr hr.2, hr.1⟩
    obtain ⟨g', hrun, hscore, howed'⟩ := pending_requests_done regs g fun r hr hpos m hm => by
      rw [howed r (hwrites r hr hpos)] at hm
      exact (Option.some.inj hm).symm.trans (hzero r (hwrites r hr hpos))
    rw [hrun]
    have hspec := Scoreboard.releaseRegisters_spec g'.m_scoreboard inst
    refine ⟨fun v r => ?_, fun v r => ?_, fun v r hr hnot => ?_⟩
    · refine (howed' v r).trans ?_
      have hmem : (v = inst.warp_id ∧ 0 < r ∧ r ∈ regs) ↔ v = inst.warp_id ∧ inst.Writes r :=
        and_congr_right fun _ => and_congr_right fun hpos => hregs r hpos
      simp only [hmem]
      split
      · rename_i h
        rw [if_pos (hzero r h.2)]
      · rfl
    · refine ((hspec v r).1).trans ?_
      rw [hscore]
      refine and_congr_right fun _ => not_congr ?_
      exact ⟨fun h => ⟨hzero r h.2, h⟩, fun h => h.2⟩
    · refine ((hspec v r).2).mpr ⟨hscore ▸ hr, fun h => hnot ⟨hzero r h.2, h⟩⟩

theorem managedHit_returned (hl : inst.outputs.Nodup) (hload : inst.is_load = true)
    (hfour : ∀ r ∈ inst.out.drop 4, r = 0) {n : Nat}
    (howed : ∀ r, inst.Writes r → g.owed inst.warp_id r = some (n + 1)) :
    Returned inst n g (g.managedHit inst) := by
  have hregs : ∀ r, 0 < r → (r ∈ inst.out.take 4 ↔ r ∈ inst.out) := by
    intro r hpos
    refine ⟨List.mem_of_mem_take, fun hr => ?_⟩
    rw [← List.take_append_drop 4 inst.out, List.mem_append] at hr
    refine hr.resolve_right fun hdrop => ?_
    rw [hfour r hdrop] at hpos
    exact Nat.lt_irrefl 0 hpos
  have hsame : (inst.out.take 4).filter (fun r => decide (0 < r)) = inst.outputs := by
    have hnil : (inst.out.drop 4).filter (fun r => decide (0 < r)) = [] :=
      List.filter_eq_nil_iff.mpr fun r hr => by simp [hfour r hr]
    have hsplit : inst.outputs =
        (inst.out.take 4 ++ inst.out.drop 4).filter fun r => decide (0 < r) := by
      rw [List.take_append_drop]
      rfl
    rw [hsplit, List.filter_append, hnil, List.append_nil]
  unfold managedHit
  rw [if_pos hload]
  dsimp only
  rw [foldl_registers, hsame]
  have hcounted : Counted inst n g _ := counted_of_alter_all hl (f := decrement) fun r hr => by
    rw [howed r hr]
    rfl
  have hreturned := releaseIfDone_returned hregs fun r hr => by
    rw [hcounted.owed, if_pos ⟨rfl, hr⟩]
  refine ⟨fun v r => ?_, fun v r => ?_, fun v r hr => ?_⟩
  · rw [hreturned.owed, hcounted.owed]
    split <;> rfl
  · rw [hreturned.reserved, hcounted.kept]
  · exact hreturned.long v r (hcounted.kept ▸ hr)

theorem writeRegister_some {n a : Nat} (howed : g.owed w a = some (n + 1)) :
    ∃ g', g.writeRegister w a = some g' ∧
      (∀ v r, g'.owed v r =
        if v = w ∧ r = a then if n = 0 then none else some n else g.owed v r) ∧
      (∀ v r, r ∈ g'.m_scoreboard.reg_table v ↔
        r ∈ g.m_scoreboard.reg_table v ∧ ¬ (n = 0 ∧ v = w ∧ r = a)) ∧
      g'.m_scoreboard.longopregs = g.m_scoreboard.longopregs := by
  have hfind := howed
  unfold owed at hfind
  unfold writeRegister
  rw [hfind]
  dsimp only
  rw [if_pos (Nat.succ_pos n), show decrement (n + 1) = n from rfl]
  by_cases hn : n = 0
  · rw [if_pos hn]
    refine ⟨_, rfl, fun v r => ?_, fun v r => ?_, rfl⟩
    · refine (owed_erasePending g w a v r).trans ?_
      simp [hn]
    · refine Scoreboard.mem_releaseRegister.trans ?_
      simp [hn, erasePending]
  · rw [if_neg hn]
    refine ⟨_, rfl, fun v r => ?_, fun v r => ?_, rfl⟩
    · rw [owed_alterPending, howed]
      simp [hn, decrement]
    · simp [hn, alterPending]

theorem writeRegisters_returned (hl : inst.outputs.Nodup) {n : Nat}
    (howed : ∀ r, inst.Writes r → g.owed inst.warp_id r = some (n + 1)) :
    ∃ g', g.writeRegisters inst = some g' ∧ Returned inst n g g' := by
  have hall : ∀ (l : List Nat) (g : Registers), l.Nodup →
      (∀ r ∈ l, g.owed inst.warp_id r = some (n + 1)) →
      ∃ g', l.foldlM (fun g r => writeRegister g inst.warp_id r) g = some g' ∧
        (∀ v r, g'.owed v r =
          if v = inst.warp_id ∧ r ∈ l then if n = 0 then none else some n else g.owed v r) ∧
        (∀ v r, r ∈ g'.m_scoreboard.reg_table v ↔
          r ∈ g.m_scoreboard.reg_table v ∧ ¬ (n = 0 ∧ v = inst.warp_id ∧ r ∈ l)) ∧
        g'.m_scoreboard.longopregs = g.m_scoreboard.longopregs := by
    intro l
    induction l with
    | nil => exact fun g _ _ => ⟨g, rfl, by simp, by simp, rfl⟩
    | cons a l ih =>
      intro g hnodup howed
      obtain ⟨hnot, hnodup⟩ := List.nodup_cons.mp hnodup
      obtain ⟨g₁, hwrite, howed₁, hmem₁, hlong₁⟩ := writeRegister_some (howed a List.mem_cons_self)
      obtain ⟨g₂, hrun, howed₂, hmem₂, hlong₂⟩ := ih g₁ hnodup fun r hr => by
        have hne : r ≠ a := fun heq => hnot (heq ▸ hr)
        rw [howed₁]
        simp only [hne, and_false, if_false]
        exact howed r (List.mem_cons_of_mem _ hr)
      refine ⟨g₂, ?_, fun v r => ?_, fun v r => ?_, hlong₂.trans hlong₁⟩
      · rw [List.foldlM_cons, hwrite]
        exact hrun
      · rw [howed₂, howed₁]
        rcases eq_or_ne r a with rfl | hr
        · simp [hnot]
        · simp [hr]
      · rw [hmem₂, hmem₁, List.mem_cons]
        tauto
  obtain ⟨g', hrun, howed', hmem, hlong⟩ := hall inst.outputs g hl fun r hr =>
    howed r (WarpInst.mem_outputs.mp hr)
  simp only [WarpInst.mem_outputs] at howed' hmem
  refine ⟨g', ?_, howed', hmem, fun v r hr _ => hlong ▸ hr⟩
  unfold writeRegisters
  rw [foldlM_registers]
  exact hrun

end Registers

end gpgpu_sim_uvm.scoreboard
