-- Runs of the instructions of a core: in every order of issues, hits and write-backs a
-- register is reserved as long as an instruction is to write it, and no longer.
import GpgpuSimUvm.Machines
import GpgpuSimUvm.ScoreboardLaws

namespace gpgpu_sim_uvm.scoreboard

/-! ## The instructions on their way -/

/-- Where an instruction is. In the dispatch register of the load-store unit it has
the accesses that have not left yet. -/
inductive Stage
  | issued | dispatch (left : Nat) | shared_memory | gone
  deriving DecidableEq, Repr

/-- How many accesses can leave the dispatch register. -/
def Stage.inDispatch : Stage → List Nat
  | .dispatch left => List.range (left + 1)
  | .issued | .shared_memory | .gone => []

/-- An instruction, with its accesses that the memory or the GMMU has. -/
structure Flight where
  inst : WarpInst
  stage : Stage := .issued
  sent : Nat := 0

/-- An event at the flight with a number. Which access hits is up to the caches, the
TLB and the GMMU. -/
inductive RegCall
  /-- The scheduler tries an instruction. -/
  | issue (inst : WarpInst)
  /-- The write-back of a unit other than the load-store unit. -/
  | writeback (k : Nat)
  | ldst_issue (k n_accesses : Nat)
  /-- A cycle at the dispatch register: some accesses leave, each a hit or not. -/
  | dispatch (k : Nat) (hits : List Bool) (room : Bool)
  | managed_hit (k : Nat)
  | latency_hit (k : Nat)
  | next_wb (k : Nat)

structure RegRun where
  registers : Registers := {}
  flights : List Flight := []

namespace RegRun

/-- The accesses that leave the dispatch register in a cycle. -/
def leave (g : Registers) (f : Flight) (left : Nat) : List Bool → Registers × Flight × Nat
  | [] => (g, f, left)
  | true :: hits => leave (g.cacheHit f.inst) f (left - 1) hits
  | false :: hits =>
    leave g { f with sent := if f.inst.is_load then f.sent + 1 else f.sent } (left - 1) hits

/-- The flight with one access fewer to come. -/
def arrive (t : RegRun) (g : Registers) (k : Nat) (f : Flight) : RegRun where
  registers := g
  flights :=
    if f.stage = .gone ∧ f.sent = 1 then t.flights.eraseIdx k
    else t.flights.set k { f with sent := f.sent - 1 }

/-- The end of `ldst_unit::cycle`, with no access left in the dispatch register. -/
def dispatched (t : RegRun) (g : Registers) (k : Nat) (f : Flight) (room : Bool) : RegRun :=
  if f.inst.is_load then
    if f.inst.space = .shared_space then
      { registers := g
        flights :=
          t.flights.set k { f with stage := if room then .shared_memory else .dispatch 0 } }
    else
      { registers := g.loadDispatched f.inst
        flights :=
          if f.sent = 0 then t.flights.eraseIdx k else t.flights.set k { f with stage := .gone } }
  else { registers := g, flights := t.flights.eraseIdx k }

/-- None is a failed assertion, an `abort`, or an event that cannot happen. -/
def step (t : RegRun) : RegCall → Option RegRun
  | .issue inst =>
    if t.registers.m_scoreboard.checkCollision inst.warp_id inst then some t
    else
      (t.registers.m_scoreboard.reserveRegisters inst).map fun s =>
        { registers := { t.registers with m_scoreboard := s }
          flights := t.flights ++ [{ inst := inst }] }
  | .writeback k =>
    t.flights[k]?.map fun f =>
      { registers := { t.registers with
          m_scoreboard := t.registers.m_scoreboard.releaseRegisters f.inst }
        flights := t.flights.eraseIdx k }
  | .ldst_issue k n_accesses =>
    t.flights[k]?.map fun f =>
      { registers := t.registers.issue f.inst n_accesses
        flights := t.flights.set k { f with stage := .dispatch n_accesses } }
  | .dispatch k hits room =>
    t.flights[k]?.bind fun f =>
      match f.stage with
      | .dispatch left =>
        let (g, f, left) := leave t.registers f left hits
        if left = 0 then some (t.dispatched g k f room)
        else
          some { registers := g, flights := t.flights.set k { f with stage := .dispatch left } }
      | .issued | .shared_memory | .gone => none
  | .managed_hit k =>
    t.flights[k]?.map fun f => t.arrive (t.registers.managedHit f.inst) k f
  | .latency_hit k =>
    t.flights[k]?.bind fun f =>
      (t.registers.latencyHit f.inst).map fun g => t.arrive g k f
  | .next_wb k =>
    t.flights[k]?.bind fun f =>
      (t.registers.writeback f.inst).map fun g =>
        if f.stage = .shared_memory then { registers := g, flights := t.flights.eraseIdx k }
        else t.arrive g k f

/-- What the pipeline keeps to: the registers of an instruction come before the zeros,
none of them twice; a store writes none; and only what is on its way arrives. -/
def Proper (t : RegRun) : RegCall → Prop
  | .issue inst => Packed inst.out ∧ inst.outputs.Nodup
  | .writeback k => ∃ f ∈ t.flights[k]?, f.stage = .issued
  | .ldst_issue k n_accesses =>
    ∃ f ∈ t.flights[k]?, f.stage = .issued ∧ (f.inst.is_load = false → f.inst.outputs = []) ∧
      (f.inst.space = .shared_space → n_accesses = 0)
  | .dispatch k hits _ => ∃ f ∈ t.flights[k]?, hits.length ∈ f.stage.inDispatch
  | .managed_hit k =>
    ∃ f ∈ t.flights[k]?, 0 < f.sent ∧ ∀ r ∈ f.inst.out.drop 4, r = 0
  | .latency_hit k => ∃ f ∈ t.flights[k]?, 0 < f.sent
  | .next_wb k => ∃ f ∈ t.flights[k]?, f.stage = .shared_memory ∨ 0 < f.sent

instance (t : RegRun) : ∀ c, Decidable (t.Proper c)
  | .issue _ => inferInstanceAs (Decidable (_ ∧ _))
  | .writeback k => inferInstanceAs (Decidable (∃ f ∈ t.flights[k]?, f.stage = .issued))
  | .ldst_issue k n_accesses => inferInstanceAs (Decidable (∃ f ∈ t.flights[k]?,
      f.stage = .issued ∧ (f.inst.is_load = false → f.inst.outputs = []) ∧
        (f.inst.space = .shared_space → n_accesses = 0)))
  | .dispatch k hits _ =>
    inferInstanceAs (Decidable (∃ f ∈ t.flights[k]?, hits.length ∈ f.stage.inDispatch))
  | .managed_hit k =>
    inferInstanceAs (Decidable (∃ f ∈ t.flights[k]?, 0 < f.sent ∧ ∀ r ∈ f.inst.out.drop 4, r = 0))
  | .latency_hit k => inferInstanceAs (Decidable (∃ f ∈ t.flights[k]?, 0 < f.sent))
  | .next_wb k =>
    inferInstanceAs (Decidable (∃ f ∈ t.flights[k]?, f.stage = .shared_memory ∨ 0 < f.sent))

end RegRun

/-! ## The invariant -/

namespace Flight

variable (f : Flight)

/-- The load counts its accesses in `m_pending_writes`. -/
def Counts : Prop := f.inst.is_load = true ∧ f.inst.space ≠ .shared_space

instance : Decidable f.Counts := inferInstanceAs (Decidable (_ ∧ _))

/-- The accesses that its registers wait for. -/
def pending : Option Nat :=
  match f.stage with
  | .dispatch left => if f.Counts then some (left + f.sent) else none
  | .gone => some f.sent
  | .issued | .shared_memory => none

/-- Only a load that counts has accesses at the memory, and one that left the unit has some. -/
structure Good : Prop where
  once : f.inst.outputs.Nodup
  counts : 0 < f.sent → f.Counts
  ahead : 0 < f.sent → f.stage ≠ .issued ∧ f.stage ≠ .shared_memory
  gone : f.stage = .gone → 0 < f.sent
  shared : ∀ left, f.stage = .dispatch left → f.inst.space = .shared_space → left = 0
  onShared : f.stage = .shared_memory → f.inst.space = .shared_space
  store : ∀ left, f.stage = .dispatch left → f.inst.is_load = false → f.inst.outputs = []

end Flight

/-- The two instructions are of two warps, or write no register together. -/
def Apart (a b : WarpInst) : Prop := a.warp_id = b.warp_id → ∀ r, a.Writes r → ¬ b.Writes r

structure Booked (g : Registers) (fs : List Flight) : Prop where
  reserved : ∀ w r, r ∈ g.m_scoreboard.reg_table w ↔
    ∃ f ∈ fs, f.inst.warp_id = w ∧ f.inst.Writes r
  owed : ∀ w r n, g.owed w r = some n ↔
    ∃ f ∈ fs, f.inst.warp_id = w ∧ f.inst.Writes r ∧ f.pending = some n
  long : ∀ f ∈ fs, f.inst.isLongOp = true → ∀ r, f.inst.Writes r →
    r ∈ g.m_scoreboard.longopregs f.inst.warp_id
  apart : (fs.map Flight.inst).Pairwise Apart
  good : ∀ f ∈ fs, f.Good

theorem Apart.symm {a b : WarpInst} (h : Apart a b) : Apart b a :=
  fun heq r hb ha => h heq.symm r ha hb

theorem mem_middle {x z : Flight} {f₁ f₂ : List Flight} :
    x ∈ f₁ ++ z :: f₂ ↔ x = z ∨ x ∈ f₁ ++ f₂ := by
  simp [or_left_comm]

namespace Booked

variable {g g' : Registers} {fs f₁ f₂ : List Flight} {x y : Flight} {n : Nat}

theorem start : Booked {} [] := by
  refine ⟨by simp, fun w r n => ?_, by simp, List.Pairwise.nil, by simp⟩
  simp [Registers.owed]

/-- No other flight writes a register of this one. -/
theorem alone (h : Booked g (f₁ ++ x :: f₂)) {f : Flight} (hf : f ∈ f₁ ++ f₂) :
    Apart x.inst f.inst := by
  have hapart := h.apart
  rw [List.map_append, List.map_cons, List.pairwise_middle Apart.symm, List.pairwise_cons,
    ← List.map_append] at hapart
  exact hapart.1 _ (List.mem_map_of_mem hf)

/-- What its registers wait for. -/
theorem owed_own (h : Booked g (f₁ ++ x :: f₂)) {r : Nat} (hr : x.inst.Writes r) :
    g.owed x.inst.warp_id r = x.pending := by
  cases hp : x.pending with
  | some n => exact (h.owed _ r n).mpr ⟨x, by simp, rfl, hr, hp⟩
  | none =>
    cases howed : g.owed x.inst.warp_id r with
    | none => rfl
    | some n =>
      obtain ⟨f, hf, hw, hfr, hfp⟩ := (h.owed _ r n).mp howed
      rw [List.mem_append, List.mem_cons, or_left_comm, ← List.mem_append] at hf
      rcases hf with rfl | hf
      · rw [hp] at hfp
        cases hfp
      · exact absurd hfr (h.alone hf hw.symm r hr)

/-- A flight whose registers stay reserved. -/
theorem replace (h : Booked g (f₁ ++ x :: f₂)) (hinst : y.inst = x.inst) (hgood : y.Good)
    (howed : ∀ v r, g'.owed v r =
      if v = x.inst.warp_id ∧ x.inst.Writes r then y.pending else g.owed v r)
    (hreserved : ∀ v r, r ∈ g'.m_scoreboard.reg_table v ↔ r ∈ g.m_scoreboard.reg_table v)
    (hlong : ∀ v r, r ∈ g.m_scoreboard.longopregs v → r ∈ g'.m_scoreboard.longopregs v) :
    Booked g' (f₁ ++ y :: f₂) := by
  refine ⟨fun w r => ?_, fun w r n => ?_, fun f hf hop r hr => ?_, ?_, fun f hf => ?_⟩
  · rw [hreserved, h.reserved]
    simp only [mem_middle, or_and_right, exists_or, exists_eq_left, hinst]
  · rw [howed]
    have hold := h.owed w r n
    simp only [mem_middle, or_and_right, exists_or, exists_eq_left] at hold ⊢
    rw [hinst]
    split
    · rename_i hw
      obtain ⟨rfl, hr⟩ := hw
      constructor
      · exact fun hp => .inl ⟨rfl, hr, hp⟩
      · rintro (⟨-, -, hp⟩ | ⟨f, hf, hfw, hfr, -⟩)
        · exact hp
        · exact absurd hfr (h.alone hf hfw.symm r hr)
    · rename_i hw
      rw [hold]
      have hnot : ∀ p, ¬ (x.inst.warp_id = w ∧ x.inst.Writes r ∧ p) :=
        fun p hcon => hw ⟨hcon.1.symm, hcon.2.1⟩
      exact or_congr (iff_of_false (hnot _) (hnot _)) Iff.rfl
  · apply hlong
    rcases mem_middle.mp hf with rfl | hf
    · rw [hinst] at hop hr ⊢
      exact h.long x (by simp) hop r hr
    · exact h.long f (mem_middle.mpr (.inr hf)) hop r hr
  · have hapart := h.apart
    simpa [hinst] using hapart
  · rcases mem_middle.mp hf with rfl | hf
    · exact hgood
    · exact h.good f (mem_middle.mpr (.inr hf))

/-- A flight whose registers are released. -/
theorem remove (h : Booked g (f₁ ++ x :: f₂))
    (howed : ∀ v r, g'.owed v r =
      if v = x.inst.warp_id ∧ x.inst.Writes r then none else g.owed v r)
    (hreserved : ∀ v r, r ∈ g'.m_scoreboard.reg_table v ↔
      r ∈ g.m_scoreboard.reg_table v ∧ ¬ (v = x.inst.warp_id ∧ x.inst.Writes r))
    (hlong : ∀ v r, r ∈ g.m_scoreboard.longopregs v →
      ¬ (v = x.inst.warp_id ∧ x.inst.Writes r) → r ∈ g'.m_scoreboard.longopregs v) :
    Booked g' (f₁ ++ f₂) := by
  have hother : ∀ f ∈ f₁ ++ f₂, ∀ w r, f.inst.warp_id = w → f.inst.Writes r →
      ¬ (w = x.inst.warp_id ∧ x.inst.Writes r) :=
    fun f hf w r hw hfr hx => h.alone hf (hx.1.symm.trans hw.symm) r hx.2 hfr
  refine ⟨fun w r => ?_, fun w r n => ?_, fun f hf hop r hr => ?_, ?_, fun f hf => ?_⟩
  · rw [hreserved, h.reserved]
    constructor
    · rintro ⟨⟨f, hf, hw, hr⟩, hnot⟩
      rcases mem_middle.mp hf with rfl | hf
      · exact absurd ⟨hw.symm, hr⟩ hnot
      · exact ⟨f, hf, hw, hr⟩
    · rintro ⟨f, hf, hw, hr⟩
      exact ⟨⟨f, mem_middle.mpr (.inr hf), hw, hr⟩, hother f hf w r hw hr⟩
  · rw [howed]
    split
    · rename_i hx
      refine ⟨fun hcon => absurd hcon nofun, ?_⟩
      rintro ⟨f, hf, hw, hr, -⟩
      exact absurd hx (hother f hf w r hw hr)
    · rename_i hx
      rw [h.owed]
      constructor
      · rintro ⟨f, hf, hw, hr, hp⟩
        rcases mem_middle.mp hf with rfl | hf
        · exact absurd ⟨hw.symm, hr⟩ hx
        · exact ⟨f, hf, hw, hr, hp⟩
      · rintro ⟨f, hf, hw, hr, hp⟩
        exact ⟨f, mem_middle.mpr (.inr hf), hw, hr, hp⟩
  · exact hlong _ r (h.long f (mem_middle.mpr (.inr hf)) hop r hr) (hother f hf _ r rfl hr)
  · have hapart := h.apart
    rw [List.map_append, List.map_cons, List.pairwise_middle Apart.symm, List.pairwise_cons,
      ← List.map_append] at hapart
    exact hapart.2
  · exact h.good f (mem_middle.mpr (.inr hf))

/-- A flight whose instruction writes nothing leaves no trace. -/
theorem drop (h : Booked g (f₁ ++ x :: f₂)) (hnone : x.inst.outputs = []) :
    Booked g (f₁ ++ f₂) := by
  have hno : ∀ r, ¬ x.inst.Writes r := fun r hr => by
    have hmem := WarpInst.mem_outputs.mpr hr
    rw [hnone] at hmem
    cases hmem
  exact h.remove (by simp [hno]) (by simp [hno]) fun v r hr _ => hr

theorem counted (h : Booked g (f₁ ++ x :: f₂)) (hc : Registers.Counted x.inst n g g')
    (hinst : y.inst = x.inst) (hgood : y.Good) (hp : y.pending = some n) :
    Booked g' (f₁ ++ y :: f₂) :=
  h.replace hinst hgood (fun v r => by rw [hc.owed, hp]) (fun v r => by rw [hc.kept])
    fun v r hr => hc.kept ▸ hr

theorem returned (h : Booked g (f₁ ++ x :: f₂)) (hr : Registers.Returned x.inst n g g')
    (hn : n ≠ 0) (hinst : y.inst = x.inst) (hgood : y.Good) (hp : y.pending = some n) :
    Booked g' (f₁ ++ y :: f₂) :=
  h.replace hinst hgood (fun v r => by simp [hr.owed, hp, hn])
    (fun v r => by simp [hr.reserved, hn]) fun v r hin => hr.long v r hin fun hcon => hn hcon.1

theorem done (h : Booked g (f₁ ++ x :: f₂)) (hr : Registers.Returned x.inst 0 g g') :
    Booked g' (f₁ ++ f₂) :=
  h.remove (fun v r => by simp [hr.owed]) (fun v r => by simp [hr.reserved])
    fun v r hin hnot => hr.long v r hin fun hcon => hnot hcon.2

/-- A new flight, with its registers reserved. -/
theorem add (h : Booked g fs) {inst : WarpInst} (hl : inst.outputs.Nodup)
    (hfree : ∀ r, inst.Writes r → r ∉ g.m_scoreboard.reg_table inst.warp_id) {s : Scoreboard}
    (hreserved : ∀ v r, r ∈ s.reg_table v ↔
      r ∈ g.m_scoreboard.reg_table v ∨ v = inst.warp_id ∧ inst.Writes r)
    (hlong : ∀ v r, r ∈ g.m_scoreboard.longopregs v → r ∈ s.longopregs v)
    (hop : inst.isLongOp = true → ∀ r, inst.Writes r → r ∈ s.longopregs inst.warp_id) :
    Booked { g with m_scoreboard := s } (fs ++ [{ inst := inst }]) := by
  refine ⟨fun w r => ?_, fun w r n => ?_, fun f hf hfop r hr => ?_, ?_, fun f hf => ?_⟩
  · rw [hreserved, h.reserved]
    simp only [List.mem_append, List.mem_singleton, or_and_right, exists_or, exists_eq_left,
      eq_comm]
  · refine (h.owed w r n).trans ?_
    simp [or_and_right, exists_or, Flight.pending]
  · rcases List.mem_append.mp hf with hf | hf
    · exact hlong _ r (h.long f hf hfop r hr)
    · obtain rfl := List.mem_singleton.mp hf
      exact hop hfop r hr
  · rw [List.map_append, List.pairwise_append]
    refine ⟨h.apart, List.pairwise_singleton _ _, fun a ha b hb hw r hr hbr => ?_⟩
    obtain ⟨f, hf, rfl⟩ := List.mem_map.mp ha
    obtain rfl := List.mem_singleton.mp hb
    exact hfree r hbr ((h.reserved _ r).mpr ⟨f, hf, hw, hr⟩)
  · rcases List.mem_append.mp hf with hf | hf
    · exact h.good f hf
    · obtain rfl := List.mem_singleton.mp hf
      exact ⟨hl, by simp, by simp, by simp, by simp, by simp, by simp⟩

/-- A flight that moved on, with as many accesses to come. -/
theorem move (h : Booked g (f₁ ++ x :: f₂)) (hinst : y.inst = x.inst) (hgood : y.Good)
    (hp : y.pending = x.pending) : Booked g (f₁ ++ y :: f₂) := by
  refine h.replace hinst hgood (fun v r => ?_) (fun v r => Iff.rfl) fun v r hr => hr
  split
  · rename_i hw
    rw [hw.1, h.owed_own hw.2, hp]
  · rfl

end Booked

/-! ## The dispatch register -/

namespace RegRun

variable {t : RegRun} {g : Registers} {f x : Flight} {f₁ f₂ : List Flight} {k left n : Nat}

theorem leave_inst (g : Registers) (f : Flight) (left : Nat) (hits : List Bool) :
    (leave g f left hits).2.1.inst = f.inst := by
  induction hits generalizing g f left with
  | nil => rfl
  | cons hit hits ih => cases hit <;> exact ih _ _ _

/-- What left is a hit, counted at once, or on its way. -/
theorem leave_booked {hits : List Bool} (hle : hits.length ≤ left)
    (h : Booked g (f₁ ++ { f with stage := .dispatch left } :: f₂)) :
    Booked (leave g f left hits).1
      (f₁ ++ { (leave g f left hits).2.1 with
        stage := .dispatch (leave g f left hits).2.2 } :: f₂) := by
  induction hits generalizing g f left with
  | nil => exact h
  | cons hit hits ih =>
    rw [List.length_cons] at hle
    obtain ⟨m, rfl⟩ : ∃ m, left = m + 1 := ⟨left - 1, by omega⟩
    have hgood := h.good _ (List.mem_append_right _ List.mem_cons_self)
    have hspace : f.inst.space ≠ .shared_space := fun hs => by
      have hzero := hgood.shared _ rfl hs
      omega
    have hgood' : ∀ sent, (0 < sent → f.Counts) →
        Flight.Good { inst := f.inst, stage := .dispatch m, sent := sent } := fun sent hsent =>
      ⟨hgood.once, hsent, fun _ => by simp, by simp, fun _ _ hs => absurd hs hspace, by simp,
        fun _ _ hstore => hgood.store _ rfl hstore⟩
    cases hit with
    | true =>
      refine @ih _ _ m (by omega) ?_
      by_cases hload : f.inst.is_load = true
      · have hc : f.Counts := ⟨hload, hspace⟩
        refine h.counted (Registers.cacheHit_counted hgood.once hload (n := m + f.sent) ?_) rfl
          (hgood' f.sent fun _ => hc) (if_pos hc)
        intro r hr
        rw [h.owed_own hr]
        refine (if_pos hc).trans (congrArg some ?_)
        dsimp only
        omega
      · have hc : ¬ f.Counts := fun hc => hload hc.1
        have hsame : g.cacheHit f.inst = g := if_neg hload
        rw [hsame]
        refine h.move rfl (hgood' f.sent hgood.counts) ?_
        exact (if_neg hc).trans (if_neg hc).symm
    | false =>
      refine @ih _ _ m (by omega) ?_
      by_cases hload : f.inst.is_load = true
      · have hc : f.Counts := ⟨hload, hspace⟩
        simp only [hload, if_true]
        refine h.move rfl (hgood' (f.sent + 1) fun _ => hc) ?_
        refine (if_pos hc).trans (Eq.trans (congrArg some ?_) (if_pos hc).symm)
        dsimp only
        omega
      · have hc : ¬ f.Counts := fun hc => hload hc.1
        simp only [hload, Bool.false_eq_true, if_false]
        refine h.move rfl (hgood' f.sent hgood.counts) ?_
        exact (if_neg hc).trans (if_neg hc).symm

/-! ## One event -/

/-- The flights account for the registers, and no instruction waits in the dispatch
register for accesses that left. -/
structure Sound (t : RegRun) : Prop where
  booked : Booked t.registers t.flights
  left : ∀ f ∈ t.flights, f.stage = .dispatch 0 → f.sent = 0

theorem start_sound : Sound {} := ⟨Booked.start, by simp⟩

/-- The flight with a number, and what setting and erasing it changes. -/
theorem flight_at (hk : t.flights[k]? = some f) :
    ∃ f₁ f₂, t.flights = f₁ ++ f :: f₂ ∧ t.flights.eraseIdx k = f₁ ++ f₂ ∧
      ∀ y, t.flights.set k y = f₁ ++ y :: f₂ := by
  obtain ⟨hlt, rfl⟩ := List.getElem?_eq_some_iff.mp hk
  refine ⟨t.flights.take k, t.flights.drop (k + 1), ?_, List.eraseIdx_eq_take_drop_succ .., ?_⟩
  · rw [List.getElem_cons_drop, List.take_append_drop]
  · exact fun y => List.set_eq_take_append_cons_drop.trans (if_pos hlt)

/-- A flight in the middle is another one now. -/
theorem Sound.set (ht : t.Sound) (hfs : t.flights = f₁ ++ f :: f₂)
    (hb : Booked g (f₁ ++ x :: f₂)) (hx : x.stage = .dispatch 0 → x.sent = 0) :
    Sound { registers := g, flights := f₁ ++ x :: f₂ } := by
  refine ⟨hb, fun y hy => ?_⟩
  rcases mem_middle.mp hy with rfl | hy
  · exact hx
  · exact ht.left y (hfs ▸ mem_middle.mpr (.inr hy))

theorem Sound.erase (ht : t.Sound) (hfs : t.flights = f₁ ++ f :: f₂)
    (hb : Booked g (f₁ ++ f₂)) : Sound { registers := g, flights := f₁ ++ f₂ } :=
  ⟨hb, fun y hy => ht.left y (hfs ▸ mem_middle.mpr (.inr hy))⟩

theorem issue_sound {inst : WarpInst} (ht : t.Sound) (hok : t.Proper (.issue inst)) :
    ∃ t', t.step (.issue inst) = some t' ∧ t'.Sound := by
  obtain ⟨hpacked, hnodup⟩ := hok
  unfold step
  dsimp only
  split
  · exact ⟨t, rfl, ht⟩
  · rename_i hclear
    have hfree : ∀ r, inst.Writes r → r ∉ t.registers.m_scoreboard.reg_table inst.warp_id := by
      intro r hr
      refine Scoreboard.free_of_checkCollision (Bool.eq_false_iff.mpr hclear) ?_
      unfold WarpInst.inst_regs WarpInst.outcount
      exact List.mem_append_left _ (List.mem_append_left _ (hpacked.mem_take hr.2 hr.1))
    obtain ⟨s, hs, hreserved, hlong, hop⟩ := Scoreboard.reserveRegisters_some hnodup hfree
    rw [hs, Option.map_some]
    refine ⟨_, rfl, ht.booked.add hnodup hfree hreserved hlong hop, fun f hf => ?_⟩
    rcases List.mem_append.mp hf with hf | hf
    · exact ht.left f hf
    · obtain rfl := List.mem_singleton.mp hf
      simp

theorem writeback_sound (ht : t.Sound) (hok : t.Proper (.writeback k)) :
    ∃ t', t.step (.writeback k) = some t' ∧ t'.Sound := by
  obtain ⟨f, hk, hissued⟩ := hok
  obtain ⟨f₁, f₂, hfs, herase, -⟩ := flight_at hk
  have hb := hfs ▸ ht.booked
  unfold step
  dsimp only
  rw [hk, Option.map_some, herase]
  refine ⟨_, rfl, ht.erase hfs (hb.remove (fun v r => ?_) (fun v r => ?_) fun v r hr hnot => ?_)⟩
  · split
    · rename_i hw
      have hpending : f.pending = none := by simp [Flight.pending, hissued]
      exact hw.1 ▸ (hb.owed_own hw.2).trans hpending
    · rfl
  · exact (Scoreboard.releaseRegisters_spec _ f.inst v r).1
  · exact (Scoreboard.releaseRegisters_spec _ f.inst v r).2.mpr ⟨hr, hnot⟩

theorem ldst_issue_sound (ht : t.Sound) (hok : t.Proper (.ldst_issue k n)) :
    ∃ t', t.step (.ldst_issue k n) = some t' ∧ t'.Sound := by
  obtain ⟨f, hk, hissued, hstore, hshared⟩ := hok
  obtain ⟨f₁, f₂, hfs, -, hset⟩ := flight_at hk
  have hb := hfs ▸ ht.booked
  have hgood := hb.good f (mem_middle.mpr (.inl rfl))
  have hsent : f.sent = 0 := by
    by_contra hne
    exact (hgood.ahead (Nat.pos_of_ne_zero hne)).1 hissued
  have hgood' : Flight.Good { f with stage := .dispatch n } := by
    refine ⟨hgood.once, fun hpos => ?_, by simp, by simp, fun m hm hs => ?_, by simp, ?_⟩
    · dsimp only at hpos
      omega
    · exact Stage.dispatch.inj hm ▸ hshared hs
    · exact fun _ _ => hstore
  unfold step
  dsimp only
  rw [hk, Option.map_some, hset]
  refine ⟨_, rfl, ht.set hfs ?_ fun _ => hsent⟩
  have hnone : f.pending = none := by simp [Flight.pending, hissued]
  by_cases hc : f.Counts
  · refine hb.counted (Registers.issue_counted hgood.once hc.1 hc.2 n fun r hr => ?_) rfl hgood' ?_
    · exact (hb.owed_own hr).trans hnone
    · refine (if_pos hc).trans (congrArg some ?_)
      dsimp only
      omega
  · have hsame : t.registers.issue f.inst n = t.registers := if_neg hc
    rw [hsame]
    exact hb.move rfl hgood' ((if_neg hc).trans hnone.symm)

/-- The end of the cycle for an instruction whose accesses have all left. -/
theorem dispatched_sound {room : Bool} (ht : t.Sound) (hk : t.flights[k]? = some x)
    (hb : ∀ f₁ f₂, t.flights = f₁ ++ x :: f₂ →
      Booked g (f₁ ++ { f with stage := .dispatch 0 } :: f₂)) :
    Sound (t.dispatched g k f room) := by
  obtain ⟨f₁, f₂, hfs, herase, hset⟩ := flight_at hk
  replace hb := hb f₁ f₂ hfs
  have hgood := hb.good _ (mem_middle.mpr (.inl rfl))
  unfold dispatched
  rw [herase]
  simp only [hset]
  by_cases hload : f.inst.is_load = true
  · rw [if_pos hload]
    by_cases hs : f.inst.space = .shared_space
    · have hc : ¬ f.Counts := fun hc => hc.2 hs
      have hsent : f.sent = 0 := by
        by_contra hne
        exact hc (hgood.counts (Nat.pos_of_ne_zero hne))
      rw [if_pos hs]
      cases room with
      | true =>
        refine ht.set hfs (hb.move rfl ?_ (if_neg hc).symm) nofun
        refine ⟨hgood.once, hgood.counts, fun hpos => ?_, nofun, nofun, fun _ => hs, nofun⟩
        dsimp only at hpos
        omega
      | false => exact ht.set hfs hb fun _ => hsent
    · have hc : f.Counts := ⟨hload, hs⟩
      rw [if_neg hs]
      have hreturned : Registers.Returned f.inst f.sent g (g.loadDispatched f.inst) := by
        refine Registers.releaseIfDone_returned (fun r _ => Iff.rfl) fun r hr => ?_
        refine (hb.owed_own hr).trans ((if_pos hc).trans (congrArg some ?_))
        exact Nat.zero_add f.sent
      by_cases hsent : f.sent = 0
      · rw [if_pos hsent]
        rw [hsent] at hreturned
        exact ht.erase hfs (hb.done hreturned)
      · rw [if_neg hsent]
        refine ht.set hfs (hb.returned hreturned hsent rfl ?_ rfl) nofun
        exact ⟨hgood.once, hgood.counts, fun _ => by simp, fun _ => Nat.pos_of_ne_zero hsent,
          nofun, nofun, nofun⟩
  · rw [if_neg hload]
    exact ht.erase hfs (hb.drop (hgood.store 0 rfl (Bool.eq_false_iff.mpr hload)))

theorem dispatch_sound {hits : List Bool} {room : Bool} (ht : t.Sound)
    (hok : t.Proper (.dispatch k hits room)) :
    ∃ t', t.step (.dispatch k hits room) = some t' ∧ t'.Sound := by
  obtain ⟨f, hk, hok⟩ := hok
  unfold step
  dsimp only
  rw [hk, Option.bind_some]
  cases hstage : f.stage with
  | dispatch left =>
    rw [hstage] at hok
    have hle : hits.length ≤ left := Nat.le_of_lt_succ (List.mem_range.mp hok)
    have hsame : { f with stage := .dispatch left } = f := by rw [← hstage]
    have hb : ∀ f₁ f₂, t.flights = f₁ ++ f :: f₂ → Booked (leave t.registers f left hits).1
        (f₁ ++ { (leave t.registers f left hits).2.1 with
          stage := .dispatch (leave t.registers f left hits).2.2 } :: f₂) := by
      intro f₁ f₂ hfs
      refine leave_booked hle ?_
      rw [hsame, ← hfs]
      exact ht.booked
    dsimp only
    split
    · rename_i hleft
      refine ⟨_, rfl, dispatched_sound ht hk fun f₁ f₂ hfs => ?_⟩
      have hleave := hb f₁ f₂ hfs
      rwa [hleft] at hleave
    · rename_i hleft
      obtain ⟨f₁, f₂, hfs, -, hset⟩ := flight_at hk
      rw [hset]
      exact ⟨_, rfl, ht.set hfs (hb f₁ f₂ hfs) fun hcon => absurd (Stage.dispatch.inj hcon) hleft⟩
  | issued | shared_memory | gone =>
    rw [hstage] at hok
    cases hok

/-- An access on its way has come back. -/
theorem arrive_sound (ht : t.Sound) (hk : t.flights[k]? = some f) (hsent : 0 < f.sent)
    (hreturned : ∀ n, (∀ r, f.inst.Writes r → t.registers.owed f.inst.warp_id r = some (n + 1)) →
      Registers.Returned f.inst n t.registers g) : Sound (t.arrive g k f) := by
  obtain ⟨f₁, f₂, hfs, herase, hset⟩ := flight_at hk
  have hb := hfs ▸ ht.booked
  have hmem := mem_middle.mpr (.inl rfl : f = f ∨ f ∈ f₁ ++ f₂)
  have hgood := hb.good f hmem
  have hc := hgood.counts hsent
  have hback : ∀ n, f.pending = some (n + 1) → Registers.Returned f.inst n t.registers g :=
    fun n hp => hreturned n fun r hr => (hb.owed_own hr).trans hp
  unfold arrive
  rw [herase, hset]
  cases hstage : f.stage with
  | issued => exact absurd hstage (hgood.ahead hsent).1
  | shared_memory => exact absurd hstage (hgood.ahead hsent).2
  | dispatch left =>
    have hleft : left ≠ 0 := by
      rintro rfl
      have hzero := ht.left f (hfs ▸ hmem) hstage
      omega
    have hp : f.pending = some (left + f.sent - 1 + 1) := by
      unfold Flight.pending
      rw [hstage]
      refine (if_pos hc).trans (congrArg some ?_)
      omega
    rw [if_neg (by simp)]
    refine ht.set hfs (hb.returned (hback _ hp) (by omega) rfl ?_ ?_) ?_
    · refine ⟨hgood.once, fun _ => hc, fun _ => by simp, nofun, fun m hm hs => absurd hs hc.2,
        nofun, fun m hm hstore => ?_⟩
      exact absurd hc.1 (Bool.eq_false_iff.mp hstore)
    · refine (if_pos hc).trans (congrArg some ?_)
      dsimp only
      omega
    · exact fun hcon => absurd (Stage.dispatch.inj hcon) hleft
  | gone =>
    have hp : f.pending = some (f.sent - 1 + 1) := by
      unfold Flight.pending
      rw [hstage]
      exact congrArg some (by omega)
    by_cases hone : f.sent = 1
    · rw [if_pos ⟨rfl, hone⟩]
      have hlast := hback _ hp
      rw [hone] at hlast
      exact ht.erase hfs (hb.done hlast)
    · rw [if_neg fun hcon => hone hcon.2]
      refine ht.set hfs (hb.returned (hback _ hp) (by omega) rfl ?_ ?_) ?_
      · refine ⟨hgood.once, fun _ => hc, fun _ => by simp, fun _ => ?_, nofun, nofun, nofun⟩
        dsimp only
        omega
      · rfl
      · exact nofun

theorem managed_hit_sound (ht : t.Sound) (hok : t.Proper (.managed_hit k)) :
    ∃ t', t.step (.managed_hit k) = some t' ∧ t'.Sound := by
  obtain ⟨f, hk, hsent, hfour⟩ := hok
  have hgood := ht.booked.good f (List.mem_of_getElem? hk)
  unfold step
  dsimp only
  rw [hk, Option.map_some]
  refine ⟨_, rfl, arrive_sound ht hk hsent fun n howed => ?_⟩
  exact Registers.managedHit_returned hgood.once (hgood.counts hsent).1 hfour howed

/-- The registers of a load are written for one more access. -/
theorem written_sound (ht : t.Sound) (hk : t.flights[k]? = some f) (hsent : 0 < f.sent) :
    ∃ g, t.registers.writeRegisters f.inst = some g ∧ Sound (t.arrive g k f) := by
  have hgood := ht.booked.good f (List.mem_of_getElem? hk)
  obtain ⟨f₁, f₂, hfs, -, -⟩ := flight_at hk
  have hb := hfs ▸ ht.booked
  have hc := hgood.counts hsent
  obtain ⟨m, hm⟩ : ∃ m, f.pending = some (m + 1) := by
    unfold Flight.pending
    cases hstage : f.stage with
    | issued => exact absurd hstage (hgood.ahead hsent).1
    | shared_memory => exact absurd hstage (hgood.ahead hsent).2
    | dispatch left => exact ⟨left + f.sent - 1, (if_pos hc).trans (congrArg some (by omega))⟩
    | gone => exact ⟨f.sent - 1, congrArg some (by omega)⟩
  have howed : ∀ r, f.inst.Writes r → t.registers.owed f.inst.warp_id r = some (m + 1) :=
    fun r hr => (hb.owed_own hr).trans hm
  obtain ⟨g, hg, hreturned⟩ := Registers.writeRegisters_returned hgood.once howed
  refine ⟨g, hg, arrive_sound ht hk hsent fun n hn => ?_⟩
  obtain ⟨g', hg', hreturned'⟩ := Registers.writeRegisters_returned hgood.once hn
  obtain rfl := Option.some.inj (hg.symm.trans hg')
  exact hreturned'

theorem latency_hit_sound (ht : t.Sound) (hok : t.Proper (.latency_hit k)) :
    ∃ t', t.step (.latency_hit k) = some t' ∧ t'.Sound := by
  obtain ⟨f, hk, hsent⟩ := hok
  have hgood := ht.booked.good f (List.mem_of_getElem? hk)
  obtain ⟨g, hg, hsound⟩ := written_sound ht hk hsent
  unfold step Registers.latencyHit
  dsimp only
  rw [hk, Option.bind_some, if_pos (hgood.counts hsent).1, hg, Option.map_some]
  exact ⟨_, rfl, hsound⟩

theorem next_wb_sound (ht : t.Sound) (hok : t.Proper (.next_wb k)) :
    ∃ t', t.step (.next_wb k) = some t' ∧ t'.Sound := by
  obtain ⟨f, hk, hok⟩ := hok
  have hgood := ht.booked.good f (List.mem_of_getElem? hk)
  unfold step Registers.writeback
  dsimp only
  rw [hk, Option.bind_some]
  by_cases hstage : f.stage = .shared_memory
  · obtain ⟨f₁, f₂, hfs, herase, -⟩ := flight_at hk
    have hb := hfs ▸ ht.booked
    rw [if_neg (not_not.mpr (hgood.onShared hstage)), Option.map_some, if_pos hstage, herase]
    refine ⟨_, rfl, ht.erase hfs (hb.remove (fun v r => ?_) (fun v r => ?_) fun v r hr hnot => ?_)⟩
    · split
      · rename_i hw
        have hpending : f.pending = none := by simp [Flight.pending, hstage]
        exact hw.1 ▸ (hb.owed_own hw.2).trans hpending
      · rfl
    · dsimp only
      rw [foldl_registers, ← WarpInst.mem_outputs]
      exact Scoreboard.release_all (T := Scoreboard.reg_table)
        (fun s a v r => Scoreboard.mem_releaseRegister) _ _ v r
    · dsimp only
      rw [foldl_registers, Scoreboard.longopregs_release_all]
      exact hr
  · have hsent := hok.resolve_left hstage
    obtain ⟨g, hg, hsound⟩ := written_sound ht hk hsent
    rw [if_pos (hgood.counts hsent).2, hg, Option.map_some, if_neg hstage]
    exact ⟨_, rfl, hsound⟩

theorem step_sound (t : RegRun) (c : RegCall) (ht : t.Sound) (hok : t.Proper c) :
    ∃ t', t.step c = some t' ∧ t'.Sound := by
  cases c with
  | issue inst => exact issue_sound ht hok
  | writeback k => exact writeback_sound ht hok
  | ldst_issue k n_accesses => exact ldst_issue_sound ht hok
  | dispatch k hits room => exact dispatch_sound ht hok
  | managed_hit k => exact managed_hit_sound ht hok
  | latency_hit k => exact latency_hit_sound ht hok
  | next_wb k => exact next_wb_sound ht hok

/-- What the scheduler lets pass has no operand that an instruction on its way writes. -/
theorem Sound.no_hazard (ht : t.Sound) {inst : WarpInst} (hout : Packed inst.out)
    (hin : Packed inst.in_)
    (hclear : t.registers.m_scoreboard.checkCollision inst.warp_id inst = false) {r : Nat}
    (hf : f ∈ t.flights) (hw : f.inst.warp_id = inst.warp_id) (hr : f.inst.Writes r) :
    r ∉ inst.out ∧ r ∉ inst.in_ ∧ r ≠ inst.pred ∧ r ≠ inst.ar1 ∧ r ≠ inst.ar2 := by
  have hnot : r ∉ inst.inst_regs := fun hmem =>
    Scoreboard.free_of_checkCollision hclear hmem ((ht.booked.reserved _ r).mpr ⟨f, hf, hw, hr⟩)
  unfold WarpInst.inst_regs at hnot
  simp only [List.mem_append, List.mem_filter, List.mem_cons, List.not_mem_nil, or_false,
    not_or, not_and, decide_eq_true_eq] at hnot
  obtain ⟨⟨houts, hins⟩, hothers⟩ := hnot
  refine ⟨fun h => houts (hout.mem_take h hr.1), fun h => hins (hin.mem_take h hr.1), ?_, ?_, ?_⟩
  · exact fun h => hothers (.inl h) hr.1
  · exact fun h => hothers (.inr (.inl h)) hr.1
  · exact fun h => hothers (.inr (.inr h)) hr.1

end RegRun

/-! ## Every run -/

/-- After any events no assertion has failed, a register is reserved if and only if an
instruction on its way writes it, no two write the same register of a warp, and the
scheduler finds no collision only for an instruction without a hazard. -/
theorem registers_are_reserved_until_written {calls : List RegCall}
    (hok : machines.Allowed RegRun.step RegRun.Proper {} calls) :
    ∃ t, machines.run RegRun.step {} calls = some t ∧
      (∀ w r, r ∈ t.registers.m_scoreboard.reg_table w ↔
        ∃ f ∈ t.flights, f.inst.warp_id = w ∧ f.inst.Writes r) ∧
      (∀ w, t.registers.m_scoreboard.pendingWrites w = false ↔
        ∀ f ∈ t.flights, f.inst.warp_id = w → f.inst.outputs = []) ∧
      (∀ w r n, (t.registers.m_pending_writes w).find r = some n ↔
        ∃ f ∈ t.flights, f.inst.warp_id = w ∧ f.inst.Writes r ∧ f.pending = some n) ∧
      (∀ f ∈ t.flights, f.inst.isLongOp = true → ∀ r, f.inst.Writes r →
        t.registers.m_scoreboard.islongop f.inst.warp_id r = true) ∧
      (t.flights.map Flight.inst).Pairwise Apart ∧
      ∀ inst, Packed inst.out → Packed inst.in_ →
        t.registers.m_scoreboard.checkCollision inst.warp_id inst = false →
        ∀ f ∈ t.flights, f.inst.warp_id = inst.warp_id → ∀ r, f.inst.Writes r →
          r ∉ inst.out ∧ r ∉ inst.in_ ∧ r ≠ inst.pred ∧ r ≠ inst.ar1 ∧ r ≠ inst.ar2 := by
  obtain ⟨t, hrun, ht⟩ := machines.runs_on RegRun.step_sound hok RegRun.start_sound
  refine ⟨t, hrun, ht.booked.reserved, fun w => ?_, ht.booked.owed, fun f hf hop r hr => ?_,
    ht.booked.apart, fun inst hout hin hclear f hf hw r hr => ?_⟩
  · unfold Scoreboard.pendingWrites
    rw [decide_eq_false_iff_not, not_not, Finset.eq_empty_iff_forall_notMem]
    simp only [ht.booked.reserved, List.eq_nil_iff_forall_not_mem, WarpInst.mem_outputs]
    exact ⟨fun h f hf hw r hr => h r ⟨f, hf, hw, hr⟩, fun h r ⟨f, hf, hw, hr⟩ => h f hf hw r hr⟩
  · exact decide_eq_true (ht.booked.long f hf hop r hr)
  · exact ht.no_hazard hout hin hclear hf hw hr

/-- A load of two accesses, and an addition that reads what it loads. -/
def load : WarpInst where
  warp_id := 3
  out := [7, 8, 0, 0, 0, 0, 0, 0]
  in_ := [1, 0]
  is_load := true
  space := .global_space

def addition : WarpInst where
  warp_id := 3
  out := [9, 0, 0, 0, 0, 0, 0, 0]
  in_ := [8, 2]
  is_load := false
  space := .undefined_space

def loadThenAdd : List RegCall :=
  [.issue load, .ldst_issue 0 2, .issue addition, .dispatch 0 [false] true, .issue addition,
    .managed_hit 0, .dispatch 0 [false] true, .issue addition, .next_wb 0, .issue addition]

/-- The addition is issued when both accesses are back, and not before. -/
theorem addition_waits_for_the_load : ∃ t, machines.run RegRun.step {} loadThenAdd = some t ∧
    t.flights.map Flight.inst = [addition] ∧
      (t.flights.map Flight.inst).Pairwise Apart := by
  have hproper : machines.Allowed RegRun.step RegRun.Proper {} loadThenAdd := by
    decide +kernel
  obtain ⟨t, hrun, -, -, -, -, hapart, -⟩ := registers_are_reserved_until_written hproper
  have hflights : (machines.run RegRun.step {} loadThenAdd).map
      (fun t => t.flights.map Flight.inst) = some [addition] := by
    decide +kernel
  rw [hrun] at hflights
  exact ⟨t, hrun, Option.some.inj hflights, hapart⟩

end gpgpu_sim_uvm.scoreboard
