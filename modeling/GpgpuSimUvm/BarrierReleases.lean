-- When barriers release. A barrier is complete when every live warp of its CTA has
-- arrived, or the threads that were counted; it releases just then, and its reduction
-- reaches every warp, as long as no step meets one of the cases in `Fits`.
import GpgpuSimUvm.Barriers

namespace gpgpu_sim_uvm.barrier_set

variable {cfg : BarrierConfig}

/-! ## Reductions -/

/-- The reduction over the operands of threads, in a register of 32 bits. -/
def reduction : ReductionType → List Bool → Nat
  | .POPC_RED, values => values.count true % (UNSIGNED_MAX + 1)
  | .AND_RED, values => (values.all id).toNat
  | .OR_RED, values => (values.any id).toNat

/-- What the storage may hold before the first of the operands. -/
def seedFits (seed : Nat) : ReductionType → List Bool → Bool
  | .POPC_RED, _ => decide (seed % (UNSIGNED_MAX + 1) = 0)
  | .AND_RED, values => decide (seed % 2 = 1) || !values.all id
  | .OR_RED, values => decide (seed = 0) || (decide (seed ≤ 1) && values.any id)

theorem popc_foldl (values : List Bool) (seed : Nat) (h : values ≠ []) :
    (values.map fun v => (ReductionType.POPC_RED, v)).foldl reduce seed =
      (seed + values.count true) % (UNSIGNED_MAX + 1) := by
  induction values generalizing seed with
  | nil => exact absurd rfl h
  | cons v values ih =>
    rw [List.map_cons, List.foldl_cons]
    cases values with
    | nil =>
      simp only [List.map_nil, List.foldl_nil, reduce]
      cases v <;> simp
    | cons v' rest =>
      rw [ih _ (List.cons_ne_nil _ _)]
      simp only [reduce]
      rw [Nat.mod_add_mod]
      cases v <;> simp [Nat.add_assoc, Nat.add_comm 1]

theorem and_foldl (values : List Bool) (seed : Nat) (h : values ≠ []) :
    (values.map fun v => (ReductionType.AND_RED, v)).foldl reduce seed =
      if values.all id then seed % 2 else 0 := by
  induction values generalizing seed with
  | nil => exact absurd rfl h
  | cons v values ih =>
    rw [List.map_cons, List.foldl_cons]
    have hone : reduce seed (.AND_RED, v) = if v then seed % 2 else 0 := by
      cases v
      · simp [reduce]
      · simp [reduce, Nat.and_one_is_mod]
    cases values with
    | nil =>
      rw [List.map_nil, List.foldl_nil, hone]
      simp
    | cons v' rest =>
      rw [ih _ (List.cons_ne_nil _ _), hone]
      cases v
      · simp
      · simp

theorem or_foldl (values : List Bool) (seed : Nat) :
    (values.map fun v => (ReductionType.OR_RED, v)).foldl reduce seed =
      if values.any id then seed ||| 1 else seed := by
  induction values generalizing seed with
  | nil => rfl
  | cons v values ih =>
    rw [List.map_cons, List.foldl_cons, ih]
    cases v
    · simp [reduce]
    · simp [reduce, Nat.or_assoc]

/-- What the storage comes to is the reduction just when it started right. -/
theorem foldl_reduce_iff (kind : ReductionType) (values : List Bool) (seed : Nat)
    (h : values ≠ []) :
    (values.map fun v => (kind, v)).foldl reduce seed = reduction kind values ↔
      seedFits seed kind values = true := by
  cases kind with
  | POPC_RED =>
    rw [popc_foldl values seed h]
    have hfits : seedFits seed .POPC_RED values = true ↔ seed % 4294967296 = 0 := decide_eq_true_iff
    change (seed + values.count true) % 4294967296 = values.count true % 4294967296 ↔ _
    rw [hfits]
    omega
  | AND_RED =>
    rw [and_foldl values seed h]
    simp only [reduction, seedFits]
    cases values.all id <;> simp
  | OR_RED =>
    rw [or_foldl values seed]
    simp only [reduction, seedFits]
    cases values.any id with
    | false => simp
    | true =>
      have hor : seed ||| 1 = 1 ↔ seed ≤ 1 := by
        constructor
        · intro hor
          rw [← hor]
          exact Nat.left_le_or
        · intro hle
          rcases Nat.le_one_iff_eq_zero_or_eq_one.mp hle with rfl | rfl <;> rfl
      rw [if_pos rfl, Bool.toNat_true, hor, Bool.and_true, Bool.or_eq_true, decide_eq_true_eq,
        decide_eq_true_eq]
      omega

/-- Operands of one kind, over a storage that started right. -/
theorem foldl_operands {operands : List (ReductionType × Bool)} {kind : ReductionType} {seed : Nat}
    (h : operands ≠ []) (hkind : ∀ x ∈ operands, x.1 = kind)
    (hseed : seedFits seed kind (operands.map Prod.snd) = true) :
    operands.foldl reduce seed = reduction kind (operands.map Prod.snd) := by
  have hmap : ((operands.map Prod.snd).map fun v => (kind, v)) = operands := by
    rw [List.map_map]
    conv_rhs => rw [← List.map_id operands]
    apply List.map_congr_left
    intro x hx
    rw [Function.comp_apply, ← hkind x hx]
    rfl
  have hnonempty : operands.map Prod.snd ≠ [] := by
    rw [Ne, List.map_eq_nil_iff]
    exact h
  have hfold := (foldl_reduce_iff kind _ seed hnonempty).mpr hseed
  rw [hmap] at hfold
  exact hfold

/-! ## Complete barriers -/

/-- The warps of a CTA that have arrived at a barrier since its last release. -/
def atBarrier (s : BarrierSet) (cta_id bar_id : Nat) : WarpSet :=
  s.warpsOf cta_id ∩ s.m_bar_id_to_warps bar_id

def live (s : BarrierSet) (cta_id : Nat) : WarpSet := s.warpsOf cta_id ∩ s.m_warp_active

/-- Every live warp of the CTA has arrived, or as many threads as the last arrival counts. -/
def Complete (cfg : BarrierConfig) (s : BarrierSet) (cta_id bar_id : Nat) : Prop :=
  (atBarrier s cta_id bar_id).Nonempty ∧
    if s.last_count cta_id bar_id = UNSIGNED_MAX then live s cta_id ⊆ atBarrier s cta_id bar_id
    else s.last_count cta_id bar_id ≤ (atBarrier s cta_id bar_id).card * cfg.m_warp_size

/-- The warp has arrived at the barrier to wait there. -/
def WaitsAt (s : BarrierSet) (w bar_id : Nat) : Prop :=
  w ∈ s.m_bar_id_to_warps bar_id ∧ ∃ inst, s.arrival bar_id w = some inst ∧ inst.waits = true

/-- The state in which an instruction has handed in its operands and arrived. -/
def arriving (s : BarrierSet) (cta_id warp_id : Nat) (inst : WarpInst) : BarrierSet :=
  let s := bar_impl s cta_id inst
  let s := { s with
    m_inst_at_barrier := Function.update s.m_inst_at_barrier warp_id (some inst)
    dst := Function.update s.dst warp_id none }
  marked (s.require (decide (inst.bar_id ≠ UNSIGNED_MAX ∧ warp_id ∈ s.warpsOf cta_id)))
    cta_id warp_id inst

/-- The state in which a warp has exited. -/
def exiting (s : BarrierSet) (warp_id : Nat) : BarrierSet :=
  { s with m_warp_active := s.m_warp_active.erase warp_id }

/-- The test behind an arrival. -/
def ArrivalReleases (cfg : BarrierConfig) (s : BarrierSet) (cta_id : Nat) (inst : WarpInst) : Prop :=
  if inst.bar_count = UNSIGNED_MAX then atBarrier s cta_id inst.bar_id = live s cta_id
  else (atBarrier s cta_id inst.bar_id).card * cfg.m_warp_size = inst.bar_count

instance (cfg : BarrierConfig) (s : BarrierSet) (cta_id : Nat) (inst : WarpInst) :
    Decidable (ArrivalReleases cfg s cta_id inst) := by
  unfold ArrivalReleases
  infer_instance

/-- What is left behind the tests for a release. -/
theorem issue_barrier_eq (s : BarrierSet) (cta_id warp_id : Nat) (inst : WarpInst) :
    issue_barrier cfg s cta_id warp_id inst =
      if ArrivalReleases cfg (arriving s cta_id warp_id inst) cta_id inst then
        releaseByArrival (arriving s cta_id warp_id inst) cta_id inst
          (atBarrier (arriving s cta_id warp_id inst) cta_id inst.bar_id)
      else arriving s cta_id warp_id inst := by
  unfold issue_barrier warp_reaches_barrier ArrivalReleases
  dsimp only
  by_cases hcount : inst.bar_count = UNSIGNED_MAX
  · simp only [if_pos hcount]
    rfl
  · simp only [if_neg hcount]
    rfl

/-! ## The condition -/

/-- An arrival does what it should: its test sees every completion, nobody that it releases
waits elsewhere, and with operands it is a reduction like all before it, over a storage
that did not disturb it. -/
structure ArrivalFits (cfg : BarrierConfig) (s : BarrierSet) (cta_id : Nat) (inst : WarpInst) :
    Prop where
  sees : Complete cfg s cta_id inst.bar_id → ArrivalReleases cfg s cta_id inst
  alone : ArrivalReleases cfg s cta_id inst → ∀ w ∈ atBarrier s cta_id inst.bar_id,
    ∀ b, WaitsAt s w b → b = inst.bar_id
  reduces : ArrivalReleases cfg s cta_id inst → s.operands cta_id inst.bar_id ≠ [] →
    inst.bar_type = .RED ∧ (∀ x ∈ s.operands cta_id inst.bar_id, x.1 = inst.red_type) ∧
      seedFits (s.seed cta_id inst.bar_id) inst.red_type
        ((s.operands cta_id inst.bar_id).map Prod.snd) = true

/-- An exit does what it should: its test sees every completion, it releases no barrier that
counts threads or reduces, and nobody that it releases waits elsewhere. -/
structure ExitFits (cfg : BarrierConfig) (s : BarrierSet) (cta_id : Nat) : Prop where
  sees : ∀ b, Complete cfg s cta_id b →
    b < cfg.m_max_barriers_per_cta ∧ atBarrier s cta_id b = live s cta_id
  uncounted : ∀ b < cfg.m_max_barriers_per_cta, (atBarrier s cta_id b).Nonempty →
    atBarrier s cta_id b = live s cta_id →
      s.last_count cta_id b = UNSIGNED_MAX ∧ s.operands cta_id b = []
  alone : ∀ b < cfg.m_max_barriers_per_cta, atBarrier s cta_id b = live s cta_id →
    ∀ w ∈ atBarrier s cta_id b, ∀ b', WaitsAt s w b' → b' = b

/-- The steps at which the barriers do what they should. -/
def Fits (cfg : BarrierConfig) (s : BarrierSet) : BarrierAction → Prop
  | .allocate_barrier _ _ => True
  | .deallocate_barrier cta_id => ∀ b, cfg.m_max_barriers_per_cta ≤ b → atBarrier s cta_id b = ∅
  | .issue_barrier cta_id warp_id inst =>
    ArrivalFits cfg (arriving s cta_id warp_id inst) cta_id inst
  | .warp_exit warp_id => ∀ cta_id, warp_id ∈ s.warpsOf cta_id →
    ExitFits cfg (exiting s warp_id) cta_id

/-! ## What the state knows of the warps -/

structure BarriersNoted (s : BarrierSet) : Prop where
  disjoint : ∀ c c' w, w ∈ s.warpsOf c → w ∈ s.warpsOf c' → c = c'
  marked : ∀ b w, w ∈ s.m_bar_id_to_warps b → ∃ c, w ∈ s.warpsOf c
  waits : ∀ w, w ∈ s.m_warp_at_barrier ↔ ∃ b, WaitsAt s w b
  inst : ∀ w b inst, w ∈ s.m_bar_id_to_warps b → s.arrival b w = some inst →
    inst.waits = true → s.m_inst_at_barrier w = some inst ∧ inst.bar_id = b
  storage : ∀ c b, s.reduction_storage c b = (s.operands c b).foldl reduce (s.seed c b)
  handed : ∀ c b w inst, w ∈ atBarrier s c b → s.arrival b w = some inst →
    inst.bar_type = .RED → ∃ v, (inst.red_type, v) ∈ s.operands c b

section Updates

variable {V : Type} (f : Nat → Nat → V) (i j : Nat) (v : V)

theorem update₂_self : update₂ f i j v i j = v := by
  unfold update₂
  rw [Function.update_self, Function.update_self]

theorem update₂_ne {i' j' : Nat} (h : ¬(i' = i ∧ j' = j)) : update₂ f i j v i' j' = f i' j' := by
  unfold update₂
  by_cases hi : i' = i
  · subst hi
    rw [Function.update_self, Function.update_of_ne fun hj => h ⟨rfl, hj⟩]
  · rw [Function.update_of_ne hi]

end Updates

namespace BarriersNoted

variable {s : BarrierSet}

/-- Changes that the marks and the reductions do not see. -/
theorem congr (h : BarriersNoted s) {s' : BarrierSet} (hcta : s'.m_cta_to_warps = s.m_cta_to_warps)
    (hbar : s'.m_bar_id_to_warps = s.m_bar_id_to_warps)
    (hwait : s'.m_warp_at_barrier = s.m_warp_at_barrier) (harr : s'.arrival = s.arrival)
    (hinst : s'.m_inst_at_barrier = s.m_inst_at_barrier)
    (hsto : s'.reduction_storage = s.reduction_storage) (hop : s'.operands = s.operands)
    (hseed : s'.seed = s.seed) : BarriersNoted s' := by
  cases s
  cases s'
  subst hcta hbar hwait harr hinst hsto hop hseed
  exact ⟨h.disjoint, h.marked, h.waits, h.inst, h.storage, h.handed⟩

theorem arriving (h : BarriersNoted s) {cta_id warp_id : Nat} {inst : WarpInst}
    (hwaits : warp_id ∉ s.m_warp_at_barrier) (hcta : warp_id ∈ s.warpsOf cta_id)
    (hvalues : inst.bar_type = .RED → inst.values ≠ []) :
    BarriersNoted (arriving s cta_id warp_id inst) := by
  have hfree : ∀ b, ¬WaitsAt s warp_id b := fun b hb => hwaits ((h.waits warp_id).mpr ⟨b, hb⟩)
  have hmark : ∀ b w, w ∈ (barrier_set.arriving s cta_id warp_id inst).m_bar_id_to_warps b ↔
      (b = inst.bar_id ∧ w = warp_id) ∨ w ∈ s.m_bar_id_to_warps b := by
    intro b w
    change w ∈ Function.update s.m_bar_id_to_warps inst.bar_id _ b ↔ _
    by_cases hb : b = inst.bar_id
    · subst hb
      rw [Function.update_self, Finset.mem_insert]
      simp only [true_and]
      rfl
    · rw [Function.update_of_ne hb]
      simp only [hb, false_and, false_or]
  have harrived : (barrier_set.arriving s cta_id warp_id inst).arrival inst.bar_id warp_id =
      some inst := update₂_self _ _ _ _
  have hothers : ∀ b w, ¬(b = inst.bar_id ∧ w = warp_id) →
      (barrier_set.arriving s cta_id warp_id inst).arrival b w = s.arrival b w :=
    fun b w hne => update₂_ne _ _ _ _ hne
  have hwaitsAt : ∀ w b, WaitsAt (barrier_set.arriving s cta_id warp_id inst) w b ↔
      (b = inst.bar_id ∧ w = warp_id ∧ inst.waits = true) ∨ WaitsAt s w b := by
    intro w b
    unfold WaitsAt
    rw [hmark]
    by_cases hbw : b = inst.bar_id ∧ w = warp_id
    · obtain ⟨rfl, rfl⟩ := hbw
      have hnot := hfree inst.bar_id
      unfold WaitsAt at hnot
      rw [harrived]
      constructor
      · rintro ⟨_, i, hi, hw⟩
        cases hi
        exact Or.inl ⟨rfl, rfl, hw⟩
      · rintro (⟨_, _, hw⟩ | hw)
        · exact ⟨Or.inl ⟨rfl, rfl⟩, inst, rfl, hw⟩
        · exact absurd hw hnot
    · rw [hothers b w hbw]
      constructor
      · rintro ⟨hw, hrest⟩
        exact Or.inr ⟨hw.resolve_left hbw, hrest⟩
      · rintro (⟨hb, hw, _⟩ | ⟨hw, hrest⟩)
        · exact absurd ⟨hb, hw⟩ hbw
        · exact ⟨Or.inr hw, hrest⟩
  refine ⟨h.disjoint, ?_, ?_, ?_, ?_, ?_⟩
  · intro b w hw
    rcases (hmark b w).mp hw with ⟨_, rfl⟩ | hw
    · exact ⟨cta_id, hcta⟩
    · exact h.marked b w hw
  · intro w
    have hset : w ∈ (barrier_set.arriving s cta_id warp_id inst).m_warp_at_barrier ↔
        (w = warp_id ∧ inst.waits = true) ∨ w ∈ s.m_warp_at_barrier := by
      change w ∈ (if inst.waits then insert warp_id s.m_warp_at_barrier
        else s.m_warp_at_barrier) ↔ _
      split
      · rename_i hw
        rw [Finset.mem_insert]
        simp only [hw, and_true]
      · rename_i hw
        simp only [hw, and_false, false_or, Bool.false_eq_true]
    rw [hset, h.waits w]
    constructor
    · rintro (⟨rfl, hw⟩ | ⟨b, hb⟩)
      · exact ⟨inst.bar_id, (hwaitsAt _ _).mpr (Or.inl ⟨rfl, rfl, hw⟩)⟩
      · exact ⟨b, (hwaitsAt _ _).mpr (Or.inr hb)⟩
    · rintro ⟨b, hb⟩
      rcases (hwaitsAt _ _).mp hb with ⟨_, hw, hwait⟩ | hb
      · exact Or.inl ⟨hw, hwait⟩
      · exact Or.inr ⟨b, hb⟩
  · intro w b i hw hi hwait
    change Function.update s.m_inst_at_barrier warp_id (some inst) w = some i ∧ i.bar_id = b
    by_cases hbw : b = inst.bar_id ∧ w = warp_id
    · obtain ⟨rfl, rfl⟩ := hbw
      rw [harrived] at hi
      cases hi
      exact ⟨Function.update_self _ _ _, rfl⟩
    · rw [hothers b w hbw] at hi
      have hw' := ((hmark b w).mp hw).resolve_left hbw
      have hne : w ≠ warp_id := by
        rintro rfl
        exact hfree b ⟨hw', i, hi, hwait⟩
      rw [Function.update_of_ne hne]
      exact h.inst w b i hw' hi hwait
  · intro c b
    change update₂ s.reduction_storage cta_id inst.bar_id _ c b =
      (update₂ s.operands cta_id inst.bar_id _ c b).foldl reduce (s.seed c b)
    by_cases hcb : c = cta_id ∧ b = inst.bar_id
    · obtain ⟨rfl, rfl⟩ := hcb
      rw [update₂_self, update₂_self, List.foldl_append, h.storage]
    · rw [update₂_ne _ _ _ _ hcb, update₂_ne _ _ _ _ hcb]
      exact h.storage c b
  · intro c b w i hw hi hred
    change ∃ v, (i.red_type, v) ∈ update₂ s.operands cta_id inst.bar_id _ c b
    obtain ⟨hwc, hwb⟩ := Finset.mem_inter.mp hw
    by_cases hbw : b = inst.bar_id ∧ w = warp_id
    · obtain ⟨rfl, rfl⟩ := hbw
      obtain rfl : c = cta_id := h.disjoint c cta_id w hwc hcta
      rw [harrived] at hi
      cases hi
      obtain ⟨v, hv⟩ := List.exists_mem_of_ne_nil _ (hvalues hred)
      rw [update₂_self]
      refine ⟨v, List.mem_append_right _ ?_⟩
      unfold WarpInst.operands
      rw [hred]
      exact List.mem_map_of_mem hv
    · rw [hothers b w hbw] at hi
      have hw' := ((hmark b w).mp hwb).resolve_left hbw
      obtain ⟨v, hv⟩ := h.handed c b w i (Finset.mem_inter.mpr ⟨hwc, hw'⟩) hi hred
      by_cases hcb : c = cta_id ∧ b = inst.bar_id
      · obtain ⟨rfl, rfl⟩ := hcb
        rw [update₂_self]
        exact ⟨v, List.mem_append_left _ hv⟩
      · rw [update₂_ne _ _ _ _ hcb]
        exact ⟨v, hv⟩

/-- A release of all warps of a CTA at one barrier, of which none waits elsewhere. -/
theorem release (h : BarriersNoted s) {c b : Nat}
    (halone : ∀ w ∈ atBarrier s c b, ∀ b', WaitsAt s w b' → b' = b) :
    BarriersNoted (release s c b (atBarrier s c b)) := by
  have hmark : ∀ b' w, w ∈ (barrier_set.release s c b (atBarrier s c b)).m_bar_id_to_warps b' ↔
      w ∈ s.m_bar_id_to_warps b' ∧ ¬(b' = b ∧ w ∈ s.warpsOf c) := by
    intro b' w
    change w ∈ Function.update s.m_bar_id_to_warps b _ b' ↔ _
    by_cases hb : b' = b
    · subst hb
      rw [Function.update_self, Finset.mem_sdiff]
      unfold atBarrier
      rw [Finset.mem_inter]
      constructor
      · rintro ⟨hw, hnot⟩
        exact ⟨hw, fun hc => hnot ⟨hc.2, hw⟩⟩
      · rintro ⟨hw, hnot⟩
        exact ⟨hw, fun hc => hnot ⟨rfl, hc.1⟩⟩
    · rw [Function.update_of_ne hb]
      simp only [hb, false_and, not_false_eq_true, and_true]
  have hwaitsAt : ∀ w b', WaitsAt (barrier_set.release s c b (atBarrier s c b)) w b' ↔
      WaitsAt s w b' ∧ ¬(b' = b ∧ w ∈ s.warpsOf c) := by
    intro w b'
    unfold WaitsAt
    rw [hmark]
    constructor
    · rintro ⟨⟨hw, hnot⟩, hrest⟩
      exact ⟨⟨hw, hrest⟩, hnot⟩
    · rintro ⟨⟨hw, hrest⟩, hnot⟩
      exact ⟨⟨hw, hnot⟩, hrest⟩
  refine ⟨h.disjoint, fun b' w hw => h.marked b' w ((hmark b' w).mp hw).1, ?_,
    fun w b' i hw => h.inst w b' i ((hmark b' w).mp hw).1, ?_, ?_⟩
  · intro w
    change w ∈ s.m_warp_at_barrier \ atBarrier s c b ↔ _
    rw [Finset.mem_sdiff, h.waits w]
    constructor
    · rintro ⟨⟨b', hb'⟩, hnot⟩
      refine ⟨b', (hwaitsAt w b').mpr ⟨hb', ?_⟩⟩
      rintro ⟨rfl, hc⟩
      exact hnot (Finset.mem_inter.mpr ⟨hc, hb'.1⟩)
    · rintro ⟨b', hb'⟩
      obtain ⟨hwait, hnot⟩ := (hwaitsAt w b').mp hb'
      refine ⟨⟨b', hwait⟩, fun hat => hnot ⟨halone w hat b' hwait, ?_⟩⟩
      exact (Finset.mem_inter.mp hat).1
  · intro c' b'
    change s.reduction_storage c' b' =
      (update₂ s.operands c b [] c' b').foldl reduce (update₂ s.seed c b _ c' b')
    by_cases hcb : c' = c ∧ b' = b
    · obtain ⟨rfl, rfl⟩ := hcb
      rw [update₂_self, update₂_self]
      rfl
    · rw [update₂_ne _ _ _ _ hcb, update₂_ne _ _ _ _ hcb]
      exact h.storage c' b'
  · intro c' b' w i hw hi hred
    obtain ⟨hwc, hwb⟩ := Finset.mem_inter.mp hw
    obtain ⟨hwb', hnot⟩ := (hmark b' w).mp hwb
    change ∃ v, (i.red_type, v) ∈ update₂ s.operands c b [] c' b'
    have hcb : ¬(c' = c ∧ b' = b) := by
      rintro ⟨rfl, rfl⟩
      exact hnot ⟨rfl, hwc⟩
    rw [update₂_ne _ _ _ _ hcb]
    exact h.handed c' b' w i (Finset.mem_inter.mpr ⟨hwc, hwb'⟩) hi hred

theorem broadcast (h : BarriersNoted s) (c : Nat) (warps : WarpSet) :
    BarriersNoted (broadcast_barrier_reduction s c warps) :=
  h.congr rfl rfl rfl rfl rfl rfl rfl rfl

theorem exiting (h : BarriersNoted s) (w : Nat) : BarriersNoted (exiting s w) :=
  h.congr rfl rfl rfl rfl rfl rfl rfl rfl

end BarriersNoted

/-! ## Releases -/

/-- The warps of a CTA at one barrier are released, and all else that tells whether a
barrier is complete stays. -/
structure Released (s s' : BarrierSet) (c : Nat) (taken : Nat → Prop) : Prop where
  warpsOf : ∀ c', s'.warpsOf c' = s.warpsOf c'
  m_warp_active : s'.m_warp_active = s.m_warp_active
  last_count : s'.last_count = s.last_count
  arrival : s'.arrival = s.arrival
  emptied : ∀ b, taken b → atBarrier s' c b = ∅
  others : ∀ c' b, ¬(c' = c ∧ taken b) → atBarrier s' c' b = atBarrier s c' b

theorem released_release {s : BarrierSet} (h : BarriersNoted s) (c b : Nat) :
    Released s (release s c b (atBarrier s c b)) c fun b' => b' = b := by
  refine ⟨fun _ => rfl, rfl, rfl, rfl, ?_, ?_⟩
  · rintro b' rfl
    unfold atBarrier
    change s.warpsOf c ∩ Function.update s.m_bar_id_to_warps b' _ b' = ∅
    rw [Function.update_self]
    ext w
    simp only [Finset.mem_inter, Finset.mem_sdiff, Finset.notMem_empty, iff_false]
    rintro ⟨hc, hw, hnot⟩
    exact hnot ⟨hc, hw⟩
  · intro c' b' hne
    unfold atBarrier
    change s.warpsOf c' ∩ Function.update s.m_bar_id_to_warps b _ b' = _
    by_cases hb : b' = b
    · subst hb
      rw [Function.update_self]
      ext w
      simp only [Finset.mem_inter, Finset.mem_sdiff]
      constructor
      · rintro ⟨hc, hw, _⟩
        exact ⟨hc, hw⟩
      · rintro ⟨hc, hw⟩
        refine ⟨hc, hw, fun hat => hne ⟨h.disjoint c' c w hc hat.1, rfl⟩⟩
    · rw [Function.update_of_ne hb]

namespace Released

variable {s s' s1 : BarrierSet} {c : Nat} {taken taken' : Nat → Prop}

theorem refl (s : BarrierSet) (c : Nat) : Released s s c fun _ => False :=
  ⟨fun _ => rfl, rfl, rfl, rfl, fun _ h => h.elim, fun _ _ _ => rfl⟩

theorem trans (h : Released s s1 c taken) (h' : Released s1 s' c taken') :
    Released s s' c fun b => taken b ∨ taken' b := by
  refine ⟨fun c' => (h'.warpsOf c').trans (h.warpsOf c'), h'.m_warp_active.trans h.m_warp_active,
    h'.last_count.trans h.last_count, h'.arrival.trans h.arrival, ?_, ?_⟩
  · intro b hb
    by_cases htaken : taken' b
    · exact h'.emptied b htaken
    · rw [h'.others c b fun hne => htaken hne.2]
      exact h.emptied b (hb.resolve_right htaken)
  · intro c' b hne
    rw [h'.others c' b fun hb => hne ⟨hb.1, Or.inr hb.2⟩]
    exact h.others c' b fun hb => hne ⟨hb.1, Or.inl hb.2⟩

theorem congr (h : Released s s' c taken) (htaken : ∀ b, taken' b ↔ taken b) :
    Released s s' c taken' :=
  ⟨h.warpsOf, h.m_warp_active, h.last_count, h.arrival, fun b hb => h.emptied b ((htaken b).mp hb),
    fun c' b hne => h.others c' b fun hb => hne ⟨hb.1, (htaken b).mpr hb.2⟩⟩

/-- A barrier that is not released is as complete as before, and a released one is empty. -/
theorem complete_iff (h : Released s s' c taken) (c' b : Nat) :
    Complete cfg s' c' b ↔ Complete cfg s c' b ∧ ¬(c' = c ∧ taken b) := by
  by_cases hcb : c' = c ∧ taken b
  · obtain ⟨rfl, hb⟩ := hcb
    unfold Complete
    rw [h.emptied b hb]
    simp only [Finset.not_nonempty_empty, false_and, hb, and_self, not_true_eq_false, and_false]
  · unfold Complete live
    rw [h.others c' b hcb, h.last_count, h.warpsOf, h.m_warp_active]
    simp only [hcb, not_false_eq_true, and_true]

end Released

/-- The loop of `warp_exit` releases the barriers at which all live warps are. -/
theorem exit_released (c : Nat) (active : WarpSet) (is : List Nat) {s : BarrierSet}
    (h : BarriersNoted s)
    (halone : ∀ i ∈ is, atBarrier s c i = active → ∀ w ∈ atBarrier s c i,
      ∀ b, WaitsAt s w b → b = i) (hnodup : is.Nodup) :
    BarriersNoted (is.foldl (exitRelease c (s.warpsOf c) active) s) ∧
      Released s (is.foldl (exitRelease c (s.warpsOf c) active) s) c
        fun b => b ∈ is ∧ atBarrier s c b = active := by
  induction is generalizing s with
  | nil => exact ⟨h, (Released.refl s c).congr fun b => by simp⟩
  | cons i is ih =>
    obtain ⟨hi, hnodup⟩ := List.nodup_cons.mp hnodup
    rw [List.foldl_cons]
    by_cases htest : atBarrier s c i = active
    · have hone : exitRelease c (s.warpsOf c) active s i = release s c i (atBarrier s c i) := by
        unfold exitRelease
        exact if_pos htest
      have hnoted := h.release (halone i List.mem_cons_self htest)
      have hrel := released_release h c i
      have hat : ∀ b ∈ is, atBarrier (release s c i (atBarrier s c i)) c b = atBarrier s c b := by
        intro b hb
        apply hrel.others
        rintro ⟨_, rfl⟩
        exact hi hb
      obtain ⟨hn, hr⟩ := ih hnoted (by
        intro b hb hactive w hw b' hwait
        rw [hat b hb] at hactive hw
        apply halone b (List.mem_cons_of_mem _ hb) hactive w hw b'
        refine ⟨?_, hwait.2⟩
        have hmem := hwait.1
        change w ∈ Function.update s.m_bar_id_to_warps i _ b' at hmem
        by_cases hb' : b' = i
        · subst hb'
          rw [Function.update_self] at hmem
          exact (Finset.mem_sdiff.mp hmem).1
        · rwa [Function.update_of_ne hb'] at hmem) hnodup
      rw [hone]
      refine ⟨hn, (hrel.trans hr).congr ?_⟩
      intro b
      constructor
      · rintro ⟨hb, hactive⟩
        rcases List.mem_cons.mp hb with rfl | hb
        · exact Or.inl rfl
        · exact Or.inr ⟨hb, (hat b hb).trans hactive⟩
      · rintro (rfl | ⟨hb, hactive⟩)
        · exact ⟨List.mem_cons_self, htest⟩
        · exact ⟨List.mem_cons_of_mem _ hb, (hat b hb).symm.trans hactive⟩
    · have hone : exitRelease c (s.warpsOf c) active s i = s := by
        unfold exitRelease
        exact if_neg htest
      rw [hone]
      obtain ⟨hn, hr⟩ := ih h (fun b hb => halone b (List.mem_cons_of_mem _ hb)) hnodup
      refine ⟨hn, hr.congr ?_⟩
      intro b
      constructor
      · rintro ⟨hb, hactive⟩
        rcases List.mem_cons.mp hb with rfl | hb
        · exact absurd hactive htest
        · exact ⟨hb, hactive⟩
      · rintro ⟨hb, hactive⟩
        exact ⟨List.mem_cons_of_mem _ hb, hactive⟩

/-! ## Steps -/

/-- The invariant of the barriers. -/
structure BarriersKept (cfg : BarrierConfig) (s : BarrierSet) : Prop where
  noted : BarriersNoted s
  none_complete : ∀ c b, ¬Complete cfg s c b

/-- The state in which the barriers are asked for a release. -/
def asked (s : BarrierSet) : BarrierAction → BarrierSet
  | .issue_barrier cta_id warp_id inst => arriving s cta_id warp_id inst
  | .warp_exit warp_id => exiting s warp_id
  | _ => s

/-- The complete barriers release their warps and no others do: a warp that waits leaves
just where its barrier is complete, and every warp that arrived by a reduction gets the
reduction over all threads that arrived. -/
structure ReleasesWhenComplete (cfg : BarrierConfig) (s s' : BarrierSet) : Prop where
  released : ∀ c b, Complete cfg s c b → atBarrier s' c b = ∅
  kept : ∀ c b, ¬Complete cfg s c b → atBarrier s' c b = atBarrier s c b
  leaves : ∀ c w b, w ∈ s.warpsOf c → WaitsAt s w b →
    (w ∉ s'.m_warp_at_barrier ↔ Complete cfg s c b)
  reduced : ∀ c b, Complete cfg s c b → ∀ w ∈ atBarrier s c b, ∀ inst,
    s.arrival b w = some inst → inst.bar_type = .RED →
      s'.dst w = some (reduction inst.red_type ((s.operands c b).map Prod.snd))

/-- Who leaves is told by the marks. -/
theorem leaves_of_marks {s s' : BarrierSet} {c : Nat} {taken : Nat → Prop}
    (hr : Released s s' c taken) (hn : BarriersNoted s) (hn' : BarriersNoted s')
    (hreleased : ∀ c b, Complete cfg s c b → atBarrier s' c b = ∅)
    (hkept : ∀ c b, ¬Complete cfg s c b → atBarrier s' c b = atBarrier s c b) (c' w b : Nat)
    (hw : w ∈ s.warpsOf c') (hwait : WaitsAt s w b) :
    w ∉ s'.m_warp_at_barrier ↔ Complete cfg s c' b := by
  have hat : w ∈ atBarrier s c' b := Finset.mem_inter.mpr ⟨hw, hwait.1⟩
  rw [hn'.waits w]
  constructor
  · intro hnot
    by_contra hc
    apply hnot
    rw [← hkept c' b hc] at hat
    refine ⟨b, (Finset.mem_inter.mp hat).2, ?_⟩
    rw [hr.arrival]
    exact hwait.2
  · rintro hc ⟨b', hmark, i, hi, hiwait⟩
    rw [hr.arrival] at hi
    have hw' : w ∈ s'.warpsOf c' := by
      rw [hr.warpsOf]
      exact hw
    have hat' : w ∈ atBarrier s' c' b' := Finset.mem_inter.mpr ⟨hw', hmark⟩
    -- the warp waits at one barrier only
    have hmark' : w ∈ s.m_bar_id_to_warps b' := by
      by_cases hc' : Complete cfg s c' b'
      · rw [hreleased c' b' hc'] at hat'
        exact absurd hat' (Finset.notMem_empty w)
      · rw [hkept c' b' hc'] at hat'
        exact (Finset.mem_inter.mp hat').2
    obtain ⟨hinst', hbar'⟩ := hn.inst w b' i hmark' hi hiwait
    obtain ⟨hmarkb, j, hj, hjwait⟩ := hwait
    obtain ⟨hinst, hbar⟩ := hn.inst w b j hmarkb hj hjwait
    rw [hinst] at hinst'
    cases hinst'
    obtain rfl : b = b' := hbar.symm.trans hbar'
    rw [hreleased c' b hc] at hat'
    exact Finset.notMem_empty w hat'

section Arrival

variable {s : BarrierSet} {cta_id warp_id : Nat} {inst : WarpInst}

theorem atBarrier_arriving_other (h : BarriersNoted s) (hcta : warp_id ∈ s.warpsOf cta_id)
    {c b : Nat} (hne : ¬(c = cta_id ∧ b = inst.bar_id)) :
    atBarrier (arriving s cta_id warp_id inst) c b = atBarrier s c b := by
  change s.warpsOf c ∩ Function.update s.m_bar_id_to_warps inst.bar_id _ b = _
  by_cases hb : b = inst.bar_id
  · subst hb
    rw [Function.update_self]
    apply Finset.inter_insert_of_notMem
    intro hw
    exact hne ⟨h.disjoint c cta_id warp_id hw hcta, rfl⟩
  · rw [Function.update_of_ne hb]
    rfl

theorem complete_arriving_other (h : BarriersNoted s) (hcta : warp_id ∈ s.warpsOf cta_id)
    {c b : Nat} (hne : ¬(c = cta_id ∧ b = inst.bar_id)) :
    Complete cfg (arriving s cta_id warp_id inst) c b ↔ Complete cfg s c b := by
  have hcount : (arriving s cta_id warp_id inst).last_count c b = s.last_count c b :=
    update₂_ne _ _ _ _ hne
  unfold Complete
  rw [atBarrier_arriving_other h hcta hne, hcount]
  rfl

/-- Where the test behind an arrival releases, the barrier is complete. -/
theorem complete_of_releases (hcta : warp_id ∈ s.warpsOf cta_id)
    (hrel : ArrivalReleases cfg (arriving s cta_id warp_id inst) cta_id inst) :
    Complete cfg (arriving s cta_id warp_id inst) cta_id inst.bar_id := by
  have hcount : (arriving s cta_id warp_id inst).last_count cta_id inst.bar_id = inst.bar_count :=
    update₂_self _ _ _ _
  have hmem : warp_id ∈ atBarrier (arriving s cta_id warp_id inst) cta_id inst.bar_id := by
    change warp_id ∈ s.warpsOf cta_id ∩ Function.update s.m_bar_id_to_warps inst.bar_id _ inst.bar_id
    rw [Function.update_self]
    exact Finset.mem_inter.mpr ⟨hcta, Finset.mem_insert_self _ _⟩
  refine ⟨⟨warp_id, hmem⟩, ?_⟩
  unfold ArrivalReleases at hrel
  rw [hcount]
  by_cases hno : inst.bar_count = UNSIGNED_MAX
  · rw [if_pos hno] at hrel ⊢
    rw [hrel]
  · rw [if_neg hno] at hrel ⊢
    exact hrel.ge

/-- The broadcast writes what the storage of the barrier holds to each warp that waits at
it for a reduction. -/
theorem dst_broadcast (h : BarriersNoted s) {c b w : Nat} {i : WarpInst}
    (hw : w ∈ atBarrier s c b) (hi : s.arrival b w = some i) (hred : i.bar_type = .RED) :
    (broadcast_barrier_reduction (release s c b (atBarrier s c b)) c (atBarrier s c b)).dst w =
      some (s.reduction_storage c b) := by
  have hwait : i.waits = true := by
    unfold WarpInst.waits
    exact decide_eq_true (Or.inr hred)
  obtain ⟨hinst, hbar⟩ := h.inst w b i (Finset.mem_inter.mp hw).2 hi hwait
  unfold broadcast_barrier_reduction release
  dsimp only
  rw [hinst]
  dsimp only
  rw [if_pos ⟨hw, hred⟩, hbar]

theorem issue_step (h : BarriersKept cfg s) (hwaits : warp_id ∉ s.m_warp_at_barrier)
    (hcta : warp_id ∈ s.warpsOf cta_id) (hvalues : inst.bar_type = .RED → inst.values ≠ [])
    (hfits : ArrivalFits cfg (arriving s cta_id warp_id inst) cta_id inst) :
    BarriersKept cfg (issue_barrier cfg s cta_id warp_id inst) ∧
      ReleasesWhenComplete cfg (arriving s cta_id warp_id inst)
        (issue_barrier cfg s cta_id warp_id inst) := by
  have hnoted := h.noted.arriving hwaits hcta hvalues
  have hother : ∀ c b, ¬(c = cta_id ∧ b = inst.bar_id) →
      ¬Complete cfg (arriving s cta_id warp_id inst) c b := by
    intro c b hne hc
    exact h.none_complete c b ((complete_arriving_other h.noted hcta hne).mp hc)
  rw [issue_barrier_eq]
  by_cases hrel : ArrivalReleases cfg (arriving s cta_id warp_id inst) cta_id inst
  · rw [if_pos hrel]
    have hcomplete := complete_of_releases hcta hrel
    have hbase := released_release hnoted cta_id inst.bar_id
    have hnoted' := hnoted.release (hfits.alone hrel)
    -- the broadcast leaves all of it alone
    have hafter : Released (arriving s cta_id warp_id inst)
        (releaseByArrival (arriving s cta_id warp_id inst) cta_id inst
          (atBarrier (arriving s cta_id warp_id inst) cta_id inst.bar_id)) cta_id
        (fun b => b = inst.bar_id) ∧
        BarriersNoted (releaseByArrival (arriving s cta_id warp_id inst) cta_id inst
          (atBarrier (arriving s cta_id warp_id inst) cta_id inst.bar_id)) := by
      unfold releaseByArrival
      dsimp only
      split
      · exact ⟨⟨hbase.warpsOf, hbase.m_warp_active, hbase.last_count, hbase.arrival, hbase.emptied,
          hbase.others⟩, hnoted'.broadcast _ _⟩
      · exact ⟨hbase, hnoted'⟩
    have hreleased : ∀ c b, Complete cfg (arriving s cta_id warp_id inst) c b →
        atBarrier (releaseByArrival (arriving s cta_id warp_id inst) cta_id inst
          (atBarrier (arriving s cta_id warp_id inst) cta_id inst.bar_id)) c b = ∅ := by
      intro c b hc
      by_cases hcb : c = cta_id ∧ b = inst.bar_id
      · obtain ⟨rfl, rfl⟩ := hcb
        exact hafter.1.emptied _ rfl
      · exact absurd hc (hother c b hcb)
    have hkept : ∀ c b, ¬Complete cfg (arriving s cta_id warp_id inst) c b →
        atBarrier (releaseByArrival (arriving s cta_id warp_id inst) cta_id inst
          (atBarrier (arriving s cta_id warp_id inst) cta_id inst.bar_id)) c b =
            atBarrier (arriving s cta_id warp_id inst) c b := by
      intro c b hc
      apply hafter.1.others
      rintro ⟨rfl, rfl⟩
      exact hc hcomplete
    refine ⟨⟨hafter.2, ?_⟩, hreleased, hkept,
      leaves_of_marks hafter.1 hnoted hafter.2 hreleased hkept, ?_⟩
    · intro c b hc
      obtain ⟨hc', hne⟩ := (hafter.1.complete_iff c b).mp hc
      exact hother c b hne hc'
    · intro c b hc w hw i hi hred
      by_cases hcb : c = cta_id ∧ b = inst.bar_id
      · obtain ⟨rfl, rfl⟩ := hcb
        obtain ⟨v, hv⟩ := hnoted.handed _ _ w i hw hi hred
        obtain ⟨htype, hkind, hseed⟩ := hfits.reduces hrel (List.ne_nil_of_mem hv)
        unfold releaseByArrival
        dsimp only
        have hsame : i.red_type = inst.red_type := hkind _ hv
        rw [if_pos htype, dst_broadcast hnoted hw hi hred, hnoted.storage, hsame]
        exact congrArg some (foldl_operands (List.ne_nil_of_mem hv) hkind hseed)
      · exact absurd hc (hother c b hcb)
  · rw [if_neg hrel]
    have hnone : ∀ c b, ¬Complete cfg (arriving s cta_id warp_id inst) c b := by
      intro c b hc
      by_cases hcb : c = cta_id ∧ b = inst.bar_id
      · obtain ⟨rfl, rfl⟩ := hcb
        exact hrel (hfits.sees hc)
      · exact hother c b hcb hc
    have hreleased : ∀ c b, Complete cfg (arriving s cta_id warp_id inst) c b →
        atBarrier (arriving s cta_id warp_id inst) c b = ∅ := fun c b hc => absurd hc (hnone c b)
    exact ⟨⟨hnoted, hnone⟩, hreleased, fun _ _ _ => rfl,
      leaves_of_marks (Released.refl _ cta_id) hnoted hnoted hreleased fun _ _ _ => rfl,
      fun c b hc => absurd hc (hnone c b)⟩

end Arrival

theorem warpsOf_of_ctaOf {s : BarrierSet} {w : Nat} {e : Nat × WarpSet} (h : ctaOf s w = some e) :
    s.warpsOf e.1 = e.2 ∧ w ∈ s.warpsOf e.1 := by
  unfold ctaOf at h
  have hwarps : s.warpsOf e.1 = e.2 := StdMap.findD_of_mem _ _ (List.mem_of_find?_eq_some h)
  rw [hwarps]
  exact ⟨rfl, of_decide_eq_true (List.find?_some (p := fun e : Nat × WarpSet => decide (w ∈ e.2)) h)⟩

theorem warp_exit_eq {s : BarrierSet} {w : Nat} {e : Nat × WarpSet}
    (h : ctaOf (exiting s w) w = some e) :
    warp_exit cfg s w = (List.range cfg.m_max_barriers_per_cta).foldl
      (exitRelease e.1 ((exiting s w).warpsOf e.1) (live (exiting s w) e.1)) (exiting s w) := by
  unfold live
  rw [(warpsOf_of_ctaOf h).1]
  unfold warp_exit
  dsimp only
  unfold exiting at h
  rw [h]
  rfl

theorem warp_exit_aborts {s : BarrierSet} {w : Nat} (h : ctaOf (exiting s w) w = none) :
    (warp_exit cfg s w).aborted = true := by
  unfold warp_exit
  dsimp only
  unfold exiting at h
  rw [h]
  exact Bool.or_true _

theorem exit_step {s : BarrierSet} {w : Nat} (h : BarriersKept cfg s)
    (hfits : Fits cfg s (.warp_exit w)) (hab : (warp_exit cfg s w).aborted = false) :
    BarriersKept cfg (warp_exit cfg s w) ∧
      ReleasesWhenComplete cfg (exiting s w) (warp_exit cfg s w) := by
  have hnoted := h.noted.exiting w
  cases hctaOf : ctaOf (exiting s w) w with
  | none =>
    rw [warp_exit_aborts hctaOf] at hab
    cases hab
  | some e =>
    have hw := (warpsOf_of_ctaOf hctaOf).2
    have hfit : ExitFits cfg (exiting s w) e.1 := hfits e.1 hw
    obtain ⟨hn, hr⟩ := exit_released e.1 (live (exiting s w) e.1)
      (List.range cfg.m_max_barriers_per_cta) hnoted
      (fun b hb hat => hfit.alone b (List.mem_range.mp hb) hat) List.nodup_range
    rw [← warp_exit_eq hctaOf] at hn hr
    -- the other CTAs have as many live warps as before
    have hother : ∀ c b, c ≠ e.1 → ¬Complete cfg (exiting s w) c b := by
      intro c b hc hcomplete
      apply h.none_complete c b
      have hlive : live (exiting s w) c = live s c := by
        change s.warpsOf c ∩ s.m_warp_active.erase w = s.warpsOf c ∩ s.m_warp_active
        ext x
        simp only [Finset.mem_inter, Finset.mem_erase]
        constructor
        · rintro ⟨hx, _, hact⟩
          exact ⟨hx, hact⟩
        · rintro ⟨hx, hact⟩
          refine ⟨hx, ?_, hact⟩
          rintro rfl
          exact hc (h.noted.disjoint c e.1 x hx hw)
      unfold Complete at hcomplete ⊢
      rw [hlive] at hcomplete
      exact hcomplete
    have htaken : ∀ b, Complete cfg (exiting s w) e.1 b →
        b ∈ List.range cfg.m_max_barriers_per_cta ∧
          atBarrier (exiting s w) e.1 b = live (exiting s w) e.1 := by
      intro b hb
      obtain ⟨hlt, hat⟩ := hfit.sees b hb
      exact ⟨List.mem_range.mpr hlt, hat⟩
    have hreleased : ∀ c b, Complete cfg (exiting s w) c b →
        atBarrier (warp_exit cfg s w) c b = ∅ := by
      intro c b hc
      by_cases hce : c = e.1
      · subst hce
        exact hr.emptied b (htaken b hc)
      · exact absurd hc (hother c b hce)
    have hkept : ∀ c b, ¬Complete cfg (exiting s w) c b →
        atBarrier (warp_exit cfg s w) c b = atBarrier (exiting s w) c b := by
      intro c b hc
      by_cases hcb : c = e.1 ∧ b ∈ List.range cfg.m_max_barriers_per_cta ∧
          atBarrier (exiting s w) e.1 b = live (exiting s w) e.1
      · obtain ⟨rfl, hb, hat⟩ := hcb
        rw [hr.emptied b ⟨hb, hat⟩]
        -- only a barrier where nobody is passes the test without being complete
        apply Eq.symm
        rw [← Finset.not_nonempty_iff_eq_empty]
        intro hsome
        apply hc
        refine ⟨hsome, ?_⟩
        rw [if_pos (hfit.uncounted b (List.mem_range.mp hb) hsome hat).1, hat]
      · exact hr.others c b hcb
    refine ⟨⟨hn, ?_⟩, hreleased, hkept, leaves_of_marks hr hnoted hn hreleased hkept, ?_⟩
    · intro c b hc
      obtain ⟨hc', hne⟩ := (hr.complete_iff c b).mp hc
      by_cases hce : c = e.1
      · subst hce
        exact hne ⟨rfl, htaken b hc'⟩
      · exact hother c b hce hc'
    · intro c b hc x hx i hi hred
      by_cases hce : c = e.1
      · subst hce
        obtain ⟨hb, hat⟩ := htaken b hc
        have hnone := (hfit.uncounted b (List.mem_range.mp hb) hc.1 hat).2
        obtain ⟨v, hv⟩ := hnoted.handed _ b x i hx hi hred
        rw [hnone] at hv
        cases hv
      · exact absurd hc (hother c b hce)

/-- Warps that are in no CTA are marked nowhere. -/
theorem BarriersNoted.no_marks {s : BarrierSet} (h : BarriersNoted s) {warps : WarpSet}
    (hfree : ∀ c, ∀ w ∈ warps, w ∉ s.warpsOf c) :
    (∀ b, s.m_bar_id_to_warps b \ warps = s.m_bar_id_to_warps b) ∧
      s.m_warp_at_barrier \ warps = s.m_warp_at_barrier := by
  have hmarks : ∀ b w, w ∈ s.m_bar_id_to_warps b → w ∉ warps := by
    intro b w hw hin
    obtain ⟨c, hc⟩ := h.marked b w hw
    exact hfree c w hin hc
  constructor
  · intro b
    ext w
    rw [Finset.mem_sdiff]
    exact ⟨And.left, fun hw => ⟨hw, hmarks b w hw⟩⟩
  · ext w
    rw [Finset.mem_sdiff]
    refine ⟨And.left, fun hw => ⟨hw, ?_⟩⟩
    obtain ⟨b, hb⟩ := (h.waits w).mp hw
    exact hmarks b w hb.1

theorem allocate_step {s : BarrierSet} {c : Nat} {warps : WarpSet} (h : BarriersKept cfg s)
    (hcan : canHappen s (.allocate_barrier c warps) = true)
    (hab : (allocate_barrier cfg s c warps).aborted = false) :
    BarriersKept cfg (allocate_barrier cfg s c warps) := by
  have hnew : s.m_cta_to_warps.contains c = false := by
    unfold allocate_barrier BarrierSet.require at hab
    simp only [Bool.or_eq_false_iff, Bool.not_eq_false', Bool.and_eq_true] at hab
    simpa using hab.1.2.2
  have hold : s.warpsOf c = ∅ := StdMap.findD_of_not_contains _ _ hnew
  have hfree : ∀ c', ∀ w ∈ warps, w ∉ s.warpsOf c' := by
    intro c' w hw hin
    unfold BarrierSet.warpsOf StdMap.findD at hin
    cases hfind : s.m_cta_to_warps.find c' with
    | none =>
      rw [hfind] at hin
      exact Finset.notMem_empty w hin
    | some v =>
      rw [hfind] at hin
      have hdisj := List.all_eq_true.mp hcan _ (StdMap.mem_entries_of_find _ hfind)
      have hempty : warps ∩ v = ∅ := of_decide_eq_true hdisj
      have hmem : w ∈ warps ∩ v := Finset.mem_inter.mpr ⟨hw, hin⟩
      rw [hempty] at hmem
      exact Finset.notMem_empty w hmem
  obtain ⟨hmarks, hwaiting⟩ := h.noted.no_marks hfree
  have hself : (allocate_barrier cfg s c warps).warpsOf c = warps := StdMap.findD_alter_self _ _ _ _ _
  have hothers : ∀ c', c' ≠ c → (allocate_barrier cfg s c warps).warpsOf c' = s.warpsOf c' :=
    fun c' hc' => StdMap.findD_alter_ne _ _ _ _ hc'
  have hbars : (allocate_barrier cfg s c warps).m_bar_id_to_warps = s.m_bar_id_to_warps := by
    funext b
    change (if b < _ then s.m_bar_id_to_warps b \ warps else s.m_bar_id_to_warps b) = _
    rw [hmarks b, ite_self]
  have hempty : ∀ b, atBarrier (allocate_barrier cfg s c warps) c b = ∅ := by
    intro b
    unfold atBarrier
    rw [hself, hbars]
    ext w
    simp only [Finset.mem_inter, Finset.notMem_empty, iff_false]
    rintro ⟨hw, hmark⟩
    obtain ⟨c', hc'⟩ := h.noted.marked b w hmark
    exact hfree c' w hw hc'
  have hat : ∀ c' b, c' ≠ c → atBarrier (allocate_barrier cfg s c warps) c' b = atBarrier s c' b := by
    intro c' b hc'
    unfold atBarrier
    rw [hothers c' hc', hbars]
  have hwaitsAt : ∀ w b, WaitsAt (allocate_barrier cfg s c warps) w b ↔ WaitsAt s w b := by
    intro w b
    unfold WaitsAt
    rw [hbars]
    rfl
  refine ⟨⟨?_, ?_, ?_, ?_, ?_, ?_⟩, ?_⟩
  · intro c1 c2 w h1 h2
    by_cases hc1 : c1 = c
    · by_cases hc2 : c2 = c
      · rw [hc1, hc2]
      · subst hc1
        rw [hself] at h1
        rw [hothers c2 hc2] at h2
        exact absurd h2 (hfree c2 w h1)
    · rw [hothers c1 hc1] at h1
      by_cases hc2 : c2 = c
      · subst hc2
        rw [hself] at h2
        exact absurd h1 (hfree c1 w h2)
      · rw [hothers c2 hc2] at h2
        exact h.noted.disjoint c1 c2 w h1 h2
  · intro b w hw
    rw [hbars] at hw
    obtain ⟨c', hc'⟩ := h.noted.marked b w hw
    refine ⟨c', ?_⟩
    rw [hothers c' ?_]
    · exact hc'
    · rintro rfl
      rw [hold] at hc'
      exact Finset.notMem_empty w hc'
  · intro w
    change w ∈ s.m_warp_at_barrier \ warps ↔ _
    rw [hwaiting, h.noted.waits w]
    simp only [hwaitsAt]
  · intro w b i hw hi hwait
    rw [hbars] at hw
    exact h.noted.inst w b i hw hi hwait
  · intro c' b
    change s.reduction_storage c' b = (Function.update s.operands c (fun _ => []) c' b).foldl reduce
      (Function.update s.seed c (s.reduction_storage c) c' b)
    by_cases hc' : c' = c
    · subst hc'
      rw [Function.update_self, Function.update_self]
      rfl
    · rw [Function.update_of_ne hc', Function.update_of_ne hc']
      exact h.noted.storage c' b
  · intro c' b w i hw hi hred
    by_cases hc' : c' = c
    · subst hc'
      rw [hempty b] at hw
      exact absurd hw (Finset.notMem_empty w)
    · rw [hat c' b hc'] at hw
      change ∃ v, (i.red_type, v) ∈ Function.update s.operands c (fun _ => []) c' b
      rw [Function.update_of_ne hc']
      exact h.noted.handed c' b w i hw hi hred
  · intro c' b hcomplete
    by_cases hc' : c' = c
    · subst hc'
      have hsome := hcomplete.1
      rw [hempty b] at hsome
      exact Finset.not_nonempty_empty hsome
    · apply h.none_complete c' b
      have hlive : live (allocate_barrier cfg s c warps) c' = live s c' := by
        unfold live
        rw [hothers c' hc']
        change s.warpsOf c' ∩ (s.m_warp_active ∪ warps) = _
        ext w
        simp only [Finset.mem_inter, Finset.mem_union]
        constructor
        · rintro ⟨hw, hact | hin⟩
          · exact ⟨hw, hact⟩
          · exact absurd hw (hfree c' w hin)
        · rintro ⟨hw, hact⟩
          exact ⟨hw, Or.inl hact⟩
      unfold Complete at hcomplete ⊢
      rw [hat c' b hc', hlive] at hcomplete
      exact hcomplete

/-- A CTA of which no warp is marked leaves the map. -/
theorem BarriersKept.forget {s : BarrierSet} (h : BarriersKept cfg s) {c : Nat}
    (hnone : ∀ b, Disjoint (s.m_bar_id_to_warps b) (s.warpsOf c)) (aborted : Bool) :
    BarriersKept cfg { s with m_cta_to_warps := s.m_cta_to_warps.erase c, aborted := aborted } := by
  generalize hs' : ({ s with
    m_cta_to_warps := s.m_cta_to_warps.erase c, aborted := aborted } : BarrierSet) = s'
  have hself : s'.warpsOf c = ∅ := by
    subst hs'
    unfold BarrierSet.warpsOf StdMap.findD
    rw [StdMap.find_erase_self]
    rfl
  have hothers : ∀ c', c' ≠ c → s'.warpsOf c' = s.warpsOf c' := by
    intro c' hc'
    subst hs'
    unfold BarrierSet.warpsOf StdMap.findD
    rw [StdMap.find_erase_ne _ hc']
  have hof : ∀ c' w, w ∈ s'.warpsOf c' → c' ≠ c ∧ w ∈ s.warpsOf c' := by
    intro c' w hw
    have hc' : c' ≠ c := by
      rintro rfl
      rw [hself] at hw
      exact Finset.notMem_empty w hw
    rw [hothers c' hc'] at hw
    exact ⟨hc', hw⟩
  have hat : ∀ c' b w, w ∈ atBarrier s' c' b → c' ≠ c ∧ w ∈ atBarrier s c' b := by
    intro c' b w hw
    obtain ⟨hwc, hwb⟩ := Finset.mem_inter.mp hw
    subst hs'
    exact ⟨(hof c' w hwc).1, Finset.mem_inter.mpr ⟨(hof c' w hwc).2, hwb⟩⟩
  refine ⟨⟨?_, ?_, ?_, ?_, ?_, ?_⟩, ?_⟩
  · intro c1 c2 w h1 h2
    exact h.noted.disjoint c1 c2 w (hof c1 w h1).2 (hof c2 w h2).2
  · intro b w hw
    have hw' : w ∈ s.m_bar_id_to_warps b := by
      subst hs'
      exact hw
    obtain ⟨c', hc'⟩ := h.noted.marked b w hw'
    refine ⟨c', ?_⟩
    rw [hothers c' ?_]
    · exact hc'
    · rintro rfl
      exact Finset.disjoint_left.mp (hnone b) hw' hc'
  · subst hs'
    exact h.noted.waits
  · subst hs'
    exact h.noted.inst
  · subst hs'
    exact h.noted.storage
  · intro c' b w i hw hi hred
    obtain ⟨_, hw'⟩ := hat c' b w hw
    subst hs'
    exact h.noted.handed c' b w i hw' hi hred
  · intro c' b hcomplete
    obtain ⟨w, hw⟩ := hcomplete.1
    obtain ⟨hc', _⟩ := hat c' b w hw
    apply h.none_complete c' b
    have hsame : atBarrier s' c' b = atBarrier s c' b ∧ live s' c' = live s c' := by
      unfold atBarrier live
      rw [hothers c' hc']
      subst hs'
      exact ⟨rfl, rfl⟩
    unfold Complete at hcomplete ⊢
    rw [hsame.1, hsame.2] at hcomplete
    subst hs'
    exact hcomplete

theorem deallocate_step {s : BarrierSet} {c : Nat} (h : BarriersKept cfg s)
    (hfits : Fits cfg s (.deallocate_barrier c))
    (hab : (deallocate_barrier cfg s c).aborted = false) :
    BarriersKept cfg (deallocate_barrier cfg s c) := by
  unfold deallocate_barrier at *
  cases hfind : s.m_cta_to_warps.find c with
  | none => exact h
  | some warps =>
    rw [hfind] at hab
    have hc : s.warpsOf c = warps := by
      unfold BarrierSet.warpsOf StdMap.findD
      rw [hfind]
      rfl
    simp only [BarrierSet.require, Bool.or_eq_false_iff, Bool.not_eq_false', Bool.and_eq_true,
      decide_eq_true_eq, List.all_eq_true, List.mem_range] at hab
    obtain ⟨_, ⟨hwait, hactive⟩, hbars⟩ := hab
    have hnone : ∀ b, Disjoint (s.m_bar_id_to_warps b) warps := by
      intro b
      rw [disjoint_comm, Finset.disjoint_iff_inter_eq_empty]
      by_cases hb : b < cfg.m_max_barriers_per_cta
      · exact hbars b hb
      · have hrest : s.warpsOf c ∩ s.m_bar_id_to_warps b = ∅ := hfits b (not_lt.mp hb)
        rwa [hc] at hrest
    have hkept : ∀ set : WarpSet, warps ∩ set = ∅ → set \ warps = set := by
      intro set hset
      apply Finset.sdiff_eq_self_of_disjoint
      rw [disjoint_comm, Finset.disjoint_iff_inter_eq_empty]
      exact hset
    have hmarks : (fun i => if i < cfg.m_max_barriers_per_cta then s.m_bar_id_to_warps i \ warps
        else s.m_bar_id_to_warps i) = s.m_bar_id_to_warps := by
      funext b
      rw [Finset.sdiff_eq_self_of_disjoint (hnone b), ite_self]
    dsimp only [BarrierSet.require]
    rw [hmarks, hkept _ hwait, hkept _ hactive]
    rw [← hc] at hnone
    exact h.forget hnone _

/-! ## Runs -/

/-- A step that meets the condition keeps the invariant, and releases what it should. -/
theorem BarriersKept.step {s : BarrierSet} (h : BarriersKept cfg s) {a : BarrierAction}
    (hcan : canHappen s a = true) (hfits : Fits cfg s a)
    (hab : (happens cfg s a).aborted = false) :
    BarriersKept cfg (happens cfg s a) ∧
      ((∃ cta_id warp_id inst, a = .issue_barrier cta_id warp_id inst) ∨
        (∃ warp_id, a = .warp_exit warp_id) →
          ReleasesWhenComplete cfg (asked s a) (happens cfg s a)) := by
  cases a with
  | allocate_barrier c warps =>
    refine ⟨allocate_step h hcan hab, ?_⟩
    rintro (⟨_, _, _, ha⟩ | ⟨_, ha⟩) <;> cases ha
  | deallocate_barrier c =>
    refine ⟨deallocate_step h hfits hab, ?_⟩
    rintro (⟨_, _, _, ha⟩ | ⟨_, ha⟩) <;> cases ha
  | issue_barrier c w inst =>
    simp only [canHappen, issues, Bool.and_eq_true, decide_eq_true_eq] at hcan
    obtain ⟨⟨⟨_, hwaits⟩, hcta⟩, hvalues⟩ := hcan
    obtain ⟨hkept, hreleases⟩ := issue_step h hwaits hcta hvalues hfits
    exact ⟨hkept, fun _ => hreleases⟩
  | warp_exit w =>
    obtain ⟨hkept, hreleases⟩ := exit_step h hfits hab
    exact ⟨hkept, fun _ => hreleases⟩

instance (cfg : BarrierConfig) (s : BarrierSet) (c b : Nat) : Decidable (Complete cfg s c b) := by
  unfold Complete
  infer_instance

end gpgpu_sim_uvm.barrier_set
