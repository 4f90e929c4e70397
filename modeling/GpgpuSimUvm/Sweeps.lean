-- Sweeps over a graph: each pass meets, in place, the set of every node with
-- those of its neighbours, until a pass changes nothing. What is left is what
-- lies on every walk to the root.
import GpgpuSimUvm.PostDominators
import Mathlib.Algebra.BigOperators.Group.Finset.Basic
import Mathlib.Algebra.Order.BigOperators.Group.Finset
import Mathlib.Tactic.Common

namespace control_flow

/-! ## The loop -/

/-- `while (change)`: passes until one changes nothing. A pass may fail, and so
does the loop that still changes when its fuel is spent. -/
def while_change {ε σ : Type} (spent : ε) (pass : σ → Except ε (σ × Bool)) :
    Nat → σ → Except ε σ
  | 0, _ => .error spent
  | fuel + 1, s =>
    match pass s with
    | .error e => .error e
    | .ok (s', true) => while_change spent pass fuel s'
    | .ok (s', false) => .ok s'

/-- A loop ends whose passes keep an invariant and make less of a measure
where they change something. The last pass changed nothing. -/
theorem while_change_ok {ε σ : Type} {spent : ε} {pass : σ → Except ε (σ × Bool)}
    {I : σ → Prop} {μ : σ → Nat}
    (hpass : ∀ s, I s → ∃ s' c, pass s = .ok (s', c) ∧ I s' ∧ (c = true → μ s' < μ s))
    {fuel : Nat} {s : σ} (hs : I s) (hfuel : μ s < fuel) :
    ∃ s₀ s', while_change spent pass fuel s = .ok s' ∧ I s₀ ∧ I s' ∧
      pass s₀ = .ok (s', false) := by
  induction fuel generalizing s with
  | zero => omega
  | succ fuel ih =>
    obtain ⟨s', c, hok, hs', hless⟩ := hpass s hs
    unfold while_change
    rw [hok]
    cases c with
    | false => exact ⟨s, s', rfl, hs, hs', hok⟩
    | true =>
      have := hless rfl
      exact ih hs' (by omega)

/-- A loop over states that stand for other states runs as the loop over
those. -/
theorem while_change_map {ε σ τ : Type} {spent : ε} {pass : σ → Except ε (σ × Bool)}
    {pass' : τ → τ × Bool} {f : τ → σ}
    (hpass : ∀ t, pass (f t) = .ok (f (pass' t).1, (pass' t).2)) (fuel : Nat) (t : τ) :
    while_change spent pass fuel (f t) =
      (while_change spent (fun t => .ok (pass' t)) fuel t).map f := by
  induction fuel generalizing t with
  | zero => rfl
  | succ fuel ih =>
    unfold while_change
    rw [hpass t]
    rcases h : pass' t with ⟨t', _ | _⟩
    · rfl
    · exact ih t'

/-! ## A pass -/

section

variable (nbrs : Nat → Finset Nat) (size root : Nat)

/-- What the sets of all neighbours of `h` have in common, and `h`. -/
def meet (D : Nat → Finset Nat) (h : Nat) : Finset Nat :=
  insert h ((Finset.range size).filter fun d => ∀ s ∈ nbrs h, d ∈ D s)

/-- One node of a pass. -/
def visit (r : (Nat → Finset Nat) × Bool) (h : Nat) : (Nat → Finset Nat) × Bool :=
  if meet nbrs size r.1 h = r.1 h then r
  else (Function.update r.1 h (meet nbrs size r.1 h), true)

def sweep (order : List Nat) (D : Nat → Finset Nat) : (Nat → Finset Nat) × Bool :=
  order.foldl (visit nbrs size) (D, false)

/-- The sets before the first pass. -/
def fullSets (h : Nat) : Finset Nat := if h = root then {root} else Finset.range size

/-- How many elements all sets have. -/
def weight (D : Nat → Finset Nat) : Nat := ∑ h ∈ Finset.range size, (D h).card

/-- Sets from above: nothing that post-dominates is lost yet, and a further
pass only takes away. -/
structure Above (D : Nat → Finset Nat) : Prop where
  at_root : D root = {root}
  within : ∀ h, D h ⊆ Finset.range size
  keeps : ∀ h < size, ∀ d < size, PostDominates (fun a b => b ∈ nbrs a) root d h → d ∈ D h
  shrinks : ∀ h < size, h ≠ root → meet nbrs size D h ⊆ D h

/-- What a pass over `order` does to sets from above. -/
structure Swept (order : List Nat) (r r' : (Nat → Finset Nat) × Bool) : Prop where
  above : Above nbrs size root r'.1
  less : r'.2 = true → r.2 = true ∨ weight size r'.1 < weight size r.1
  le : weight size r'.1 ≤ weight size r.1
  same : r'.2 = false → r' = r ∧ ∀ h ∈ order, meet nbrs size r.1 h = r.1 h

end

section

variable {nbrs : Nat → Finset Nat} {size root : Nat}

theorem mem_meet {D : Nat → Finset Nat} {h d : Nat} :
    d ∈ meet nbrs size D h ↔ d = h ∨ d < size ∧ ∀ s ∈ nbrs h, d ∈ D s := by
  simp [meet]

/-- Smaller sets meet in a smaller set. -/
theorem meet_mono {D D' : Nat → Finset Nat} (hle : ∀ h, D' h ⊆ D h) (h : Nat) :
    meet nbrs size D' h ⊆ meet nbrs size D h := by
  intro d hd
  rw [mem_meet] at hd ⊢
  refine hd.imp_right fun ⟨hlt, hall⟩ => ⟨hlt, ?_⟩
  intro s hs
  exact hle s (hall s hs)

theorem fullSets_within (hroot : root < size) (h : Nat) :
    fullSets size root h ⊆ Finset.range size := by
  unfold fullSets
  split <;> simp [hroot]

theorem fullSets_above (hroot : root < size) : Above nbrs size root (fullSets size root) where
  at_root := by simp [fullSets]
  within := fullSets_within hroot
  keeps h _ d hd hpd := by
    unfold fullSets
    split
    · rename_i heq
      rw [heq] at hpd
      simp [hpd.at_exit]
    · simpa using hd
  shrinks h hlt hne := by
    intro d hd
    rw [mem_meet] at hd
    simp only [fullSets, if_neg hne, Finset.mem_range]
    rcases hd with rfl | ⟨hd, -⟩
    · exact hlt
    · exact hd

/-- The sets after the visit of `h` lie in those before it. -/
theorem Above.update_le {D : Nat → Finset Nat} (hD : Above nbrs size root D) {h : Nat}
    (hh : h < size) (hne : h ≠ root) (k : Nat) :
    Function.update D h (meet nbrs size D h) k ⊆ D k := by
  by_cases hk : k = h
  · rw [hk, Function.update_self]
    exact hD.shrinks h hh hne
  · rw [Function.update_of_ne hk]

theorem Above.update {D : Nat → Finset Nat} (hD : Above nbrs size root D)
    (hn : ∀ a < size, ∀ b ∈ nbrs a, b < size) {h : Nat} (hh : h < size) (hne : h ≠ root) :
    Above nbrs size root (Function.update D h (meet nbrs size D h)) where
  at_root := by rw [Function.update_of_ne hne.symm, hD.at_root]
  within k := (hD.update_le hh hne k).trans (hD.within k)
  keeps k hk d hd hpd := by
    by_cases heq : k = h
    · rw [heq, Function.update_self, mem_meet]
      rw [heq] at hpd
      by_cases hdh : d = h
      · exact Or.inl hdh
      · refine Or.inr ⟨hd, fun s hs => ?_⟩
        exact hD.keeps s (hn h hh s hs) d hd (hpd.of_succ hdh hs)
    · rw [Function.update_of_ne heq]
      exact hD.keeps k hk d hd hpd
  shrinks k hk hkr := by
    have hle : meet nbrs size _ k ⊆ meet nbrs size D k := meet_mono (hD.update_le hh hne) k
    by_cases heq : k = h
    · rw [heq, Function.update_self]
      exact heq ▸ hle
    · rw [Function.update_of_ne heq]
      exact hle.trans (hD.shrinks k hk hkr)

/-- A visit that changes a set takes something out of it. -/
theorem Above.weight_update {D : Nat → Finset Nat} (hD : Above nbrs size root D) {h : Nat}
    (hh : h < size) (hne : h ≠ root) (hch : meet nbrs size D h ≠ D h) :
    weight size (Function.update D h (meet nbrs size D h)) < weight size D := by
  unfold weight
  refine Finset.sum_lt_sum (fun k _ => Finset.card_le_card (hD.update_le hh hne k))
    ⟨h, by simpa using hh, ?_⟩
  rw [Function.update_self]
  exact Finset.card_lt_card ((hD.shrinks h hh hne).ssubset_of_ne hch)

theorem Above.visits (hn : ∀ a < size, ∀ b ∈ nbrs a, b < size) (order : List Nat)
    (horder : ∀ h ∈ order, h < size ∧ h ≠ root) {r : (Nat → Finset Nat) × Bool}
    (hr : Above nbrs size root r.1) :
    Swept nbrs size root order r (order.foldl (visit nbrs size) r) := by
  induction order generalizing r with
  | nil => exact ⟨hr, fun h => .inl h, Nat.le_refl _, fun _ => ⟨rfl, by simp⟩⟩
  | cons h order ih =>
    obtain ⟨hh, hne⟩ := horder h (by simp)
    have hrest : ∀ k ∈ order, k < size ∧ k ≠ root :=
      fun k hk => horder k (List.mem_cons_of_mem _ hk)
    rw [List.foldl_cons]
    by_cases heq : meet nbrs size r.1 h = r.1 h
    · rw [visit, if_pos heq]
      have hs := ih hrest hr
      refine ⟨hs.above, hs.less, hs.le, fun hf => ⟨(hs.same hf).1, ?_⟩⟩
      intro k hk
      rcases List.mem_cons.mp hk with rfl | hk
      · exact heq
      · exact (hs.same hf).2 k hk
    · rw [visit, if_neg heq]
      have hs := ih hrest (r := ⟨Function.update r.1 h (meet nbrs size r.1 h), true⟩)
        (hr.update hn hh hne)
      have hlt := Nat.lt_of_le_of_lt hs.le (hr.weight_update hh hne heq)
      refine ⟨hs.above, fun _ => .inr hlt, Nat.le_of_lt hlt, fun hf => ?_⟩
      -- the flag stays up
      have := congrArg Prod.snd (hs.same hf).1
      rw [hf] at this
      simp at this

/-! ## The result -/

/-- Sets that no pass over the other nodes changes are exact. -/
theorem Above.exact {D : Nat → Finset Nat} (hD : Above nbrs size root D)
    (hn : ∀ a < size, ∀ b ∈ nbrs a, b < size)
    (hfix : ∀ h < size, h ≠ root → meet nbrs size D h = D h) {h : Nat} (hh : h < size) (d : Nat) :
    d ∈ D h ↔ d < size ∧ PostDominates (fun a b => b ∈ nbrs a) root d h := by
  refine ⟨fun hd => ⟨by simpa using hD.within h hd, ?_⟩, fun ⟨hd, hpd⟩ => hD.keeps h hh d hd hpd⟩
  intro ns hw
  induction hw with
  | stop =>
    rw [hD.at_root] at hd
    simpa using hd
  | step hs hw ih =>
    rename_i a b ns
    by_cases ha : a = root
    · rw [ha, hD.at_root, Finset.mem_singleton] at hd
      simp [hd, ha]
    · rw [← hfix a hh ha, mem_meet] at hd
      rcases hd with rfl | ⟨-, hall⟩
      · simp
      · exact List.mem_cons_of_mem _ (ih (hn a hh b hs) (hall b hs))

theorem weight_fullSets_le (hroot : root < size) :
    weight size (fullSets size root) ≤ size * size := by
  unfold weight
  calc ∑ h ∈ Finset.range size, (fullSets size root h).card
      ≤ ∑ _h ∈ Finset.range size, size := by
        refine Finset.sum_le_sum fun h _ => ?_
        exact (Finset.card_le_card (fullSets_within hroot h)).trans_eq (Finset.card_range size)
    _ = size * size := by simp

/-- The sweeps over all nodes but the root end, with the post-dominators of
every node. -/
theorem sweeps_exact {ε : Type} (spent : ε) (hn : ∀ a < size, ∀ b ∈ nbrs a, b < size)
    (hroot : root < size) {order : List Nat} (horder : ∀ h, h ∈ order ↔ h < size ∧ h ≠ root)
    {fuel : Nat} (hfuel : size * size < fuel) :
    ∃ D, while_change spent (fun D => .ok (sweep nbrs size order D)) fuel
        (fullSets size root) = .ok D ∧ (∀ h, D h ⊆ Finset.range size) ∧
      ∀ h < size, ∀ d, d ∈ D h ↔ d < size ∧ PostDominates (fun a b => b ∈ nbrs a) root d h := by
  have hpass : ∀ D, Above nbrs size root D → ∃ D' c,
      (Except.ok (sweep nbrs size order D) : Except ε _) = .ok (D', c) ∧
        Above nbrs size root D' ∧ (c = true → weight size D' < weight size D) := by
    intro D hD
    have hs := Above.visits hn order (fun h hh => (horder h).mp hh) (r := (D, false)) hD
    exact ⟨_, _, rfl, hs.above, fun hc => (hs.less hc).resolve_left (by simp)⟩
  have hweight := Nat.lt_of_le_of_lt (weight_fullSets_le hroot) hfuel
  obtain ⟨D₀, D, hrun, hD₀, hD, hlast⟩ :=
    @while_change_ok _ _ spent _ _ _ hpass _ _ (fullSets_above hroot) hweight
  have hs := Above.visits hn order (fun h hh => (horder h).mp hh) (r := (D₀, false)) hD₀
  have hsweep : sweep nbrs size order D₀ = (D, false) := Except.ok.inj hlast
  obtain ⟨hsame, hfix⟩ := hs.same (congrArg Prod.snd hsweep)
  obtain rfl : D = D₀ := by
    have := hsweep.symm.trans hsame
    exact congrArg Prod.fst this
  refine ⟨D, hrun, hD.within, fun h hh d => ?_⟩
  exact hD.exact hn (fun k hk hne => hfix k ((horder k).mpr ⟨hk, hne⟩)) hh d

end

end control_flow
