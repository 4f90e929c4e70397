-- Loops of passes that have loops of their own: where only finitely many states
-- can come up, such a loop ends just if every pass does and no state comes back.
import GpgpuSimUvm.Sweeps
import Mathlib.Order.WellFoundedSet

namespace control_flow

/-- The loop and the loops of its passes on the same fuel. -/
def rounds {ε σ : Type} (spent : ε) (pass : Nat → σ → Except ε (σ × Bool)) (fuel : Nat) (s : σ) :
    Except ε σ :=
  while_change spent (pass fuel) fuel s

section

variable {ε σ : Type} (pass : Nat → σ → Except ε (σ × Bool))

/-- A pass over `s` changes something, and leaves `s'`. -/
def Turns (s s' : σ) : Prop := ∃ fuel, pass fuel s = .ok (s', true)

/-- A pass that ends does so on more fuel too, with the same result. -/
def FuelOnly : Prop :=
  ∀ fuel fuel' s r, fuel ≤ fuel' → pass fuel s = .ok r → pass fuel' s = .ok r

end

/-- A loop that ends does so on more fuel too. -/
theorem while_change_mono {ε σ : Type} {spent : ε} {pass pass' : σ → Except ε (σ × Bool)}
    (hpass : ∀ s r, pass s = .ok r → pass' s = .ok r) {fuel fuel' : Nat} (hle : fuel ≤ fuel')
    {s t : σ} (h : while_change spent pass fuel s = .ok t) :
    while_change spent pass' fuel' s = .ok t := by
  induction fuel generalizing s fuel' with
  | zero => simp [while_change] at h
  | succ fuel ih =>
    obtain ⟨fuel', rfl⟩ := Nat.exists_eq_succ_of_ne_zero (show fuel' ≠ 0 by omega)
    unfold while_change at h ⊢
    rcases hp : pass s with e | ⟨s', _ | _⟩
    · simp [hp] at h
    · rw [hp] at h
      rw [hpass s _ hp]
      exact h
    · rw [hp] at h
      rw [hpass s _ hp]
      exact ih (by omega) h

section

variable {ε σ : Type} {spent : ε} {pass : Nat → σ → Except ε (σ × Bool)}

theorem FuelOnly.unique (hpass : FuelOnly pass) {m n : Nat} {s : σ} {r r' : σ × Bool}
    (h : pass m s = .ok r) (h' : pass n s = .ok r') : r = r' := by
  have hm := hpass m (max m n) s r (Nat.le_max_left m n) h
  have hn := hpass n (max m n) s r' (Nat.le_max_right m n) h'
  exact Except.ok.inj (hm.symm.trans hn)

theorem rounds_mono (hpass : FuelOnly pass) {fuel fuel' : Nat} (hle : fuel ≤ fuel') {s t : σ}
    (h : rounds spent pass fuel s = .ok t) : rounds spent pass fuel' s = .ok t :=
  while_change_mono (fun s r => hpass fuel fuel' s r hle) hle h

/-- A loop that ends from `s` ends from the next state, in one turn less. -/
theorem while_change_next (hpass : FuelOnly pass) {fuel n : Nat} {s s' t : σ}
    (h : while_change spent (pass fuel) n s = .ok t) (hs : Turns pass s s') :
    ∃ m < n, while_change spent (pass fuel) m s' = .ok t := by
  obtain ⟨k, hk⟩ := hs
  cases n with
  | zero => simp [while_change] at h
  | succ n =>
    unfold while_change at h
    rcases hp : pass fuel s with e | r
    · simp [hp] at h
    · obtain rfl := hpass.unique hp hk
      rw [hp] at h
      exact ⟨n, Nat.lt_succ_self n, h⟩

theorem while_change_later (hpass : FuelOnly pass) {fuel n : Nat} {s s' t : σ}
    (h : while_change spent (pass fuel) n s = .ok t) (hs : Relation.TransGen (Turns pass) s s') :
    ∃ m < n, while_change spent (pass fuel) m s' = .ok t := by
  induction hs with
  | single hs => exact while_change_next hpass h hs
  | tail _ hs ih =>
    obtain ⟨m, hm, hrun⟩ := ih
    obtain ⟨k, hk, hrun⟩ := while_change_next hpass hrun hs
    exact ⟨k, hk.trans hm, hrun⟩

/-- From a state that comes back the loop does not end. -/
theorem while_change_circle (hpass : FuelOnly pass) {fuel n : Nat} {s t : σ}
    (hs : Relation.TransGen (Turns pass) s s) :
    while_change spent (pass fuel) n s ≠ .ok t := by
  induction n using Nat.strong_induction_on with
  | _ n ih =>
    intro h
    obtain ⟨m, hm, hrun⟩ := while_change_later hpass h hs
    exact ih m hm hrun

/-- In a loop that ends every pass does, and no state comes back. -/
theorem rounds_end (hpass : FuelOnly pass) {fuel : Nat} {s s' t : σ}
    (h : rounds spent pass fuel s = .ok t) (hs : Relation.ReflTransGen (Turns pass) s s') :
    (∃ r, pass fuel s' = .ok r) ∧ ¬ Relation.TransGen (Turns pass) s' s' := by
  have hrun : ∃ n, while_change spent (pass fuel) n s' = .ok t := by
    rcases Relation.reflTransGen_iff_eq_or_transGen.mp hs with rfl | hs
    · exact ⟨fuel, h⟩
    · obtain ⟨n, -, hrun⟩ := while_change_later hpass h hs
      exact ⟨n, hrun⟩
  obtain ⟨n, hrun⟩ := hrun
  refine ⟨?_, fun hcircle => while_change_circle hpass hcircle hrun⟩
  cases n with
  | zero => simp [while_change] at hrun
  | succ n =>
    unfold while_change at hrun
    rcases hp : pass fuel s' with e | r
    · simp [hp] at hrun
    · exact ⟨r, rfl⟩

/-- One turn in front of a loop that ends. -/
theorem rounds_step (hpass : FuelOnly pass) {m n : Nat} {s s' t : σ}
    (hs : pass m s = .ok (s', true)) (h : rounds spent pass n s' = .ok t) :
    rounds spent pass (max m n + 1) s = .ok t := by
  unfold rounds while_change
  rw [hpass m (max m n + 1) s _ (by omega) hs]
  exact while_change_mono (fun s r => hpass n _ s r (by omega)) (by omega) h

/-- Where finitely many states can come up, passes that end and never come back
to a state make a loop that ends. -/
theorem rounds_of_no_circle (hpass : FuelOnly pass) {s : σ}
    (hfin : {s' | Relation.ReflTransGen (Turns pass) s s'}.Finite)
    (hgood : ∀ s', Relation.ReflTransGen (Turns pass) s s' →
      (∃ fuel r, pass fuel s' = .ok r) ∧ ¬ Relation.TransGen (Turns pass) s' s') :
    ∃ fuel t, rounds spent pass fuel s = .ok t := by
  -- later states come first, and there is no descent among finitely many
  let later : σ → σ → Prop := fun a b =>
    Relation.ReflTransGen (Turns pass) s b ∧ Relation.TransGen (Turns pass) b a
  have hirrefl : Std.Irrefl later := ⟨fun a h => (hgood a h.1).2 h.2⟩
  have htrans : IsTrans σ later := ⟨fun a b c h h' => ⟨h'.1, h'.2.trans h.2⟩⟩
  have horder : IsStrictOrder σ later := { hirrefl, htrans with }
  have hwf := hfin.wellFoundedOn (r := later)
  refine hwf.induction (P := fun s' => ∃ fuel t, rounds spent pass fuel s' = .ok t)
    (show s ∈ {s' | Relation.ReflTransGen (Turns pass) s s'} from .refl) ?_
  intro a ha ih
  obtain ⟨m, ⟨b, c⟩, hok⟩ := (hgood a ha).1
  cases c with
  | false =>
    refine ⟨m + 1, b, ?_⟩
    unfold rounds while_change
    rw [hpass m (m + 1) a _ (Nat.le_succ m) hok]
  | true =>
    have hb : Turns pass a b := ⟨m, hok⟩
    obtain ⟨n, t, hrun⟩ := ih b (.tail ha hb) ⟨ha, .single hb⟩
    exact ⟨_, t, rounds_step hpass hok hrun⟩

/-- Such a loop ends just if its passes do and no state comes back. -/
theorem rounds_end_iff (hpass : FuelOnly pass) {s : σ}
    (hfin : {s' | Relation.ReflTransGen (Turns pass) s s'}.Finite) :
    (∃ fuel t, rounds spent pass fuel s = .ok t) ↔
      ∀ s', Relation.ReflTransGen (Turns pass) s s' →
        (∃ fuel r, pass fuel s' = .ok r) ∧ ¬ Relation.TransGen (Turns pass) s' s' := by
  refine ⟨?_, rounds_of_no_circle hpass hfin⟩
  rintro ⟨fuel, t, hrun⟩ s' hs
  obtain ⟨⟨r, hok⟩, hno⟩ := rounds_end hpass hrun hs
  exact ⟨⟨fuel, r, hok⟩, hno⟩

end

end control_flow
