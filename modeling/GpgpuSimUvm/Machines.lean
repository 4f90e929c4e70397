-- Machines that take one call after another and stop at a call that they cannot
-- take, and what holds along their runs.
import Mathlib.Tactic.Common

namespace machines

variable {S A : Type} {step : S → A → Option S} {s s' : S}

/-! ## Runs -/

/-- The calls one after the other. -/
def run (step : S → A → Option S) (s : S) : List A → Option S
  | [] => some s
  | a :: as => (step s a).bind fun s' => run step s' as

@[simp] theorem run_nil : run step s [] = some s := rfl

theorem run_cons {a : A} {as : List A} :
    run step s (a :: as) = (step s a).bind fun s' => run step s' as := rfl

theorem run_cons_eq_some {a : A} {as : List A} :
    run step s (a :: as) = some s' ↔ ∃ u, step s a = some u ∧ run step u as = some s' :=
  Option.bind_eq_some_iff

/-- What every call keeps holds after any calls. -/
theorem keeps_run {P : S → Prop} {ok : A → Prop}
    (hstep : ∀ s a s', P s → ok a → step s a = some s' → P s') {as : List A}
    (hok : ∀ a ∈ as, ok a) (hs : P s) (hrun : run step s as = some s') : P s' := by
  induction as generalizing s with
  | nil =>
    obtain rfl := Option.some.inj hrun
    exact hs
  | cons a as ih =>
    obtain ⟨u, hu, hrun⟩ := run_cons_eq_some.mp hrun
    exact ih (fun b hb => hok b (by simp [hb])) (hstep s a u hs (hok a (by simp)) hu) hrun

/-! ## Calls that the state allows -/

/-- Each call of the run is one that the state it comes at allows. -/
def Allowed (step : S → A → Option S) (ok : S → A → Prop) (s : S) : List A → Prop
  | [] => True
  | a :: as => ok s a ∧ ∀ u ∈ step s a, Allowed step ok u as

instance decidableAllowed (ok : S → A → Prop) [∀ s a, Decidable (ok s a)] :
    ∀ (s : S) (as : List A), Decidable (Allowed step ok s as)
  | _, [] => inferInstanceAs (Decidable True)
  | s, a :: as =>
    have : ∀ u, Decidable (Allowed step ok u as) := fun u => decidableAllowed ok u as
    inferInstanceAs (Decidable (ok s a ∧ ∀ u ∈ step s a, Allowed step ok u as))

/-- What every call that is allowed keeps holds after any of them. -/
theorem keeps_allowed {P : S → Prop} {ok : S → A → Prop}
    (hstep : ∀ s a s', P s → ok s a → step s a = some s' → P s') {as : List A}
    (hok : Allowed step ok s as) (hs : P s) (hrun : run step s as = some s') : P s' := by
  induction as generalizing s with
  | nil =>
    obtain rfl := Option.some.inj hrun
    exact hs
  | cons a as ih =>
    obtain ⟨u, hu, hrun⟩ := run_cons_eq_some.mp hrun
    exact ih (hok.2 u hu) (hstep s a u hs hok.1 hu) hrun

/-- What lets the machine take the next call, and holds again behind it, lets it
take all calls. -/
theorem runs_on {P : S → Prop} {ok : S → A → Prop}
    (hstep : ∀ s a, P s → ok s a → ∃ s', step s a = some s' ∧ P s') {as : List A}
    (hok : Allowed step ok s as) (hs : P s) : ∃ s', run step s as = some s' ∧ P s' := by
  induction as generalizing s with
  | nil => exact ⟨s, rfl, hs⟩
  | cons a as ih =>
    obtain ⟨u, hu, hP⟩ := hstep s a hs hok.1
    obtain ⟨s', hrun, hs'⟩ := ih (hok.2 u hu) hP
    exact ⟨s', run_cons_eq_some.mpr ⟨u, hu, hrun⟩, hs'⟩

/-! ## Bounded waiting -/

/-- The rule of bounded waiting: a rank that no call raises and that each turn
lowers unless it serves runs out, so that more turns than the rank serve. -/
theorem served_within {ok : S → A → Prop} {turn : A → Bool} (Waits : S → Prop) (rank : S → Nat)
    (Serves : S → A → S → Prop)
    (hstep : ∀ s a u, Waits s → ok s a → step s a = some u →
      Serves s a u ∨ Waits u ∧ rank u + (if turn a then 1 else 0) ≤ rank s)
    {as : List A} (hok : Allowed step ok s as) (hs : Waits s) (hrun : run step s as = some s')
    (hturns : rank s < as.countP turn) :
    ∃ front a back u v, as = front ++ a :: back ∧ run step s front = some u ∧
      step u a = some v ∧ Serves u a v := by
  induction as generalizing s with
  | nil => simp at hturns
  | cons a as ih =>
    obtain ⟨u, hu, hrun⟩ := run_cons_eq_some.mp hrun
    rcases hstep s a u hs hok.1 hu with hserves | ⟨hwaits, hrank⟩
    · exact ⟨[], a, as, s, u, rfl, rfl, hu, hserves⟩
    · have hless : rank u < as.countP turn := by
        rw [List.countP_cons] at hturns
        split at hturns <;> simp_all <;> omega
      obtain ⟨front, b, back, v, w, rfl, hfront, hv, hserves⟩ := ih (hok.2 u hu) hwaits hrun hless
      exact ⟨a :: front, b, back, v, w, rfl, run_cons_eq_some.mpr ⟨u, hu, hfront⟩, hv, hserves⟩

end machines
