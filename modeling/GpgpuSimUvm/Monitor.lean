-- Invariants of systems that are watched. A watch `ok` judges the state by
-- what has happened so far and never forgives: once it fails it fails for
-- good. The rules here carry an invariant through every step that the watch
-- still accepts.
import Mathlib.Tactic.Common

namespace monitor

variable {S A : Type}

/-- `s'` comes after `s`: the watch does not forgive on the way, and where it
accepts `s'` the invariant has come along. -/
structure Follows (ok Inv : S → Prop) (s s' : S) : Prop where
  unforgiving : ok s' → ok s
  keeps : Inv s → ok s' → Inv s'

namespace Follows

variable {ok Inv : S → Prop}

theorem refl (s : S) : Follows ok Inv s s := ⟨id, fun hi _ => hi⟩

theorem trans {a b c : S} (h : Follows ok Inv a b) (h' : Follows ok Inv b c) :
    Follows ok Inv a c :=
  ⟨fun hc => h.unforgiving (h'.unforgiving hc),
    fun hi hc => h'.keeps (h.keeps hi (h'.unforgiving hc)) hc⟩

/-- A loop whose every round keeps the invariant keeps it. -/
theorem foldl {f : S → A → S} (as : List A) (hf : ∀ a ∈ as, ∀ s, Follows ok Inv s (f s a))
    (s : S) : Follows ok Inv s (as.foldl f s) := by
  induction as generalizing s with
  | nil => exact refl s
  | cons a as ih =>
    have hfirst := hf a List.mem_cons_self s
    exact hfirst.trans (ih (fun b hb => hf b (List.mem_cons_of_mem _ hb)) (f s a))

/-- The same for loops that carry other locals along. -/
theorem foldl_fst {B : Type} {f : S × B → A → S × B} (as : List A)
    (hf : ∀ a ∈ as, ∀ s, Follows ok Inv s.1 (f s a).1) (s : S × B) :
    Follows ok Inv s.1 (as.foldl f s).1 := by
  induction as generalizing s with
  | nil => exact refl s.1
  | cons a as ih =>
    have hfirst := hf a List.mem_cons_self s
    exact hfirst.trans (ih (fun b hb => hf b (List.mem_cons_of_mem _ hb)) (f s a))

/-- Two invariants that are kept together. -/
theorem and {Inv' : S → Prop} {s s' : S} (h : Follows ok Inv s s') (h' : Follows ok Inv' s s') :
    Follows ok (fun s => Inv s ∧ Inv' s) s s' :=
  ⟨h.unforgiving, fun hi hs => ⟨h.keeps hi.1 hs, h'.keeps hi.2 hs⟩⟩

end Follows

/-! ## Runs -/

/-- The states that `next` leads to from `init`. -/
inductive Reach (init : S) (next : S → S → Prop) : S → Prop
  | start : Reach init next init
  | step {s s' : S} : Reach init next s → next s s' → Reach init next s'

/-- The invariant holds in every state of every run that the watch accepts. -/
theorem reach_invariant {init : S} {next : S → S → Prop} {ok Inv : S → Prop} (h0 : Inv init)
    (hstep : ∀ s s', next s s' → Follows ok Inv s s') {s : S} (hr : Reach init next s)
    (hs : ok s) : Inv s := by
  induction hr with
  | start => exact h0
  | step _ hn ih => exact (hstep _ _ hn).keeps (ih ((hstep _ _ hn).unforgiving hs)) hs

end monitor
