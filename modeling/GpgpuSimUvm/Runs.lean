-- Runs of calls that can fail: what holds in every state of a run, and what holds of
-- every call in the state where it is made.
import Mathlib.Tactic.Basic

namespace runs

variable {S C : Type} (step : S → C → Option S)

/-- The run goes through, and the property holds in every state that it reaches. -/
def Always (P : S → Prop) : S → List C → Prop
  | s, [] => P s
  | s, c :: calls => P s ∧ ∃ s', step s c = some s' ∧ Always P s' calls

/-- The property holds of every call, in the state where it is made. -/
def EachCall (Q : S → C → Prop) : S → List C → Prop
  | _, [] => True
  | s, c :: calls => Q s c ∧ ∀ s', step s c = some s' → EachCall Q s' calls

variable {step} {P I : S → Prop} {Q R : S → C → Prop}

theorem EachCall.cons {s s' : S} {c : C} {calls : List C} (hQ : Q s c) (hstep : step s c = some s')
    (hrest : EachCall step Q s' calls) : EachCall step Q s (c :: calls) := by
  refine ⟨hQ, fun t ht => ?_⟩
  obtain rfl : s' = t := Option.some.inj (hstep.symm.trans ht)
  exact hrest

/-- What the allowed calls keep holds always. -/
theorem always_of_kept (hkeep : ∀ s c, I s → Q s c → ∃ s', step s c = some s' ∧ I s') {s : S}
    {calls : List C} (hI : I s) (hQ : EachCall step Q s calls) : Always step I s calls := by
  induction calls generalizing s with
  | nil => exact hI
  | cons c calls ih =>
    obtain ⟨hQc, hrest⟩ := hQ
    obtain ⟨s', hs', hI'⟩ := hkeep s c hI hQc
    exact ⟨hI, s', hs', ih hI' (hrest s' hs')⟩

theorem Always.start {s : S} {calls : List C} (h : Always step P s calls) : P s := by
  cases calls with
  | nil => exact h
  | cons c calls => exact h.1

theorem Always.imp (h : ∀ s, P s → I s) {s : S} {calls : List C} (hall : Always step P s calls) :
    Always step I s calls := by
  induction calls generalizing s with
  | nil => exact h s hall
  | cons c calls ih =>
    obtain ⟨hs, s', hs', hrest⟩ := hall
    exact ⟨h s hs, s', hs', ih hrest⟩

theorem Always.and {s : S} {calls : List C} (hI : Always step I s calls)
    (hP : Always step P s calls) : Always step (fun s => I s ∧ P s) s calls := by
  induction calls generalizing s with
  | nil => exact ⟨hI, hP⟩
  | cons c calls ih =>
    obtain ⟨hs, s', hs', hrest⟩ := hI
    obtain ⟨ht, t', ht', hrest'⟩ := hP
    obtain rfl : s' = t' := Option.some.inj (hs'.symm.trans ht')
    exact ⟨⟨hs, ht⟩, s', hs', ih hrest hrest'⟩

/-- A property that an allowed call keeps on a condition holds always exactly where every
call meets the condition. -/
theorem always_iff_eachCall (hkeep : ∀ s c, I s → Q s c → ∃ s', step s c = some s' ∧ I s')
    (hiff : ∀ s c s', I s → Q s c → P s → step s c = some s' → (P s' ↔ R s c)) {s : S}
    {calls : List C} (hI : I s) (hP : P s) (hQ : EachCall step Q s calls) :
    Always step P s calls ↔ EachCall step R s calls := by
  induction calls generalizing s with
  | nil => exact ⟨fun _ => trivial, fun _ => hP⟩
  | cons c calls ih =>
    obtain ⟨hQc, hrest⟩ := hQ
    obtain ⟨s', hs', hI'⟩ := hkeep s c hI hQc
    have hone := hiff s c s' hI hQc hP hs'
    constructor
    · rintro ⟨-, t, ht, halways⟩
      obtain rfl : s' = t := Option.some.inj (hs'.symm.trans ht)
      refine ⟨hone.mp halways.start, fun t ht => ?_⟩
      obtain rfl : s' = t := Option.some.inj (hs'.symm.trans ht)
      exact (ih hI' halways.start (hrest s' hs')).mp halways
    · rintro ⟨hR, heach⟩
      have hP' := hone.mpr hR
      exact ⟨hP, s', hs', (ih hI' hP' (hrest s' hs')).mpr (heach s' hs')⟩

/-- Where a run goes through, each part of it starts where the part before ended. -/
theorem Always.split {s : S} {front rest : List C} (h : Always step P s (front ++ rest)) :
    ∃ s', front.foldlM step s = some s' ∧ Always step P s' rest := by
  induction front generalizing s with
  | nil => exact ⟨s, rfl, h⟩
  | cons c front ih =>
    obtain ⟨-, s', hs', hrest⟩ := h
    obtain ⟨t, ht, halways⟩ := ih hrest
    exact ⟨t, by rw [List.foldlM_cons, hs']; exact ht, halways⟩

/-- A property that each call keeps, from what the calls before it have made. -/
theorem always_of_fronts {s : S} {calls : List C} (hP : P s)
    (hkeep : ∀ front c rest s', calls = front ++ c :: rest → front.foldlM step s = some s' →
      P s' → ∃ t, step s' c = some t ∧ P t) : Always step P s calls := by
  induction calls generalizing s with
  | nil => exact hP
  | cons c calls ih =>
    obtain ⟨t, ht, hPt⟩ := hkeep [] c calls s rfl rfl hP
    refine ⟨hP, t, ht, ih hPt fun front d rest s' hcalls hs' hP' => ?_⟩
    refine hkeep (c :: front) d rest s' (by rw [hcalls]; rfl) ?_ hP'
    rw [List.foldlM_cons, ht]
    exact hs'

end runs
