-- A queue whose front is worked on, one element at a time: an element is pushed, started, may
-- be cancelled and started again, is performed, and leaves the queue when it is finished.
import Mathlib.Data.List.Basic
import Mathlib.Data.List.Induction

namespace in_order

inductive Event (A : Type)
  | pushed (a : A)
  | started (a : A)
  | performed (a : A)
  | cancelled (a : A)
  | finished (a : A)
  deriving DecidableEq

structure Queue (A : Type) where
  waiting : List A := []
  started : Bool := false
  performed : Bool := false
  deriving DecidableEq

variable {A : Type} [DecidableEq A]

/-- What an event makes of a queue, none when the event is out of order. -/
def Queue.next (q : Queue A) : Event A → Option (Queue A)
  | .pushed a => some { q with waiting := q.waiting ++ [a] }
  | .started a =>
    if q.started = false ∧ q.waiting.head? = some a then some { q with started := true } else none
  | .performed a =>
    if q.started = true ∧ q.performed = false ∧ q.waiting.head? = some a then
      some { q with performed := true }
    else none
  | .cancelled a =>
    if q.started = true ∧ q.performed = false ∧ q.waiting.head? = some a then
      some { q with started := false }
    else none
  | .finished a =>
    if q.started = true ∧ q.performed = true ∧ q.waiting.head? = some a then
      some { waiting := q.waiting.tail }
    else none

/-- The queue behind some events. -/
def run : Queue A → List (Event A) → Option (Queue A)
  | q, [] => some q
  | q, e :: es => (q.next e).bind (run · es)

theorem run_append (q : Queue A) (es fs : List (Event A)) :
    run q (es ++ fs) = (run q es).bind (run · fs) := by
  induction es generalizing q with
  | nil => rfl
  | cons e es ih =>
    simp only [List.cons_append, run]
    cases q.next e with
    | none => rfl
    | some r => exact ih r

theorem run_concat (q : Queue A) (es : List (Event A)) (e : Event A) :
    run q (es ++ [e]) = (run q es).bind (·.next e) := by
  rw [run_append]
  congr 1
  funext r
  simp [run]

/-! ## What an orderly history says -/

def pushedOf : List (Event A) → List A := List.filterMap fun
  | .pushed a => some a
  | _ => none

def performedOf : List (Event A) → List A := List.filterMap fun
  | .performed a => some a
  | _ => none

def finishedOf : List (Event A) → List A := List.filterMap fun
  | .finished a => some a
  | _ => none

/-- The element that was performed and is not finished yet. -/
def Queue.inHand (q : Queue A) : List A := if q.performed then q.waiting.take 1 else []

/-- An element in hand was started, and a started element is the front of the queue. -/
structure Queue.Sound (q : Queue A) : Prop where
  begun : q.performed = true → q.started = true
  front : q.started = true → q.waiting ≠ []

/-- How a history stands to the queue behind it: the elements leave in the order of their
pushes, each after it was performed once. -/
structure Accounts (es : List (Event A)) (q : Queue A) : Prop where
  sound : q.Sound
  pushes : pushedOf es = finishedOf es ++ q.waiting
  performances : performedOf es = finishedOf es ++ q.inHand

omit [DecidableEq A] in
theorem accounts_start : Accounts ([] : List (Event A)) {} := by
  refine ⟨⟨fun h => (nomatch h), fun h => (nomatch h)⟩, rfl, rfl⟩

theorem Accounts.next {es : List (Event A)} {q r : Queue A} (h : Accounts es q) {e : Event A}
    (hr : q.next e = some r) : Accounts (es ++ [e]) r := by
  obtain ⟨⟨hbegun, hfront⟩, hpushes, hperformed⟩ := h
  simp only [pushedOf, performedOf, finishedOf] at hpushes hperformed ⊢
  cases e with
  | pushed a =>
    cases hr
    refine ⟨⟨hbegun, fun _ => by simp⟩, ?_, ?_⟩
    · simp [pushedOf, finishedOf, hpushes]
    · -- only a queue with a front can have an element in hand
      simp only [performedOf, finishedOf, List.filterMap_append, hperformed]
      have hsame : Queue.inHand { q with waiting := q.waiting ++ [a] } = q.inHand := by
        simp only [Queue.inHand]
        split_ifs with hp
        · obtain ⟨b, bs, hbs⟩ := List.exists_cons_of_ne_nil (hfront (hbegun hp))
          simp [hbs]
        · rfl
      simp [hsame]
  | started a =>
    simp only [Queue.next] at hr
    split_ifs at hr with hok
    cases hr
    refine ⟨⟨fun _ => rfl, fun _ hnil => ?_⟩, ?_, ?_⟩
    · rw [show q.waiting = [] from hnil] at hok
      cases hok.2
    · simp [pushedOf, finishedOf, hpushes]
    · simp only [performedOf, finishedOf, List.filterMap_append, hperformed]
      simp [Queue.inHand]
  | performed a =>
    simp only [Queue.next] at hr
    split_ifs at hr with hok
    cases hr
    obtain ⟨hstarted, hnot, hhead⟩ := hok
    obtain ⟨rest, hrest⟩ := List.head?_eq_some_iff.mp hhead
    refine ⟨⟨fun _ => hstarted, hfront⟩, ?_, ?_⟩
    · simp [pushedOf, finishedOf, hpushes]
    · simp only [performedOf, finishedOf, List.filterMap_append, hperformed]
      simp [Queue.inHand, hnot, hrest]
  | cancelled a =>
    simp only [Queue.next] at hr
    split_ifs at hr with hok
    cases hr
    obtain ⟨-, hnot, -⟩ := hok
    refine ⟨⟨fun hp => ?_, fun hs => (nomatch hs)⟩, ?_, ?_⟩
    · rw [show q.performed = true from hp] at hnot
      cases hnot
    · simp [pushedOf, finishedOf, hpushes]
    · simp only [performedOf, finishedOf, List.filterMap_append, hperformed]
      simp [Queue.inHand]
  | finished a =>
    simp only [Queue.next] at hr
    split_ifs at hr with hok
    cases hr
    obtain ⟨-, hdone, hhead⟩ := hok
    obtain ⟨rest, hrest⟩ := List.head?_eq_some_iff.mp hhead
    refine ⟨⟨fun hp => (nomatch hp), fun hs => (nomatch hs)⟩, ?_, ?_⟩
    · simp [pushedOf, finishedOf, hpushes, hrest]
    · simp only [performedOf, finishedOf, List.filterMap_append, hperformed]
      simp [Queue.inHand, hdone, hrest]

/-- An orderly history accounts for every element. -/
theorem accounts_of_run {es : List (Event A)} {q : Queue A} (h : run {} es = some q) :
    Accounts es q := by
  induction es using List.reverseRecOn generalizing q with
  | nil =>
    cases h
    exact accounts_start
  | append_singleton es e ih =>
    rw [run_concat, Option.bind_eq_some_iff] at h
    obtain ⟨r, hr, hnext⟩ := h
    exact (ih hr).next hnext

end in_order
