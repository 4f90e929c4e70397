-- `fifo_pipeline` (delayqueue.h): a queue of nodes, some of them NULL, that delays its
-- elements by its minimum length. What each call does to the nodes and the counters.
import Mathlib.Algebra.Group.Nat.Defs
import Mathlib.Data.List.ReduceOption

namespace gpgpu_sim_uvm.delayqueue

/-! ## The code -/

/-- The list holds the data of the nodes from `m_head` to `m_tail`; none is NULL. The
lengths stay in their bounds; `m_n_element` may wrap. -/
structure FifoPipeline (T : Type) where
  nodes : List (Option T)
  m_min_len : Nat
  m_max_len : Nat
  m_length : Nat
  m_n_element : UInt32

namespace FifoPipeline

variable {T : Type}

/-- None is a failed assertion, here and in what follows. -/
def push (f : FifoPipeline T) (data : Option T) : Option (FifoPipeline T) :=
  if f.m_max_len ≤ f.m_length then none
  else
    match f.nodes.getLast? with
    | some tail =>
      if tail.isSome ∨ f.m_length < f.m_min_len then
        some { f with
          nodes := f.nodes ++ [data]
          m_length := f.m_length + 1
          m_n_element := f.m_n_element + 1 }
      else some { f with nodes := f.nodes.dropLast ++ [data] }
    | none =>
      some { f with
        nodes := [data]
        m_length := f.m_length + 1
        m_n_element := f.m_n_element + 1 }

/-- A NULL that is pushed for delay, and not counted. -/
def pushDelay (f : FifoPipeline T) : Option (FifoPipeline T) :=
  (f.push none).map fun f => { f with m_n_element := f.m_n_element - 1 }

/-- The data that is returned, and the queue after it. -/
def pop (f : FifoPipeline T) : Option (Option T × FifoPipeline T) :=
  match f.nodes with
  | [] => some (none, f)
  | data :: next =>
    let f := { f with nodes := next, m_length := f.m_length - 1 }
    if f.m_length = 0 ∧ next ≠ [] then none
    else
      let f := { f with m_n_element := f.m_n_element - 1 }
      if f.m_min_len ≠ 0 ∧ f.m_length < f.m_min_len then f.pushDelay.map fun f => (data, f)
      else some (data, f)

/-- `m_tail->m_data == 0` -/
def tailNull (f : FifoPipeline T) : Bool := f.nodes.getLast?.any Option.isNone

/-- The loop that grows the queue. None also where `fuel` turns do not end it. -/
def grow : Nat → FifoPipeline T → Option (FifoPipeline T)
  | 0, f => if f.m_length < f.m_min_len then none else some f
  | fuel + 1, f => if f.m_length < f.m_min_len then f.pushDelay.bind (grow fuel) else some f

/-- The loop that takes NULLs off the tail. -/
def trim : Nat → FifoPipeline T → Option (FifoPipeline T)
  | 0, f => if f.m_min_len < f.m_length ∧ f.tailNull then none else some f
  | fuel + 1, f =>
    if f.m_min_len < f.m_length ∧ f.tailNull then
      if f.nodes.length = 1 then (f.pop.map Prod.snd).bind (trim fuel)
      else trim fuel { f with nodes := f.nodes.dropLast, m_length := f.m_length - 1 }
    else some f

def set_min_length (f : FifoPipeline T) (new_min_len : Nat) : Option (FifoPipeline T) :=
  if new_min_len = f.m_min_len then some f
  else if f.m_min_len < new_min_len then
    grow (new_min_len - f.m_length) { f with m_min_len := new_min_len }
  else if f.nodes = [] then none
  else trim f.nodes.length { f with m_min_len := new_min_len }

/-- The pushes of the constructor. -/
def pushNulls : Nat → FifoPipeline T → Option (FifoPipeline T)
  | 0, f => some f
  | n + 1, f => (f.push none).bind (pushNulls n)

/-- The constructor. -/
def construct (minlen maxlen : Nat) : Option (FifoPipeline T) :=
  if maxlen = 0 then none else pushNulls minlen ⟨[], minlen, maxlen, 0, 0⟩

/-! ## What a call does -/

/-- The elements that are held, in the order of the nodes. -/
def held (f : FifoPipeline T) : List T := f.nodes.reduceOption

/-- The length counts the nodes, and is in its bounds. -/
structure Sized (f : FifoPipeline T) : Prop where
  length : f.m_length = f.nodes.length
  min : f.m_min_len ≤ f.m_length
  max : f.m_length ≤ f.m_max_len

/-- The next push gets a node of its own. -/
def Appends (f : FifoPipeline T) : Prop := f.tailNull = false ∨ f.m_length < f.m_min_len

variable {f f' : FifoPipeline T} {data : Option T}

theorem tailNull_iff : f.tailNull = true ↔ ∃ front, f.nodes = front ++ [none] := by
  unfold tailNull
  rw [Option.any_eq_true]
  constructor
  · rintro ⟨tail, hlast, hnull⟩
    rw [Option.isNone_iff_eq_none] at hnull
    subst hnull
    exact ⟨_, (List.dropLast_append_getLast? _ hlast).symm⟩
  · rintro ⟨front, h⟩
    exact ⟨none, by rw [h, List.getLast?_append]; rfl, rfl⟩

theorem push_append (hroom : f.m_length < f.m_max_len) (happend : f.Appends) :
    f.push data = some { f with
      nodes := f.nodes ++ [data]
      m_length := f.m_length + 1
      m_n_element := f.m_n_element + 1 } := by
  unfold Appends tailNull at happend
  unfold push
  rw [if_neg (by omega)]
  cases hlast : f.nodes.getLast? with
  | none => simp [List.getLast?_eq_none_iff.mp hlast]
  | some tail =>
    rw [hlast] at happend
    have htail : tail.isSome = true ∨ f.m_length < f.m_min_len := by
      cases tail with
      | none => simpa using happend
      | some x => exact .inl rfl
    simp only [htail, if_true]

theorem push_over (hroom : f.m_length < f.m_max_len) (happend : ¬ f.Appends) :
    f.push data = some { f with nodes := f.nodes.dropLast ++ [data] } := by
  unfold Appends at happend
  rw [not_or, Bool.not_eq_false, tailNull_iff] at happend
  obtain ⟨⟨front, hnodes⟩, hmin⟩ := happend
  have hlast : f.nodes.getLast? = some none := by
    rw [hnodes, List.getLast?_append]
    rfl
  unfold push
  rw [if_neg (by omega), hlast]
  simp [hmin]

theorem pushDelay_eq (hroom : f.m_length < f.m_max_len) (hmin : f.m_length < f.m_min_len) :
    f.pushDelay = some { f with nodes := f.nodes ++ [none], m_length := f.m_length + 1 } := by
  unfold pushDelay
  rw [push_append hroom (.inr hmin), Option.map_some]
  simp

theorem grow_eq {fuel : Nat} (hmax : f.m_min_len ≤ f.m_max_len)
    (hfuel : f.m_min_len - f.m_length = fuel) :
    grow fuel f = some { f with
      nodes := f.nodes ++ List.replicate fuel none
      m_length := f.m_length + fuel } := by
  induction fuel generalizing f with
  | zero =>
    unfold grow
    rw [if_neg (by omega)]
    simp
  | succ fuel ih =>
    unfold grow
    rw [if_pos (by omega), pushDelay_eq (by omega) (by omega), Option.bind_some]
    refine (ih ?_ ?_).trans ?_
    · exact hmax
    · simp only
      omega
    · simp only [List.append_assoc, List.singleton_append, ← List.replicate_succ]
      congr 2
      omega

theorem pushNulls_eq {n : Nat} (hmax : f.m_min_len ≤ f.m_max_len)
    (hn : f.m_length + n = f.m_min_len) :
    pushNulls n f = some { f with
      nodes := f.nodes ++ List.replicate n none
      m_length := f.m_length + n
      m_n_element := f.m_n_element + UInt32.ofNat n } := by
  induction n generalizing f with
  | zero => simp [pushNulls]
  | succ n ih =>
    unfold pushNulls
    rw [push_append (by omega) (.inr (by omega)), Option.bind_some]
    refine (ih ?_ ?_).trans ?_
    · exact hmax
    · simp only
      omega
    · simp only [List.append_assoc, List.singleton_append, ← List.replicate_succ]
      congr 2
      · omega
      · rw [UInt32.ofNat_add, UInt32.add_assoc, UInt32.add_comm 1]
        rfl

theorem construct_eq {minlen maxlen : Nat} (hmax : 0 < maxlen) (hmin : minlen ≤ maxlen) :
    construct minlen maxlen =
      some (⟨List.replicate minlen (none : Option T), minlen, maxlen, minlen,
        UInt32.ofNat minlen⟩ : FifoPipeline T) := by
  unfold construct
  rw [if_neg (by omega), pushNulls_eq hmin (by simp)]
  simp

theorem pop_nil (h : f.nodes = []) : f.pop = some (none, f) := by
  unfold pop
  rw [h]

/-- A pop takes the head, and keeps the minimum length with a NULL. -/
theorem pop_cons (hf : f.Sized) {next : List (Option T)} (h : f.nodes = data :: next) :
    f.pop = some (data, { f with
      nodes := if next.length < f.m_min_len then next ++ [none] else next
      m_length := if next.length < f.m_min_len then f.m_length else f.m_length - 1
      m_n_element := f.m_n_element - 1 }) := by
  have hlen : f.m_length = next.length + 1 := by rw [hf.length, h, List.length_cons]
  unfold pop
  rw [h]
  simp only [hlen, Nat.add_sub_cancel]
  have hnil : ¬ (next.length = 0 ∧ next ≠ []) := fun hcon =>
    hcon.2 (List.length_eq_zero_iff.mp hcon.1)
  rw [if_neg hnil]
  have hmax := hf.max
  by_cases hshort : next.length < f.m_min_len
  · rw [if_pos ⟨by omega, hshort⟩, pushDelay_eq (by simp only; omega) hshort]
    simp [hshort]
  · rw [if_neg fun hcon => hshort hcon.2]
    simp [hshort]

/-- The NULLs at the tail go, down to the minimum length. Where no node is left the last
of them was popped, and with it the count. -/
structure Trimmed (f g : FifoPipeline T) : Prop where
  nodes : ∃ n, f.nodes = g.nodes ++ List.replicate n none
  length : g.m_length = g.nodes.length
  min : f.m_min_len ≤ g.m_length
  empty : g.nodes = [] ↔ f.nodes = [] ∨ f.m_min_len = 0 ∧ f.held = []
  count : g.m_n_element = if g.nodes = [] ∧ f.nodes ≠ [] then f.m_n_element - 1 else f.m_n_element
  min_len : g.m_min_len = f.m_min_len
  max_len : g.m_max_len = f.m_max_len

theorem Trimmed.refl (hlen : f.m_length = f.nodes.length) (hmin : f.m_min_len ≤ f.m_length)
    (hstop : ¬ (f.m_min_len < f.m_length ∧ f.tailNull = true)) : Trimmed f f where
  nodes := ⟨0, by simp⟩
  length := hlen
  min := hmin
  empty := by
    refine ⟨.inl, fun h => h.elim id fun hnull => ?_⟩
    -- a queue of NULLs has one at its tail
    obtain ⟨n, hn⟩ := (List.reduceOption_eq_nil_iff _).mp hnull.2
    cases n with
    | zero => exact hn
    | succ n =>
      have htail : f.tailNull = true := tailNull_iff.mpr ⟨_, hn.trans List.replicate_succ'⟩
      have hpos : 0 < f.m_length := by
        rw [hlen, hn, List.length_replicate]
        omega
      exact absurd ⟨by omega, htail⟩ hstop
  count := by
    rw [if_neg fun h => h.2 h.1]
  min_len := rfl
  max_len := rfl

theorem trim_spec {fuel : Nat} (hlen : f.m_length = f.nodes.length) (hfuel : f.nodes.length ≤ fuel)
    (hmin : f.m_min_len ≤ f.m_length) : ∃ g, trim fuel f = some g ∧ Trimmed f g := by
  induction fuel generalizing f with
  | zero =>
    have hstop : ¬ (f.m_min_len < f.m_length ∧ f.tailNull = true) := by omega
    unfold trim
    rw [if_neg hstop]
    exact ⟨f, rfl, .refl hlen hmin hstop⟩
  | succ fuel ih =>
    unfold trim
    by_cases hcond : f.m_min_len < f.m_length ∧ f.tailNull = true
    · rw [if_pos hcond]
      obtain ⟨front, hnodes⟩ := tailNull_iff.mp hcond.2
      have hfront : f.nodes.length = front.length + 1 := by simp [hnodes]
      by_cases hone : f.nodes.length = 1
      · -- the last node goes by a pop, which counts
        rw [if_pos hone]
        have hnil : front = [] := List.length_eq_zero_iff.mp (by omega)
        rw [hnil, List.nil_append] at hnodes
        have hmin0 : f.m_min_len = 0 := by omega
        have hpop : f.pop = some (none, { f with
            nodes := [], m_length := 0, m_n_element := f.m_n_element - 1 }) := by
          have hlen1 : f.m_length = 1 := hlen.trans hone
          unfold pop
          rw [hnodes]
          simp [hlen1, hmin0]
        have hstop : ∀ (fuel : Nat) (g : FifoPipeline T), g.m_length = 0 → trim fuel g = some g := by
          intro fuel g hg
          cases fuel <;> unfold trim <;> rw [if_neg (by omega)]
        rw [hpop, Option.map_some, Option.bind_some, hstop _ _ rfl]
        refine ⟨_, rfl, ⟨1, hnodes⟩, rfl, Nat.le_of_eq hmin0, ?_, ?_, rfl, rfl⟩
        · unfold held
          simp [hnodes, hmin0]
        · simp [hnodes]
      · rw [if_neg hone]
        have hdrop : f.nodes.dropLast = front := by rw [hnodes, List.dropLast_concat]
        obtain ⟨g, hrun, hg⟩ := @ih { f with
          nodes := f.nodes.dropLast, m_length := f.m_length - 1 }
          (by simp only [hdrop]; omega) (by simp only [hdrop]; omega) (by simp only; omega)
        refine ⟨g, hrun, ?_, hg.length, hg.min, ?_, ?_, hg.min_len, hg.max_len⟩
        · obtain ⟨n, hn⟩ := hg.nodes
          simp only [hdrop] at hn
          refine ⟨n + 1, ?_⟩
          rw [hnodes, hn, List.append_assoc, List.replicate_succ']
        · rw [hg.empty]
          have hne : front ≠ [] := fun hnil => hone (by rw [hfront, hnil, List.length_nil])
          unfold held
          simp [hnodes, hne, List.reduceOption_append]
        · rw [hg.count]
          have hne : front ≠ [] := fun hnil => hone (by rw [hfront, hnil, List.length_nil])
          simp [hnodes, hne]
    · rw [if_neg hcond]
      exact ⟨f, rfl, .refl hlen hmin hcond⟩

end FifoPipeline

end gpgpu_sim_uvm.delayqueue
