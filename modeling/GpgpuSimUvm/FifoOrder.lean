-- Runs of a `fifo_pipeline`: what goes in comes out in its order after its delay, and
-- where the counter of elements is right.
import GpgpuSimUvm.FifoPipeline
import GpgpuSimUvm.Runs

namespace gpgpu_sim_uvm.delayqueue

namespace FifoPipeline

open runs

/-! ## The calls -/

inductive Call (T : Type) where
  | push (data : Option T)
  | pop
  | set_min_length (new_min_len : Nat)

variable {T : Type}

def Call.isPop : Call T → Bool
  | .pop => true
  | _ => false

/-- What a call pushes, if it is not NULL. -/
def Call.pushed : Call T → List T
  | .push data => data.toList
  | _ => []

/-- The data that a call returns, and the queue after it. -/
def call (f : FifoPipeline T) : Call T → Option (Option T × FifoPipeline T)
  | .push data => (f.push data).map fun f => (none, f)
  | .pop => f.pop
  | .set_min_length new_min_len => (f.set_min_length new_min_len).map fun f => (none, f)

/-- Nothing is pushed into a full queue, and no minimum is above the maximum. -/
def Allows (f : FifoPipeline T) : Call T → Prop
  | .push _ => f.m_length < f.m_max_len
  | .pop => True
  | .set_min_length new_min_len => new_min_len ≤ f.m_max_len

/-- The call moves the counter of elements with the elements: an element gets a new node
and a NULL none, no NULL is popped, and the queue does not lose its last NULLs. -/
def Counted (f : FifoPipeline T) : Call T → Prop
  | .push (some _) => f.Appends
  | .push none => ¬ f.Appends
  | .pop => f.nodes.head? ≠ some none
  | .set_min_length new_min_len => ¬ (new_min_len < f.m_min_len ∧ new_min_len = 0 ∧ f.held = [])

def CountExact (f : FifoPipeline T) : Prop := f.m_n_element.toNat = f.held.length

/-- What a call makes of the queue. -/
structure Called (f : FifoPipeline T) (c : Call T) (r : Option T × FifoPipeline T) : Prop where
  sized : r.2.Sized
  max_len : r.2.m_max_len = f.m_max_len
  held : r.1.toList ++ r.2.held = f.held ++ c.pushed
  moves : ∀ k x, f.nodes[if c.isPop then k + 1 else k]? = some (some x) →
    r.2.nodes[k]? = some (some x)
  head : c.isPop = true → ∀ x, f.nodes[0]? = some (some x) → r.1 = some x
  count : f.CountExact → (r.2.CountExact ↔ f.Counted c)

variable {f : FifoPipeline T}

theorem toNat_add_one {a : UInt32} (h : a.toNat + 1 < 2 ^ 32) : (a + 1).toNat = a.toNat + 1 := by
  rw [UInt32.toNat_add]
  exact Nat.mod_eq_of_lt (by simpa using h)

theorem toNat_sub_one {a : UInt32} (h : 0 < a.toNat) : (a - 1).toNat = a.toNat - 1 := by
  have hle : (1 : UInt32) ≤ a := UInt32.le_iff_toNat_le.mpr h
  rw [UInt32.toNat_sub_of_le _ _ hle]
  rfl

/-- A decrement changes the counter, also where it wraps. -/
theorem toNat_sub_one_ne (a : UInt32) : (a - 1).toNat ≠ a.toNat := by
  intro h
  have hzero := UInt32.toNat_inj.mp h
  have : a - 1 + 1 = a + 1 := by rw [hzero]
  rw [UInt32.sub_add_cancel] at this
  have hone : a + 0 = a + 1 := by rw [UInt32.add_zero]; exact this
  exact absurd (UInt32.add_right_inj a |>.mp hone) (by decide)

theorem held_length_le (f : FifoPipeline T) : f.held.length ≤ f.nodes.length :=
  List.reduceOption_length_le _

theorem push_called (hf : f.Sized) (h32 : f.m_max_len < 2 ^ 32) {data : Option T}
    (hroom : f.m_length < f.m_max_len) :
    ∃ f', f.push data = some f' ∧ Called f (.push data) (none, f') := by
  have hlen := hf.length
  have hmin := hf.min
  have hle := held_length_le f
  by_cases happend : f.Appends
  · refine ⟨_, push_append hroom happend, ⟨by simp [hlen], by simp only; omega, by simp only; omega⟩,
      rfl, ?_, ?_, by simp [Call.isPop], ?_⟩
    · cases data <;> simp [held, Call.pushed, List.reduceOption]
    · intro k x hk
      simp only [Call.isPop, Bool.false_eq_true, if_false] at hk
      have hklt := (List.getElem?_eq_some_iff.mp hk).1
      simp only [List.getElem?_append_left hklt, hk]
    · intro hcount
      unfold CountExact at hcount ⊢
      have hnext : (f.m_n_element + 1).toNat = f.held.length + 1 := by
        rw [toNat_add_one (by omega), hcount]
      cases data <;> simp [hnext, held, Counted, happend, List.reduceOption]
  · obtain ⟨front, hnodes⟩ : ∃ front, f.nodes = front ++ [none] := by
      unfold Appends at happend
      rw [not_or, Bool.not_eq_false, tailNull_iff] at happend
      exact happend.1
    have hheld : f.held = front.reduceOption := by
      simp [held, hnodes, List.reduceOption_append]
    refine ⟨_, push_over hroom happend, ⟨?_, hmin, by simp only; omega⟩, rfl, ?_, ?_,
      by simp [Call.isPop], ?_⟩
    · simp [hlen, hnodes]
    · rw [hheld]
      cases data <;> simp [held, hnodes, Call.pushed, List.reduceOption]
    · intro k x hk
      simp only [Call.isPop, Bool.false_eq_true, if_false, hnodes] at hk
      simp only [hnodes, List.dropLast_concat]
      -- the node that is written over was NULL
      rcases Nat.lt_or_ge k front.length with hlt | hge
      · rw [List.getElem?_append_left hlt] at hk ⊢
        exact hk
      · rw [List.getElem?_append_right hge] at hk
        rcases Nat.eq_zero_or_pos (k - front.length) with h0 | h0
        · simp [h0] at hk
        · rw [List.getElem?_eq_none (by simp; omega)] at hk
          cases hk
    · intro hcount
      unfold CountExact at hcount ⊢
      rw [hheld] at hcount
      cases data <;> simp [held, hnodes, hcount, Counted, happend, List.reduceOption]

theorem pop_called (hf : f.Sized) : ∃ r, f.pop = some r ∧ Called f .pop r := by
  cases hnodes : f.nodes with
  | nil =>
    refine ⟨_, pop_nil hnodes, hf, rfl, ?_, ?_, ?_, ?_⟩
    · simp [Call.pushed]
    · intro k x hk
      simp [hnodes] at hk
    · intro _ x hx
      simp [hnodes] at hx
    · intro hcount
      simp [hcount, Counted, hnodes]
  | cons data next =>
    have hlen : f.m_length = next.length + 1 := by rw [hf.length, hnodes, List.length_cons]
    have hmin := hf.min
    have hmax := hf.max
    have hheld : f.held = data.toList ++ next.reduceOption := by
      cases data <;> simp [held, hnodes, List.reduceOption]
    have hrest : (if next.length < f.m_min_len then next ++ [none] else next).reduceOption =
        next.reduceOption := by
      split <;> simp [List.reduceOption_append]
    refine ⟨_, pop_cons hf hnodes, ⟨?_, ?_, ?_⟩, rfl, ?_, ?_, ?_, ?_⟩
    · dsimp only
      split
      · rw [List.length_append]
        exact hlen
      · omega
    · dsimp only
      split <;> omega
    · dsimp only
      split <;> omega
    · rw [hheld]
      simp only [held, hrest, Call.pushed, List.append_nil]
    · intro k x hk
      simp only [Call.isPop, if_true, hnodes, List.getElem?_cons_succ] at hk
      have hklt := (List.getElem?_eq_some_iff.mp hk).1
      simp only
      split
      · rw [List.getElem?_append_left hklt, hk]
      · exact hk
    · intro _ x hx
      simpa [hnodes] using hx
    · intro hcount
      unfold CountExact at hcount ⊢
      rw [hheld] at hcount
      simp only [held, hrest]
      cases data with
      | none =>
        have hne := toNat_sub_one_ne f.m_n_element
        rw [hcount] at hne
        simpa [Counted, hnodes] using hne
      | some x =>
        have hsub : (f.m_n_element - 1).toNat = next.reduceOption.length := by
          rw [toNat_sub_one (by rw [hcount]; simp), hcount]
          simp
        simp [hsub, Counted, hnodes]

theorem set_min_length_called (hf : f.Sized) {n : Nat} (hn : n ≤ f.m_max_len) :
    ∃ f', f.set_min_length n = some f' ∧ Called f (.set_min_length n) (none, f') := by
  have hlen := hf.length
  have hmin := hf.min
  have hmax := hf.max
  unfold set_min_length
  rcases Nat.lt_trichotomy n f.m_min_len with hlt | heq | hgt
  · have hne : f.nodes ≠ [] := fun hnil => by
      rw [hnil, List.length_nil] at hlen
      omega
    rw [if_neg (by omega), if_neg (by omega), if_neg hne]
    obtain ⟨g, hrun, hg⟩ := @trim_spec T { f with m_min_len := n } f.nodes.length hlen
      (Nat.le_refl _) (by simp only; omega)
    obtain ⟨m, hm⟩ := hg.nodes
    have hheld : f.held = g.held := by
      simp only at hm
      simp [held, hm, List.reduceOption_append]
    have hshort : g.m_length ≤ f.m_length := by
      have := congrArg List.length hm
      simp only [List.length_append] at this
      rw [hg.length, hlen]
      omega
    refine ⟨g, hrun, ⟨hg.length, ?_, ?_⟩, hg.max_len, ?_, ?_, by simp [Call.isPop], ?_⟩
    · rw [hg.min_len]
      exact hg.min
    · rw [hg.max_len]
      exact Nat.le_trans hshort hmax
    · simp [hheld, Call.pushed]
    · intro k x hk
      simp only [Call.isPop, Bool.false_eq_true, if_false] at hk
      simp only at hm
      rw [hm] at hk
      rcases Nat.lt_or_ge k g.nodes.length with hklt | hge
      · rwa [List.getElem?_append_left hklt] at hk
      · rw [List.getElem?_append_right hge, List.getElem?_replicate] at hk
        split at hk <;> simp at hk
    · intro hcount
      have hempty : g.nodes = [] ∧ f.nodes ≠ [] ↔ n = 0 ∧ f.held = [] := by
        rw [hg.empty]
        simp [hne, held]
      unfold CountExact at hcount ⊢
      simp only [hg.count, hempty, ← hheld, Counted, hlt, true_and]
      by_cases hlast : n = 0 ∧ f.held = []
      · have := toNat_sub_one_ne f.m_n_element
        simp only [hlast, and_self, if_true, not_true_eq_false, iff_false]
        rw [← hlast.2, ← hcount]
        exact this
      · simp only [hlast, if_false, not_false_eq_true, iff_true]
        exact hcount
  · rw [if_pos heq]
    refine ⟨f, rfl, hf, rfl, by simp [Call.pushed], ?_, by simp [Call.isPop], ?_⟩
    · intro k x hk
      simpa [Call.isPop] using hk
    · intro hcount
      simp [hcount, Counted, heq]
  · rw [if_neg (by omega), if_pos hgt]
    refine ⟨_, grow_eq hn rfl, ⟨by simp [hlen], by simp only; omega, by simp only; omega⟩, rfl, ?_,
      ?_, by simp [Call.isPop], ?_⟩
    · simp [held, Call.pushed, List.reduceOption_append]
    · intro k x hk
      simp only [Call.isPop, Bool.false_eq_true, if_false] at hk
      have hklt := (List.getElem?_eq_some_iff.mp hk).1
      simp only [List.getElem?_append_left hklt, hk]
    · intro hcount
      unfold CountExact at hcount ⊢
      simp [held, hcount, Counted, List.reduceOption_append, Nat.not_lt_of_lt hgt]

/-- Every allowed call goes through, and does what it should. -/
theorem call_called (hf : f.Sized) (h32 : f.m_max_len < 2 ^ 32) {c : Call T} (hc : f.Allows c) :
    ∃ r, f.call c = some r ∧ Called f c r := by
  cases c with
  | push data =>
    obtain ⟨f', hrun, hcalled⟩ := @push_called T f hf h32 data hc
    exact ⟨_, by rw [call, hrun, Option.map_some], hcalled⟩
  | pop => exact pop_called hf
  | set_min_length n =>
    obtain ⟨f', hrun, hcalled⟩ := set_min_length_called hf hc
    exact ⟨_, by rw [call, hrun, Option.map_some], hcalled⟩

/-! ## The runs -/

/-- A queue, with the elements that were pushed and popped so far. -/
structure Log (T : Type) where
  fifo : FifoPipeline T
  pushed : List T
  popped : List T

def Log.step (h : Log T) (c : Call T) : Option (Log T) :=
  (h.fifo.call c).map fun r => ⟨r.2, h.pushed ++ c.pushed, h.popped ++ r.1.toList⟩

def start (minlen maxlen : Nat) : Option (Log T) :=
  (construct minlen maxlen).map fun f => ⟨f, [], []⟩

def Log.run (h : Log T) (calls : List (Call T)) : Option (Log T) := calls.foldlM Log.step h

/-- An element with `k` nodes before it comes out of the pop after `k` more. -/
def Log.Delays (h : Log T) : Prop :=
  ∀ k x, h.fifo.nodes[k]? = some (some x) → ∀ calls, EachCall Log.step (·.fifo.Allows ·) h calls →
    calls.countP Call.isPop = k → ∃ h' f, h.run calls = some h' ∧ h'.fifo.pop = some (some x, f)

/-- Order, lengths and delay. -/
structure Log.Ordered (h : Log T) : Prop where
  sized : h.fifo.Sized
  order : h.popped ++ h.fifo.held = h.pushed
  delays : h.Delays
  last : ∀ x f, h.fifo.push (some x) = some f → f.nodes.getLast? = some (some x)

theorem Log.delays (h : Log T) (hs : h.fifo.Sized) (h32 : h.fifo.m_max_len < 2 ^ 32) :
    h.Delays := by
  intro k x hk calls hcalls hcount
  induction calls generalizing h k with
  | nil =>
    simp only [List.countP_nil] at hcount
    obtain ⟨r, hrun, hr⟩ := pop_called hs
    have hhead := hr.head rfl x (hcount ▸ hk)
    exact ⟨h, r.2, rfl, by rw [hrun, ← hhead]⟩
  | cons c calls ih =>
    obtain ⟨hallow, hrest⟩ := hcalls
    obtain ⟨r, hcall, hr⟩ := call_called hs h32 hallow
    have hstep : h.step c = some ⟨r.2, h.pushed ++ c.pushed, h.popped ++ r.1.toList⟩ := by
      rw [Log.step, hcall, Option.map_some]
    have hmoved : ∃ j, calls.countP Call.isPop = j ∧ r.2.nodes[j]? = some (some x) := by
      refine ⟨_, rfl, hr.moves _ x ?_⟩
      rw [List.countP_cons] at hcount
      cases hpop : c.isPop with
      | true =>
        simp only [hpop, if_true] at hcount ⊢
        rwa [hcount]
      | false =>
        simp only [hpop, Bool.false_eq_true, if_false, Nat.add_zero] at hcount ⊢
        rwa [hcount]
    obtain ⟨j, hj, hnode⟩ := hmoved
    obtain ⟨h', f, hrun, hpop⟩ := ih ⟨r.2, h.pushed ++ c.pushed, h.popped ++ r.1.toList⟩ hr.sized
      (hr.max_len ▸ h32) j hnode (hrest _ hstep) hj
    refine ⟨h', f, ?_, hpop⟩
    rw [Log.run, List.foldlM_cons, hstep]
    exact hrun

/-- A pushed element is the last. -/
theorem push_last {x : T} {f' : FifoPipeline T} (h : f.push (some x) = some f') :
    f'.nodes.getLast? = some (some x) := by
  have hroom : f.m_length < f.m_max_len := by
    unfold push at h
    split at h
    · cases h
    · omega
  by_cases happend : f.Appends
  · rw [push_append hroom happend] at h
    cases h
    simp
  · rw [push_over hroom happend] at h
    cases h
    simp

/-- What every allowed call keeps. -/
structure Log.Kept (maxlen : Nat) (h : Log T) : Prop where
  sized : h.fifo.Sized
  max_len : h.fifo.m_max_len = maxlen
  order : h.popped ++ h.fifo.held = h.pushed

theorem Log.Kept.ordered {maxlen : Nat} {h : Log T} (hk : h.Kept maxlen) (h32 : maxlen < 2 ^ 32) :
    h.Ordered :=
  ⟨hk.sized, hk.order, h.delays hk.sized (hk.max_len ▸ h32), fun _ _ hpush => push_last hpush⟩

theorem Log.Kept.step {maxlen : Nat} {h : Log T} (hk : h.Kept maxlen) (h32 : maxlen < 2 ^ 32)
    {c : Call T} (hc : h.fifo.Allows c) : ∃ h', h.step c = some h' ∧ h'.Kept maxlen ∧
      (h.fifo.CountExact → (h'.fifo.CountExact ↔ h.fifo.Counted c)) := by
  obtain ⟨r, hcall, hr⟩ := call_called hk.sized (hk.max_len ▸ h32) hc
  refine ⟨_, by rw [Log.step, hcall, Option.map_some], ⟨hr.sized, hr.max_len.trans hk.max_len, ?_⟩,
    hr.count⟩
  simp only
  rw [List.append_assoc, hr.held, ← hk.order, List.append_assoc]

theorem start_kept {minlen maxlen : Nat} (hmax : 0 < maxlen) (hmin : minlen ≤ maxlen)
    (h32 : maxlen < 2 ^ 32) : ∃ h : Log T, start minlen maxlen = some h ∧ h.Kept maxlen ∧
      (h.fifo.CountExact ↔ minlen = 0) := by
  refine ⟨_, by rw [start, construct_eq hmax hmin, Option.map_some],
    ⟨⟨by simp, Nat.le_refl _, hmin⟩, rfl, by simp [held]⟩, ?_⟩
  unfold CountExact
  simp only [held, List.reduceOption_replicate_none, List.length_nil, UInt32.toNat_ofNat']
  omega

/-- In every run of allowed calls the elements come out in their order after their delay
and the lengths hold. The counter is right in every state exactly where the queue starts
without a minimum length and every call is counted. -/
theorem fifo_pipeline_iff {minlen maxlen : Nat} (hmax : 0 < maxlen) (hmin : minlen ≤ maxlen)
    (h32 : maxlen < 2 ^ 32) (calls : List (Call T))
    (hcalls : ∀ h, start minlen maxlen = some h →
      EachCall Log.step (·.fifo.Allows ·) h calls) :
    (∃ h, start minlen maxlen = some h ∧
        Always Log.step (fun h => h.Ordered ∧ h.fifo.CountExact) h calls) ↔
      minlen = 0 ∧ ∀ h, start minlen maxlen = some h →
        EachCall Log.step (·.fifo.Counted ·) h calls := by
  obtain ⟨h₀, hstart, hkept, hcount⟩ := start_kept (T := T) hmax hmin h32
  have hrun := hcalls h₀ hstart
  have hkeep : ∀ (h : Log T) c, h.Kept maxlen → h.fifo.Allows c →
      ∃ h', h.step c = some h' ∧ h'.Kept maxlen := by
    intro h c hk hc
    obtain ⟨h', hstep, hk', -⟩ := hk.step h32 hc
    exact ⟨h', hstep, hk'⟩
  have hiff : ∀ (h : Log T) c h', h.Kept maxlen → h.fifo.Allows c → h.fifo.CountExact →
      h.step c = some h' → (h'.fifo.CountExact ↔ h.fifo.Counted c) := by
    intro h c h' hk hc hexact hstep
    obtain ⟨t, ht, -, hcounted⟩ := hk.step h32 hc
    obtain rfl : h' = t := Option.some.inj (hstep.symm.trans ht)
    exact hcounted hexact
  constructor
  · rintro ⟨h, hs, halways⟩
    obtain rfl : h₀ = h := Option.some.inj (hstart.symm.trans hs)
    have hexact := halways.imp fun _ hh => hh.2
    refine ⟨hcount.mp hexact.start, fun h hs => ?_⟩
    obtain rfl : h₀ = h := Option.some.inj (hstart.symm.trans hs)
    exact (always_iff_eachCall hkeep hiff hkept hexact.start hrun).mp hexact
  · rintro ⟨hzero, hcounted⟩
    have hexact := (always_iff_eachCall hkeep hiff hkept (hcount.mpr hzero) hrun).mpr
      (hcounted h₀ hstart)
    have hordered := (always_of_kept hkeep hkept hrun).imp fun _ hk => hk.ordered h32
    exact ⟨h₀, hstart, hordered.and hexact⟩

/-- Two elements through a queue of two nodes without delay. -/
theorem two_elements_pass : ∃ h : Log Nat, start 0 2 = some h ∧
    Always Log.step (fun h => h.Ordered ∧ h.fifo.CountExact) h
      [.push (some 7), .push (some 8), .pop, .pop] := by
  have hallow : ∀ h : Log Nat, start 0 2 = some h → EachCall Log.step (·.fifo.Allows ·) h
      [.push (some 7), .push (some 8), .pop, .pop] := by
    rintro h hs
    obtain rfl := Option.some.inj hs
    exact .cons (show 0 < 2 by omega) rfl <| .cons (show 1 < 2 by omega) rfl <|
      .cons trivial rfl <| .cons trivial rfl trivial
  refine (fifo_pipeline_iff (by omega) (by omega) (by omega) _ hallow).mpr ⟨rfl, ?_⟩
  rintro h hs
  obtain rfl := Option.some.inj hs
  exact .cons (.inl rfl) rfl <| .cons (.inl rfl) rfl <|
    .cons (by simp [Counted]) rfl <| .cons (by simp [Counted]) rfl trivial

/-- A queue with a minimum length starts with its NULLs counted, and one that is given it
later counts a popped NULL down from 0. -/
theorem delays_are_miscounted :
    (¬ ∃ h : Log Nat, start 1 2 = some h ∧
      Always Log.step (fun h => h.Ordered ∧ h.fifo.CountExact) h []) ∧
    ((start 0 2).bind (Log.run · [.set_min_length 1, .pop])).map
      (fun h : Log Nat => (h.fifo.m_n_element, h.fifo.held)) = some (4294967295, []) := by
  refine ⟨?_, rfl⟩
  rintro ⟨h, hs, -, hexact⟩
  obtain rfl := Option.some.inj hs
  change 1 = 0 at hexact
  omega

end FifoPipeline

end gpgpu_sim_uvm.delayqueue
