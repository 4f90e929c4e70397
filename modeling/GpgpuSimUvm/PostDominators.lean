-- Post-dominators of a control-flow graph: the nodes that no walk to the exit
-- can go round.
import Mathlib.Logic.Relation
import Mathlib.Tactic.Common

namespace control_flow

variable {N : Type} (succ : N → N → Prop) (exit : N)

/-- The walks from a node to the exit, with the nodes that they visit. -/
inductive Walk : N → List N → Prop
  | stop : Walk exit [exit]
  | step {a b : N} {ns : List N} : succ a b → Walk b ns → Walk a (a :: ns)

/-- Every walk from `a` to the exit visits `d`. -/
def PostDominates (d a : N) : Prop := ∀ ns, Walk succ exit a ns → d ∈ ns

def StrictlyPostDominates (d a : N) : Prop := d ≠ a ∧ PostDominates succ exit d a

/-- `d` is the strict post-dominator of `a` that all others post-dominate, and
the only one. -/
structure ImmediatePostDominator (d a : N) : Prop where
  strict : StrictlyPostDominates succ exit d a
  first : ∀ e, StrictlyPostDominates succ exit e a → PostDominates succ exit e d
  only : ∀ d', StrictlyPostDominates succ exit d' a →
    (∀ e, StrictlyPostDominates succ exit e a → PostDominates succ exit e d') → d' = d

variable {succ exit}

theorem Walk.head_mem {a : N} {ns : List N} (h : Walk succ exit a ns) : a ∈ ns := by
  cases h <;> simp

theorem Walk.exit_mem {a : N} {ns : List N} (h : Walk succ exit a ns) : exit ∈ ns := by
  induction h with
  | stop => simp
  | step _ _ ih => exact List.mem_cons_of_mem _ ih

/-- Only the exit post-dominates the exit. -/
theorem PostDominates.at_exit {d : N} (h : PostDominates succ exit d exit) : d = exit := by
  have := h [exit] .stop
  simpa using this

/-- What post-dominates a node with an edge to the exit is one of the two. -/
theorem StrictlyPostDominates.eq_exit {d a : N} (h : StrictlyPostDominates succ exit d a)
    (hs : succ a exit) : d = exit := by
  have hin := h.2 [a, exit] (.step hs .stop)
  rcases List.mem_cons.mp hin with rfl | hin
  · exact absurd rfl h.1
  · simpa using hin

/-- What post-dominates a node, other than the node, post-dominates its
successors. -/
theorem PostDominates.of_succ {d a b : N} (h : PostDominates succ exit d a) (hne : d ≠ a)
    (hs : succ a b) : PostDominates succ exit d b := by
  intro ns hw
  rcases List.mem_cons.mp (h (a :: ns) (.step hs hw)) with rfl | hin
  · exact absurd rfl hne
  · exact hin

/-- A successor of `a` that strictly post-dominates it is its immediate
post-dominator. -/
theorem ImmediatePostDominator.of_succ {d r a : N} (h : ImmediatePostDominator succ exit d a)
    (hr : StrictlyPostDominates succ exit r a) (hs : succ a r) : r = d := by
  apply h.only r hr
  intro e he
  exact he.2.of_succ he.1 hs

/-! ## The tree of post-dominators -/

theorem PostDominates.refl (a : N) : PostDominates succ exit a a := fun _ hw => hw.head_mem

theorem Walk.head_eq {a : N} {ns : List N} (h : Walk succ exit a ns) : ns.head? = some a := by
  cases h <;> simp

/-- From a node that it visits on, a walk is a walk. -/
theorem Walk.suffix {a c : N} {ns : List N} (h : Walk succ exit a ns) (hc : c ∈ ns) :
    ∃ ms, Walk succ exit c ms ∧ ms <:+ ns := by
  induction h with
  | stop =>
    obtain rfl : c = exit := by simpa using hc
    exact ⟨[c], .stop, List.suffix_rfl⟩
  | step hs hw ih =>
    rename_i a b ns
    rcases List.mem_cons.mp hc with rfl | hc
    · exact ⟨c :: ns, .step hs hw, List.suffix_rfl⟩
    · obtain ⟨ms, hms, hsuf⟩ := ih hc
      exact ⟨ms, hms, hsuf.trans (List.suffix_cons a ns)⟩

/-- The walk on from a later node is shorter. -/
theorem Walk.shorter {a c : N} {ns : List N} (h : Walk succ exit a ns) (hc : c ∈ ns)
    (hne : c ≠ a) : ∃ ms, Walk succ exit c ms ∧ ms.length < ns.length := by
  obtain ⟨ms, hms, hsuf⟩ := h.suffix hc
  refine ⟨ms, hms, Nat.lt_of_le_of_ne hsuf.length_le ?_⟩
  intro hlen
  have hhead := hms.head_eq
  rw [hsuf.eq_of_length hlen, h.head_eq] at hhead
  exact hne (Option.some.inj hhead).symm

theorem PostDominates.trans {e d a : N} (he : PostDominates succ exit e d)
    (hd : PostDominates succ exit d a) : PostDominates succ exit e a := by
  intro ns hw
  obtain ⟨ms, hms, hsuf⟩ := hw.suffix (hd ns hw)
  exact hsuf.subset (he ms hms)

/-- Two nodes that post-dominate one another lie on no walk: from either, the
other would come first. -/
theorem PostDominates.antisymm {d e : N} {ns : List N} (hde : PostDominates succ exit d e)
    (hed : PostDominates succ exit e d) (hw : Walk succ exit d ns) : d = e := by
  by_contra hne
  have hnone : ∀ n ms, Walk succ exit d ms → ms.length < n → False := by
    intro n
    induction n with
    | zero =>
      intro ms _ hlen
      omega
    | succ n ih =>
      intro ms hms hlen
      obtain ⟨ks, hks, hk⟩ := hms.shorter (hed ms hms) (Ne.symm hne)
      obtain ⟨js, hjs, hj⟩ := hks.shorter (hde ks hks) hne
      exact ih js hjs (by omega)
  exact hnone (ns.length + 1) ns hw (Nat.lt_succ_self _)

/-- A node that every node of `S` post-dominates, in `S` or ahead of it, has
one of them nearest. -/
theorem Walk.nearest {S : N → Prop} {x : N} {ns : List N} (hw : Walk succ exit x ns)
    (hexit : S exit) (hS : ∀ e, S e → PostDominates succ exit e x) :
    ∃ d, S d ∧ d ∈ ns ∧ ∀ e, S e → PostDominates succ exit e d := by
  induction hw with
  | stop => exact ⟨exit, hexit, by simp, hS⟩
  | step hs hw ih =>
    rename_i a b ns
    by_cases ha : S a
    · exact ⟨a, ha, by simp, hS⟩
    · have hnext : ∀ e, S e → PostDominates succ exit e b := by
        intro e he
        refine (hS e he).of_succ ?_ hs
        rintro rfl
        exact ha he
      obtain ⟨d, hd, hin, hfirst⟩ := ih hnext
      exact ⟨d, hd, List.mem_cons_of_mem _ hin, hfirst⟩

/-- The exit post-dominates every node. -/
theorem PostDominates.of_exit (a : N) : PostDominates succ exit exit a := fun _ hw => hw.exit_mem

/-- Every node that reaches the exit, other than the exit, has an immediate
post-dominator. -/
theorem Walk.immediatePostDominator {a : N} {ns : List N} (hw : Walk succ exit a ns)
    (hne : a ≠ exit) : ∃ d, ImmediatePostDominator succ exit d a := by
  obtain ⟨d, hd, hin, hfirst⟩ := hw.nearest (S := fun e => StrictlyPostDominates succ exit e a)
    ⟨hne.symm, .of_exit a⟩ (fun e he => he.2)
  refine ⟨d, hd, hfirst, ?_⟩
  intro d' hd' hfirst'
  obtain ⟨ms, hms, -⟩ := hw.suffix (hd'.2 ns hw)
  exact (hfirst d' hd').antisymm (hfirst' d hd) hms

/-- The immediate post-dominator post-dominates none of the others. -/
theorem ImmediatePostDominator.not_beyond {d e a : N} {ns : List N}
    (h : ImmediatePostDominator succ exit d a) (hw : Walk succ exit a ns)
    (he : StrictlyPostDominates succ exit e a) (hne : e ≠ d) :
    ¬ PostDominates succ exit d e := by
  intro hde
  obtain ⟨ms, hms, -⟩ := hw.suffix (h.strict.2 ns hw)
  exact hne (hde.antisymm (h.first e he) hms).symm

/-! ## Dominators: the same, back to the entry -/

/-- The edges, walked backwards. -/
def Back (succ : N → N → Prop) (a b : N) : Prop := succ b a

/-- Every walk from the entry to `b`, told backwards, visits `d`. -/
def Dominates (succ : N → N → Prop) (entry d b : N) : Prop :=
  PostDominates (Back succ) entry d b

/-- `d` is the strict dominator of `b` that all others dominate, and the only
one. -/
def ImmediateDominator (succ : N → N → Prop) (entry d b : N) : Prop :=
  ImmediatePostDominator (Back succ) entry d b

theorem walk_of_reached {entry b : N} (h : Relation.ReflTransGen succ entry b) :
    ∃ ns, Walk (Back succ) entry b ns := by
  induction h with
  | refl => exact ⟨_, .stop⟩
  | tail _ hs ih =>
    obtain ⟨ns, hw⟩ := ih
    exact ⟨_, .step hs hw⟩

theorem Walk.reached {entry b : N} {ns : List N} (hw : Walk (Back succ) entry b ns) :
    Relation.ReflTransGen succ entry b := by
  induction hw with
  | stop => exact .refl
  | step hs _ ih => exact ih.tail hs

/-- What dominates a node that the entry reaches, it reaches too. -/
theorem Dominates.reached {entry d b : N} (h : Dominates succ entry d b)
    (hb : Relation.ReflTransGen succ entry b) : Relation.ReflTransGen succ entry d := by
  obtain ⟨ns, hw⟩ := walk_of_reached hb
  obtain ⟨ms, hms, -⟩ := hw.suffix (h ns hw)
  exact hms.reached

theorem Dominates.antisymm {entry d e : N} (hde : Dominates succ entry d e)
    (hed : Dominates succ entry e d) (hd : Relation.ReflTransGen succ entry d) : d = e := by
  obtain ⟨ns, hw⟩ := walk_of_reached hd
  exact PostDominates.antisymm hde hed hw

/-- Every node that the entry reaches, other than the entry, has an immediate
dominator. -/
theorem immediateDominator_of_reached {entry b : N} (hb : Relation.ReflTransGen succ entry b)
    (hne : b ≠ entry) : ∃ d, ImmediateDominator succ entry d b := by
  obtain ⟨ns, hw⟩ := walk_of_reached hb
  exact hw.immediatePostDominator hne

end control_flow
