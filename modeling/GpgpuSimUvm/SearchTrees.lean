-- `std::map` with a comparator of its own: a search tree whose shape the library
-- rebalances after each insertion. Where the comparator is no strict order of the keys
-- the shape decides what is found; where it is one, only the keys do.
import Mathlib.Data.List.Basic
import Mathlib.Tactic.Common

namespace search_tree

/-! ## The tree -/

inductive Tree (K V : Type) where
  | leaf
  | node (left : Tree K V) (key : K) (value : V) (right : Tree K V)

namespace Tree

variable {K V : Type} (comp : K → K → Bool)

def toList : Tree K V → List (K × V)
  | leaf => []
  | node left key value right => left.toList ++ (key, value) :: right.toList

/-- The last node on the way to `k` that is not less than it. -/
def lowerBound (k : K) : Tree K V → Option (K × V)
  | leaf => none
  | node left key value right =>
    if comp key k then lowerBound k right else (lowerBound k left).or (some (key, value))

/-- None is `end()`. -/
def find (k : K) (t : Tree K V) : Option V :=
  (lowerBound comp k t).bind fun e => if comp k e.1 then none else some e.2

/-- A new node, where the way to `k` ends. -/
def insertAt (k : K) (v : V) : Tree K V → Tree K V
  | leaf => node leaf k v leaf
  | node left key value right =>
    if comp key k then node left key value (insertAt k v right)
    else node (insertAt k v left) key value right

/-- Another value in the node that `lowerBound` finds. None where it finds no node. -/
def modifyAt (k : K) (f : V → V) : Tree K V → Option (Tree K V)
  | leaf => none
  | node left key value right =>
    if comp key k then (modifyAt k f right).map (node left key value ·)
    else
      match modifyAt k f left with
      | some left => some (node left key value right)
      | none => some (node left key (f value) right)

/-- The rotations after an insertion, which keep the order of the nodes. -/
structure Rebalancing (K V : Type) where
  run : Tree K V → Tree K V
  toList_run : ∀ t, (run t).toList = t.toList

/-- `m[k] = f(m[k])`, with `d` as the value of a new node. -/
def index (R : Rebalancing K V) (k : K) (d : V) (f : V → V) (t : Tree K V) : Tree K V :=
  if (find comp k t).isSome then (modifyAt comp k f t).getD t else R.run (insertAt comp k (f d) t)

/-! ## Keys that the comparator orders -/

/-- The comparator tells all keys apart, and orders those of a set. -/
structure Orders (S : K → Prop) : Prop where
  irrefl : ∀ a, comp a a = false
  apart : ∀ a b, comp a b = false → comp b a = false → a = b
  trans : ∀ a b c, S a → S b → S c → comp a b = true → comp b c = true → comp a c = true

/-- The nodes of the tree are in order, with keys from a set. -/
structure Sorted (S : K → Prop) (t : Tree K V) : Prop where
  pairwise : t.toList.Pairwise fun e e' => comp e.1 e'.1 = true
  keys : ∀ e ∈ t.toList, S e.1

variable {comp} {S : K → Prop} {k : K} {t : Tree K V}

theorem Sorted.node {l r : Tree K V} {x : K} {v : V}
    (h : Sorted comp S (.node l x v r)) :
    Sorted comp S l ∧ Sorted comp S r ∧ S x ∧ ∀ e ∈ l.toList, comp e.1 x = true := by
  obtain ⟨hpair, hkeys⟩ := h
  unfold toList at hpair hkeys
  obtain ⟨hl, hr, hlr⟩ := List.pairwise_append.mp hpair
  obtain ⟨-, hr⟩ := List.pairwise_cons.mp hr
  refine ⟨⟨hl, fun e he => hkeys e (by simp [he])⟩, ⟨hr, fun e he => hkeys e (by simp [he])⟩,
    hkeys (x, v) (by simp), fun e he => hlr e he (x, v) (by simp)⟩

/-- What is found lies in the tree under the key, for any shape. -/
theorem mem_of_lowerBound {e : K × V} (h : lowerBound comp k t = some e) :
    e ∈ t.toList ∧ comp e.1 k = false := by
  induction t with
  | leaf => cases h
  | node left key value right ihl ihr =>
    unfold lowerBound at h
    unfold toList
    split at h
    · obtain ⟨hmem, hcomp⟩ := ihr h
      exact ⟨by simp [hmem], hcomp⟩
    · rename_i hkey
      rcases Option.or_eq_some_iff.mp h with h | ⟨-, h⟩
      · obtain ⟨hmem, hcomp⟩ := ihl h
        exact ⟨by simp [hmem], hcomp⟩
      · cases h
        exact ⟨by simp, by simpa using hkey⟩

theorem mem_of_find (hord : Orders comp S) {v : V} (h : find comp k t = some v) :
    (k, v) ∈ t.toList := by
  obtain ⟨e, he, hv⟩ := Option.bind_eq_some_iff.mp h
  split at hv
  · cases hv
  · rename_i hk
    cases hv
    obtain ⟨hmem, hcomp⟩ := mem_of_lowerBound he
    rwa [hord.apart k e.1 (by simpa using hk) hcomp]

/-- Where the way to `k` leads in the order of the nodes. -/
theorem Sorted.way (hord : Orders comp S) (hk : S k) (h : Sorted comp S t) :
    ∃ front back, t.toList = front ++ back ∧ (∀ e ∈ front, comp e.1 k = true) ∧
      (∀ e ∈ back.head?, comp e.1 k = false) ∧ lowerBound comp k t = back.head? ∧
      (∀ v, (insertAt comp k v t).toList = front ++ (k, v) :: back) ∧
      ∀ f, (modifyAt comp k f t).map toList =
        back.head?.map fun e => front ++ (e.1, f e.2) :: back.tail := by
  induction t with
  | leaf => exact ⟨[], [], rfl, by simp, by simp, rfl, fun _ => rfl, fun _ => rfl⟩
  | node left key value right ihl ihr =>
    obtain ⟨hl, hr, hkey, hless⟩ := h.node
    unfold lowerBound insertAt modifyAt toList
    by_cases hcomp : comp key k = true
    · obtain ⟨front, back, hlist, hfront, hback, hbound, hins, hmod⟩ := ihr hr
      refine ⟨left.toList ++ (key, value) :: front, back, ?_, ?_, hback, ?_, ?_, ?_⟩
      · rw [hlist]
        simp
      · intro e he
        rcases List.mem_append.mp he with he | he
        · exact hord.trans _ _ _ (hl.keys e he) hkey hk (hless e he) hcomp
        · rcases List.mem_cons.mp he with rfl | he
          · exact hcomp
          · exact hfront e he
      · rw [if_pos hcomp, hbound]
      · intro v
        simp [hcomp, hins]
      · intro f
        have hright := hmod f
        rw [if_pos hcomp, Option.map_map]
        cases hhead : back.head? with
        | none =>
          rw [hhead, Option.map_none, Option.map_eq_none_iff] at hright
          simp [hright]
        | some e =>
          rw [hhead, Option.map_some] at hright
          obtain ⟨r', hr', hlist'⟩ := Option.map_eq_some_iff.mp hright
          simp [hr', toList, hlist']
    · obtain ⟨front, back, hlist, hfront, hback, hbound, hins, hmod⟩ := ihl hl
      refine ⟨front, back ++ (key, value) :: right.toList, ?_, hfront, ?_, ?_, ?_, ?_⟩
      · rw [hlist]
        simp
      · intro e he
        cases back with
        | nil =>
          rw [List.nil_append, List.head?_cons, Option.mem_some_iff] at he
          rw [← he]
          simpa using hcomp
        | cons b back => exact hback e (by simpa using he)
      · rw [if_neg hcomp, hbound]
        cases back <;> rfl
      · intro v
        simp [hcomp, hins]
      · intro f
        have hleft := hmod f
        rw [if_neg hcomp]
        cases back with
        | nil =>
          simp only [List.head?_nil, Option.map_none, Option.map_eq_none_iff] at hleft
          simp only [List.append_nil] at hlist
          simp [hleft, toList, hlist]
        | cons b back =>
          simp only [List.head?_cons, Option.map_some, List.tail_cons] at hleft
          obtain ⟨l', hl', hlist'⟩ := Option.map_eq_some_iff.mp hleft
          simp [hl', toList, hlist']

theorem find_iff (hord : Orders comp S) (hk : S k) (h : Sorted comp S t) {v : V} :
    find comp k t = some v ↔ (k, v) ∈ t.toList := by
  refine ⟨mem_of_find hord, fun hmem => ?_⟩
  obtain ⟨front, back, hlist, hfront, hback, hbound, -, -⟩ := h.way hord hk
  have hin : (k, v) ∈ back := by
    rw [hlist] at hmem
    rcases List.mem_append.mp hmem with hmem | hmem
    · have := hfront _ hmem
      rw [hord.irrefl] at this
      cases this
    · exact hmem
  -- the first node that is not less than the key is its node
  have hhead : back.head? = some (k, v) := by
    cases back with
    | nil => simp at hin
    | cons b back =>
      rcases List.mem_cons.mp hin with rfl | hin
      · rfl
      · have hpair := h.pairwise
        rw [hlist] at hpair
        have hb := (List.pairwise_cons.mp (List.pairwise_append.mp hpair).2.1).1 _ hin
        rw [hback b rfl] at hb
        cases hb
  unfold find
  rw [hbound, hhead, Option.bind_some, if_neg (by simp [hord.irrefl])]

/-- A tree whose nodes are those of two parts, with one for the key between them. -/
theorem Sorted.placed (hord : Orders comp S) (hk : S k) {front rest : List (K × V)} {v : V}
    (hlist : t.toList = front ++ (k, v) :: rest)
    (hpair : (front ++ rest).Pairwise fun e e' => comp e.1 e'.1 = true)
    (hkeys : ∀ e ∈ front ++ rest, S e.1) (hfront : ∀ e ∈ front, comp e.1 k = true)
    (hrest : ∀ e ∈ rest, comp k e.1 = true) :
    Sorted comp S t ∧ ∀ e, e ∈ t.toList ↔ e.1 ≠ k ∧ e ∈ front ++ rest ∨ e = (k, v) := by
  obtain ⟨hpf, hpr, hfr⟩ := List.pairwise_append.mp hpair
  refine ⟨⟨?_, fun e he => ?_⟩, fun e => ?_⟩
  · rw [hlist]
    refine List.pairwise_append.mpr ⟨hpf, List.pairwise_cons.mpr ⟨hrest, hpr⟩, ?_⟩
    intro a ha b hb
    rcases List.mem_cons.mp hb with rfl | hb
    · exact hfront a ha
    · exact hfr a ha b hb
  · rw [hlist] at he
    rcases List.mem_append.mp he with he | he
    · exact hkeys e (by simp [he])
    · rcases List.mem_cons.mp he with rfl | he
      · exact hk
      · exact hkeys e (by simp [he])
  · rw [hlist]
    simp only [List.mem_append, List.mem_cons]
    constructor
    · rintro (he | rfl | he)
      · refine .inl ⟨?_, .inl he⟩
        rintro rfl
        simpa [hord.irrefl] using hfront e he
      · exact .inr rfl
      · refine .inl ⟨?_, .inr he⟩
        rintro rfl
        simpa [hord.irrefl] using hrest e he
    · rintro (⟨-, he | he⟩ | rfl)
      · exact .inl he
      · exact .inr (.inr he)
      · exact .inr (.inl rfl)

/-- What `m[k] = f(m[k])` leaves in the tree. -/
theorem Sorted.index (R : Rebalancing K V) (hord : Orders comp S) (hk : S k)
    (h : Sorted comp S t) (d : V) (f : V → V) :
    Sorted comp S (index comp R k d f t) ∧ ∀ e, e ∈ (Tree.index comp R k d f t).toList ↔
      e.1 ≠ k ∧ e ∈ t.toList ∨ e = (k, f ((find comp k t).getD d)) := by
  obtain ⟨front, back, hlist, hfront, hback, hbound, hins, hmod⟩ := h.way hord hk
  have hpair := h.pairwise
  have hkeys := h.keys
  rw [hlist] at hpair hkeys
  unfold Tree.index
  cases hfind : find comp k t with
  | some v =>
    obtain ⟨e, he, hval⟩ := Option.bind_eq_some_iff.mp hfind
    rw [hbound] at he
    have hek : e = (k, v) := by
      split at hval
      · cases hval
      · rename_i hcomp
        cases hval
        rw [hord.apart k e.1 (by simpa using hcomp) (hback e he)]
    subst hek
    obtain ⟨rest, rfl⟩ : ∃ rest, back = (k, v) :: rest := by
      cases back with
      | nil => cases he
      | cons b rest =>
        cases he
        exact ⟨rest, rfl⟩
    obtain ⟨t', ht', hlist'⟩ := Option.map_eq_some_iff.mp (hmod f)
    have hsub : (front ++ rest).Sublist (front ++ (k, v) :: rest) :=
      (List.Sublist.refl _).append (List.sublist_cons_self _ _)
    have hrest := (List.pairwise_cons.mp (List.pairwise_append.mp hpair).2.1).1
    obtain ⟨hsorted, hmem⟩ := Sorted.placed hord hk hlist' (hpair.sublist hsub)
      (fun e he => hkeys e (hsub.subset he)) hfront hrest
    rw [Option.isSome_some, if_pos rfl, ht', Option.getD_some, Option.getD_some]
    refine ⟨hsorted, fun e => (hmem e).trans (or_congr_left (and_congr_right fun hne => ?_))⟩
    have hother : e ≠ (k, v) := fun heq => hne (by rw [heq])
    simp [hlist, hother]
  | none =>
    have hbackne : ∀ e ∈ back, e.1 ≠ k := by
      rintro e he rfl
      have hmem : (e.1, e.2) ∈ t.toList := by simp [hlist, he]
      rw [(find_iff hord hk h).mpr hmem] at hfind
      cases hfind
    have hrest : ∀ e ∈ back, comp k e.1 = true := by
      cases back with
      | nil => simp
      | cons b back =>
        have hkb : comp k b.1 = true := by
          by_contra hcon
          exact hbackne b (by simp) (hord.apart k b.1 (by simpa using hcon) (hback b rfl)).symm
        intro e he
        rcases List.mem_cons.mp he with rfl | he
        · exact hkb
        · have hbe := (List.pairwise_cons.mp (List.pairwise_append.mp hpair).2.1).1 e he
          exact hord.trans _ _ _ hk (hkeys b (by simp)) (hkeys e (by simp [he])) hkb hbe
    rw [Option.isSome_none, if_neg (by simp), Option.getD_none, hlist]
    exact Sorted.placed hord hk ((R.toList_run _).trans (hins (f d))) hpair hkeys hfront hrest

end Tree

end search_tree
