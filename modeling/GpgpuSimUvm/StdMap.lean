-- Ordered maps with the operations of `std::map`: `operator[]` finds a key or
-- puts a default there, `erase` takes a key out, and a walk over the map
-- visits the keys in order. The entries are sorted by construction.
import Mathlib.Data.List.Perm.Basic
import Mathlib.Data.List.Count
import Mathlib.Order.Lattice
import Mathlib.Tactic.Common

namespace std_map

variable {K V : Type} [LinearOrder K]

/-! ## Entry lists -/

/-- `m[k] = f(m[k])` on the entries, where a key that is not there starts as `d`. -/
def alterList (k : K) (d : V) (f : V → V) : List (K × V) → List (K × V)
  | [] => [(k, f d)]
  | e :: es =>
    if k < e.1 then (k, f d) :: e :: es
    else if k = e.1 then (k, f e.2) :: es
    else e :: alterList k d f es

/-- The value of the first entry with key `k`. -/
def findList (k : K) : List (K × V) → Option V
  | [] => none
  | e :: es => if k = e.1 then some e.2 else findList k es

def eraseList (k : K) : List (K × V) → List (K × V)
  | [] => []
  | e :: es => if k = e.1 then es else e :: eraseList k es

theorem mem_alterList {k : K} {d : V} {f : V → V} {es : List (K × V)} {x : K × V}
    (h : x ∈ alterList k d f es) : x.1 = k ∨ x ∈ es := by
  induction es with
  | nil => simp [alterList] at h; simp [h]
  | cons e es ih =>
    unfold alterList at h
    split_ifs at h with h1 h2
    · rcases List.mem_cons.mp h with rfl | h
      · exact Or.inl rfl
      · exact Or.inr h
    · rcases List.mem_cons.mp h with rfl | h
      · exact Or.inl rfl
      · exact Or.inr (List.mem_cons_of_mem _ h)
    · rcases List.mem_cons.mp h with rfl | h
      · exact Or.inr List.mem_cons_self
      · exact (ih h).imp id (List.mem_cons_of_mem _)

theorem eraseList_sublist (k : K) (es : List (K × V)) : (eraseList k es).Sublist es := by
  induction es with
  | nil => exact List.Sublist.refl _
  | cons e es ih =>
    unfold eraseList
    split_ifs
    · exact List.sublist_cons_self _ _
    · exact ih.cons_cons _

theorem alterList_sorted {k : K} {d : V} {f : V → V} {es : List (K × V)}
    (h : es.Pairwise (fun a b => a.1 < b.1)) :
    (alterList k d f es).Pairwise (fun a b => a.1 < b.1) := by
  induction es with
  | nil => simp [alterList]
  | cons e es ih =>
    have hes := List.pairwise_cons.mp h
    unfold alterList
    split_ifs with h1 h2
    · refine List.pairwise_cons.mpr ⟨fun a ha => ?_, h⟩
      rcases List.mem_cons.mp ha with rfl | ha
      · exact h1
      · exact h1.trans (hes.1 a ha)
    · subst h2
      exact List.pairwise_cons.mpr ⟨fun a ha => hes.1 a ha, hes.2⟩
    · refine List.pairwise_cons.mpr ⟨fun a ha => ?_, ih hes.2⟩
      rcases mem_alterList ha with rfl | ha
      · exact lt_of_le_of_ne (not_lt.mp h1) (Ne.symm h2)
      · exact hes.1 a ha

theorem findList_eq_none {k : K} {es : List (K × V)} (h : ∀ a ∈ es, k < a.1) :
    findList k es = none := by
  induction es with
  | nil => rfl
  | cons e es ih =>
    simp only [findList, (h e List.mem_cons_self).ne, if_false]
    exact ih (fun a ha => h a (List.mem_cons_of_mem _ ha))

end std_map

open std_map in
/-- A finite map whose entries stand in the order of their keys. -/
structure StdMap (K V : Type) [LinearOrder K] where
  entries : List (K × V)
  sorted : entries.Pairwise (fun a b => a.1 < b.1)

namespace StdMap

open std_map

variable {K V : Type} [LinearOrder K]

def empty : StdMap K V := ⟨[], List.Pairwise.nil⟩

/-- `m[k] = f(m[k])`, with `d` for a key that is not there. -/
def alter (m : StdMap K V) (k : K) (d : V) (f : V → V) : StdMap K V :=
  ⟨alterList k d f m.entries, alterList_sorted m.sorted⟩

def find (m : StdMap K V) (k : K) : Option V := findList k m.entries

/-- `m[k]` as a value, with `d` for a key that is not there. -/
def findD (m : StdMap K V) (k : K) (d : V) : V := (m.find k).getD d

def contains (m : StdMap K V) (k : K) : Bool := (m.find k).isSome

def erase (m : StdMap K V) (k : K) : StdMap K V :=
  ⟨eraseList k m.entries, m.sorted.sublist (eraseList_sublist k m.entries)⟩

def keys (m : StdMap K V) : List K := m.entries.map Prod.fst

def values (m : StdMap K V) : List V := m.entries.map Prod.snd

/-! ## Lookup -/

@[simp] theorem find_empty (k : K) : (empty : StdMap K V).find k = none := rfl

theorem find_alter_self (m : StdMap K V) (k : K) (d : V) (f : V → V) :
    (m.alter k d f).find k = some (f (m.findD k d)) := by
  obtain ⟨es, hs⟩ := m
  simp only [find, alter, findD]
  induction es with
  | nil => simp [alterList, findList]
  | cons e es ih =>
    have hes := List.pairwise_cons.mp hs
    unfold alterList
    split_ifs with h1 h2
    · have hnone : findList k (e :: es) = none := by
        apply findList_eq_none
        intro a ha
        rcases List.mem_cons.mp ha with rfl | ha
        · exact h1
        · exact h1.trans (hes.1 a ha)
      rw [hnone]
      simp [findList]
    · subst h2
      simp [findList]
    · simp only [findList, h2, if_false]
      exact ih hes.2

theorem find_alter_ne (m : StdMap K V) {k j : K} (d : V) (f : V → V) (h : j ≠ k) :
    (m.alter k d f).find j = m.find j := by
  obtain ⟨es, hs⟩ := m
  simp only [find, alter]
  clear hs
  induction es with
  | nil => simp [alterList, findList, h]
  | cons e es ih =>
    unfold alterList
    split_ifs with h1 h2
    · simp [findList, h]
    · subst h2
      simp [findList, h]
    · simp only [findList, ih]

theorem findD_alter_self (m : StdMap K V) (k : K) (d e : V) (f : V → V) :
    (m.alter k d f).findD k e = f (m.findD k d) := by
  simp [findD, find_alter_self]

theorem findD_alter_ne (m : StdMap K V) {k j : K} (d e : V) (f : V → V) (h : j ≠ k) :
    (m.alter k d f).findD j e = m.findD j e := by
  simp [findD, find_alter_ne m d f h]

theorem find_erase_ne (m : StdMap K V) {k j : K} (h : j ≠ k) : (m.erase k).find j = m.find j := by
  obtain ⟨es, hs⟩ := m
  simp only [find, erase]
  clear hs
  induction es with
  | nil => rfl
  | cons e es ih =>
    unfold eraseList
    split_ifs with h1
    · subst h1
      simp [findList, h]
    · simp only [findList, ih]

theorem find_erase_self (m : StdMap K V) (k : K) : (m.erase k).find k = none := by
  obtain ⟨es, hs⟩ := m
  simp only [find, erase]
  induction es with
  | nil => rfl
  | cons e es ih =>
    have hes := List.pairwise_cons.mp hs
    unfold eraseList
    split_ifs with h1
    · rw [h1]
      exact findList_eq_none hes.1
    · simp only [findList, h1, if_false]
      exact ih hes.2

theorem contains_alter (m : StdMap K V) (k j : K) (d : V) (f : V → V) :
    (m.alter k d f).contains j = (decide (j = k) || m.contains j) := by
  unfold contains
  by_cases h : j = k
  · subst h; simp [find_alter_self]
  · simp [find_alter_ne m d f h, h]

theorem contains_erase_ne (m : StdMap K V) {k j : K} (h : j ≠ k) :
    (m.erase k).contains j = m.contains j := by
  simp [contains, find_erase_ne m h]

theorem contains_erase (m : StdMap K V) (k j : K) :
    (m.erase k).contains j = (!decide (j = k) && m.contains j) := by
  by_cases h : j = k
  · subst h
    simp [contains, find_erase_self]
  · simp [contains_erase_ne m h, h]

theorem mem_keys (m : StdMap K V) (k : K) : k ∈ m.keys ↔ m.contains k = true := by
  obtain ⟨es, hs⟩ := m
  simp only [keys, contains, find]
  clear hs
  induction es with
  | nil => simp [findList]
  | cons e es ih =>
    simp only [List.map_cons, List.mem_cons, findList, ih]
    by_cases h : k = e.1 <;> simp [h]

theorem keys_nodup (m : StdMap K V) : m.keys.Nodup :=
  List.pairwise_map.mpr (m.sorted.imp (fun h => h.ne))

theorem findD_of_not_contains (m : StdMap K V) {k : K} (d : V) (h : m.contains k = false) :
    m.findD k d = d := by
  simp only [contains, Option.isSome_eq_false_iff, Option.isNone_iff_eq_none] at h
  simp [findD, h]

theorem findD_of_mem (m : StdMap K V) {e : K × V} (d : V) (h : e ∈ m.entries) :
    m.findD e.1 d = e.2 := by
  obtain ⟨es, hs⟩ := m
  simp only [findD, find] at h ⊢
  induction es with
  | nil => cases h
  | cons e' es ih =>
    have hes := List.pairwise_cons.mp hs
    rcases List.mem_cons.mp h with rfl | h
    · simp [findList]
    · simp only [findList, (hes.1 e h).ne', if_false]
      exact ih hes.2 h

theorem mem_entries_of_find (m : StdMap K V) {k : K} {v : V} (h : m.find k = some v) :
    (k, v) ∈ m.entries := by
  obtain ⟨es, hs⟩ := m
  simp only [find] at h ⊢
  clear hs
  induction es with
  | nil => cases h
  | cons e es ih =>
    unfold findList at h
    split at h
    · rename_i hk
      cases h
      rw [hk]
      exact List.mem_cons_self
    · exact List.mem_cons_of_mem _ (ih h)

/-- A key that is not there adds its entry. -/
theorem perm_alter_new (m : StdMap K V) {k : K} (d : V) (f : V → V) (h : m.find k = none) :
    (m.alter k d f).entries.Perm ((k, f d) :: m.entries) := by
  obtain ⟨es, hs⟩ := m
  simp only [find, alter] at h ⊢
  clear hs
  induction es with
  | nil => simp [alterList]
  | cons e es ih =>
    by_cases hk : k = e.1
    · simp [findList, hk] at h
    · simp only [findList, hk, if_false] at h
      unfold alterList
      split_ifs
      · exact List.Perm.refl _
      · exact ((ih h).cons e).trans (List.Perm.swap _ _ _)

theorem perm_erase (m : StdMap K V) {k : K} {v : V} (h : m.find k = some v) :
    ((k, v) :: (m.erase k).entries).Perm m.entries := by
  obtain ⟨es, hs⟩ := m
  simp only [find, erase] at h ⊢
  clear hs
  induction es with
  | nil => simp [findList] at h
  | cons e es ih =>
    unfold eraseList
    by_cases hk : k = e.1
    · simp only [findList, hk, if_true, Option.some.injEq] at h
      simp [hk, ← h]
    · simp only [findList, hk, if_false] at h ⊢
      exact (List.Perm.swap _ _ _).trans ((ih h).cons e)

theorem find_eq_none_iff (m : StdMap K V) (k : K) : m.find k = none ↔ k ∉ m.keys := by
  rw [mem_keys]
  simp [contains]

/-! ## What all lists of a map hold together -/

section pooled

variable {A : Type}

/-- The elements of all the lists of a map, in the order of the keys. -/
def pooled (m : StdMap K (List A)) : List A := m.values.flatten

@[simp] theorem pooled_empty : (empty : StdMap K (List A)).pooled = [] := rfl

theorem pooled_of_no_key {m : StdMap K (List A)} (h : ∀ k, m.contains k = false) :
    m.pooled = [] := by
  have hkeys : m.keys = [] := by
    rw [List.eq_nil_iff_forall_not_mem]
    intro k hk
    rw [mem_keys, h k] at hk
    cases hk
  rw [pooled, values, List.map_eq_nil_iff.mp hkeys]
  rfl

/-- Lists that are filled one element after the other. -/
theorem findD_grouped {B : Type} (key : B → K) (f : B → A) (bs : List B) (m : StdMap K (List A))
    (k : K) : (bs.foldl (fun m b => m.alter (key b) [] (· ++ [f b])) m).findD k [] =
      m.findD k [] ++ (bs.filter fun b => decide (key b = k)).map f := by
  induction bs generalizing m with
  | nil => simp
  | cons b bs ih =>
    rw [List.foldl_cons, ih]
    by_cases hk : key b = k
    · subst hk
      rw [findD_alter_self]
      simp
    · rw [findD_alter_ne m [] [] _ (Ne.symm hk), List.filter_cons_of_neg (by simpa using hk)]

theorem contains_grouped {B : Type} (key : B → K) (f : B → A) (bs : List B)
    (m : StdMap K (List A)) (k : K) :
    (bs.foldl (fun m b => m.alter (key b) [] (· ++ [f b])) m).contains k = true ↔
      m.contains k = true ∨ ∃ b ∈ bs, key b = k := by
  induction bs generalizing m with
  | nil => simp
  | cons b bs ih =>
    rw [List.foldl_cons, ih, contains_alter, Bool.or_eq_true, decide_eq_true_eq,
      List.exists_mem_cons_iff, eq_comm, or_assoc, or_left_comm]

/-- A key that starts a new list, or one whose list only grows at its end. -/
theorem pooled_append (m : StdMap K (List A)) (k : K) (xs : List A) :
    (m.alter k [] (· ++ xs)).pooled.Perm (xs ++ m.pooled) := by
  obtain ⟨es, hs⟩ := m
  simp only [pooled, values, alter]
  clear hs
  induction es with
  | nil => simp [alterList]
  | cons e es ih =>
    unfold alterList
    split_ifs with h1 h2
    · simp
    · simp only [List.map_cons, List.flatten_cons, List.append_assoc]
      exact List.perm_append_comm_assoc _ _ _
    · simp only [List.map_cons, List.flatten_cons]
      exact (ih.append_left _).trans (List.perm_append_comm_assoc _ _ _)

theorem pooled_touch (m : StdMap K (List A)) (k : K) : (m.alter k [] id).pooled = m.pooled := by
  obtain ⟨es, hs⟩ := m
  simp only [pooled, values, alter]
  clear hs
  induction es with
  | nil => simp [alterList]
  | cons e es ih =>
    unfold alterList
    split_ifs with h1 h2
    · simp
    · simp
    · simp only [List.map_cons, List.flatten_cons, ih]

/-- A key whose list is still empty takes the list `xs`. -/
theorem pooled_put (m : StdMap K (List A)) (k : K) (xs : List A) (h : m.findD k [] = []) :
    (m.alter k [] (fun _ => xs)).pooled.Perm (xs ++ m.pooled) := by
  obtain ⟨es, hs⟩ := m
  simp only [pooled, values, alter, findD, find] at h ⊢
  clear hs
  induction es with
  | nil => simp [alterList]
  | cons e es ih =>
    unfold alterList
    split_ifs with h1 h2
    · simp
    · subst h2
      simp only [findList, if_true, Option.getD_some] at h
      simp [h]
    · simp only [findList, h2, if_false] at h
      simp only [List.map_cons, List.flatten_cons]
      exact ((ih h).append_left _).trans (List.perm_append_comm_assoc _ _ _)

theorem pooled_erase (m : StdMap K (List A)) (k : K) :
    (m.findD k [] ++ (m.erase k).pooled).Perm m.pooled := by
  obtain ⟨es, hs⟩ := m
  simp only [pooled, values, erase, findD, find]
  clear hs
  induction es with
  | nil => simp [findList, eraseList]
  | cons e es ih =>
    unfold eraseList
    by_cases h : k = e.1
    · simp [findList, h]
    · simp only [findList, h, if_false, List.map_cons, List.flatten_cons]
      exact (List.perm_append_comm_assoc _ _ _).trans (ih.append_left _)

/-- Every element stands in the list of its own key. -/
def KeyedBy (key : A → K) (m : StdMap K (List A)) : Prop := ∀ k, ∀ x ∈ m.findD k [], key x = k

variable {key : A → K} {m : StdMap K (List A)}

theorem keyedBy_empty : (empty : StdMap K (List A)).KeyedBy key := by
  intro k x hx
  cases hx

theorem KeyedBy.append (h : m.KeyedBy key) {k : K} {xs : List A} (hxs : ∀ x ∈ xs, key x = k) :
    (m.alter k [] (· ++ xs)).KeyedBy key := by
  intro j x hx
  by_cases hj : j = k
  · subst hj
    rw [findD_alter_self] at hx
    rcases List.mem_append.mp hx with hx | hx
    · exact h j x hx
    · exact hxs x hx
  · rw [findD_alter_ne m _ _ _ hj] at hx
    exact h j x hx

theorem KeyedBy.put (h : m.KeyedBy key) {k : K} {xs : List A} (hxs : ∀ x ∈ xs, key x = k) :
    (m.alter k [] (fun _ => xs)).KeyedBy key := by
  intro j x hx
  by_cases hj : j = k
  · subst hj
    rw [findD_alter_self] at hx
    exact hxs x hx
  · rw [findD_alter_ne m _ _ _ hj] at hx
    exact h j x hx

theorem KeyedBy.touch (h : m.KeyedBy key) (k : K) : (m.alter k [] id).KeyedBy key := by
  intro j x hx
  by_cases hj : j = k
  · subst hj
    rw [findD_alter_self] at hx
    exact h j x hx
  · rw [findD_alter_ne m _ _ _ hj] at hx
    exact h j x hx

theorem KeyedBy.erase (h : m.KeyedBy key) (k : K) : (m.erase k).KeyedBy key := by
  intro j x hx
  by_cases hj : j = k
  · subst hj
    rw [findD, find_erase_self] at hx
    cases hx
  · rw [findD, find_erase_ne m hj] at hx
    exact h j x hx

end pooled

/-! ## Values that are altered one after the other -/

section

variable {B : Type} (key : B → K) (d : V) (f : B → V → V)

/-- What a key holds comes from the alterations of that key, in their order. -/
theorem findD_foldl_alter (bs : List B) (m : StdMap K V) (k : K) :
    (bs.foldl (fun m b => m.alter (key b) d (f b)) m).findD k d =
      (bs.filter fun b => decide (key b = k)).foldl (fun v b => f b v) (m.findD k d) := by
  induction bs generalizing m with
  | nil => rfl
  | cons b bs ih =>
    rw [List.foldl_cons, ih]
    by_cases hk : key b = k
    · subst hk
      rw [findD_alter_self]
      simp
    · rw [findD_alter_ne m d d _ (Ne.symm hk), List.filter_cons_of_neg (by simpa using hk)]

theorem contains_foldl_alter (bs : List B) (m : StdMap K V) (k : K) :
    (bs.foldl (fun m b => m.alter (key b) d (f b)) m).contains k = true ↔
      m.contains k = true ∨ ∃ b ∈ bs, key b = k := by
  induction bs generalizing m with
  | nil => simp
  | cons b bs ih =>
    rw [List.foldl_cons, ih, contains_alter, Bool.or_eq_true, decide_eq_true_eq,
      List.exists_mem_cons_iff, eq_comm, or_assoc, or_left_comm]

end

/-! ## How many entries have a property -/

/-- The number of entries with property `q`. -/
def countEntries (m : StdMap K V) (q : K → V → Bool) : Nat :=
  m.entries.countP (fun e => q e.1 e.2)

/-- A change of the value at one key moves the count by what the key counts for. -/
theorem countEntries_alter (m : StdMap K V) (q : K → V → Bool) (k : K) (d v : V) (f : V → V)
    (h : m.find k = some v) :
    (m.alter k d f).countEntries q + (q k v).toNat = m.countEntries q + (q k (f v)).toNat := by
  obtain ⟨es, hs⟩ := m
  simp only [countEntries, alter, find] at h ⊢
  induction es with
  | nil => simp [findList] at h
  | cons e es ih =>
    have hes := List.pairwise_cons.mp hs
    unfold alterList
    by_cases h2 : k = e.1
    · subst h2
      simp only [findList, if_true, Option.some.injEq] at h
      subst h
      simp only [lt_irrefl, if_false, if_true, List.countP_cons]
      cases q e.1 e.2 <;> cases q e.1 (f e.2) <;> simp
    · simp only [findList, h2, if_false] at h
      have h1 : ¬ k < e.1 := by
        intro hlt
        rw [findList_eq_none (fun a ha => hlt.trans (hes.1 a ha))] at h
        cases h
      have := ih hes.2 h
      simp only [h1, h2, if_false, List.countP_cons]
      omega

end StdMap
