-- What the dominance analyses compute: the loops over the blocks are sweeps over
-- their graph, and the loops over the sets leave the nearest element.
import GpgpuSimUvm.Dominance

namespace gpgpu_sim_uvm

open control_flow

/-! ## Sets of block ids -/

@[simp] theorem mem_inSetOrder {A : Finset Nat} {a : Nat} : a ∈ inSetOrder A ↔ a ∈ A := by
  unfold inSetOrder
  simp only [List.mem_filter, List.mem_range, decide_eq_true_eq, and_iff_right_iff_imp]
  intro ha
  exact Nat.lt_succ_of_le (Finset.le_sup (f := id) ha)

/-- A walk that takes out the elements for which `p` fails. -/
theorem mem_foldl_erase {p : Nat → Prop} [DecidablePred p] (l : List Nat) (A : Finset Nat)
    (x : Nat) :
    x ∈ l.foldl (fun A a => if p a then A else A.erase a) A ↔ x ∈ A ∧ (x ∈ l → p x) := by
  induction l generalizing A with
  | nil => simp
  | cons a l ih =>
    rw [List.foldl_cons, ih]
    by_cases ha : p a
    · rw [if_pos ha]
      refine and_congr_right fun _ => ⟨fun h hx => ?_, fun h hx => h (List.mem_cons_of_mem _ hx)⟩
      rcases List.mem_cons.mp hx with rfl | hx
      · exact ha
      · exact h hx
    · rw [if_neg ha, Finset.mem_erase, List.mem_cons]
      constructor
      · rintro ⟨⟨hne, hxA⟩, h⟩
        exact ⟨hxA, fun hx => h (hx.resolve_left hne)⟩
      · rintro ⟨hxA, h⟩
        refine ⟨⟨?_, hxA⟩, fun hx => h (.inr hx)⟩
        rintro rfl
        exact ha (h (.inl rfl))

theorem intersect_eq (A B : Finset Nat) : intersect A B = A ∩ B := by
  ext x
  unfold intersect
  rw [mem_foldl_erase, mem_inSetOrder, Finset.mem_inter]
  tauto

theorem is_equal_iff {A B : Finset Nat} : is_equal A B = true ↔ A = B := by
  unfold is_equal
  constructor
  · intro h
    split at h
    · simp at h
    · rename_i hcard
      have hsub : B ⊆ A := by
        intro b hb
        simpa using List.all_eq_true.mp h b (mem_inSetOrder.mpr hb)
      exact (Finset.eq_of_subset_of_card_le hsub (by omega)).symm
  · rintro rfl
    simp

theorem mem_foldl_intersect (f : Nat → Finset Nat) (l : List Nat) (T : Finset Nat) (x : Nat) :
    x ∈ l.foldl (fun T s => intersect T (f s)) T ↔ x ∈ T ∧ ∀ s ∈ l, x ∈ f s := by
  induction l generalizing T with
  | nil => simp
  | cons s l ih =>
    rw [List.foldl_cons, ih, intersect_eq, Finset.mem_inter, List.forall_mem_cons]
    tauto

/-! ## The loops over the blocks -/

theorem block_mapIdx {bs : List BasicBlock} {i : Nat} (f : Nat → BasicBlock → BasicBlock)
    (h : i < bs.length) : block (bs.mapIdx f) i = f i (block bs i) := by
  simp [block, h]

section

variable {an : Analysis} {bs : List BasicBlock} {root : Nat}

/-- The blocks with the sets that `D` gives them. -/
def withSets (an : Analysis) (bs : List BasicBlock) (D : Nat → Finset Nat) : List BasicBlock :=
  bs.mapIdx fun i b => an.set_ids b (D i)

/-- The edges that the analysis follows. -/
def nbrsOf (an : Analysis) (bs : List BasicBlock) (i : Nat) : Finset Nat := an.nbrs (block bs i)

/-- Blocks in order, with edges between them. -/
structure WellFormed (an : Analysis) (bs : List BasicBlock) : Prop where
  bb_id : ∀ i < bs.length, (block bs i).bb_id = i
  edges : ∀ i < bs.length, ∀ s ∈ nbrsOf an bs i, s < bs.length

@[simp] theorem length_withSets (D : Nat → Finset Nat) :
    (withSets an bs D).length = bs.length := by simp [withSets]

theorem block_withSets (D : Nat → Finset Nat) {i : Nat} (h : i < bs.length) :
    block (withSets an bs D) i = an.set_ids (block bs i) (D i) := block_mapIdx _ h

theorem ids_withSets (D : Nat → Finset Nat) {i : Nat} (h : i < bs.length) :
    an.ids (block (withSets an bs D) i) = D i := by
  rw [block_withSets D h, an.ids_set]

theorem set_withSets (D : Nat → Finset Nat) {h : Nat} (hh : h < bs.length) (A : Finset Nat) :
    (withSets an bs D).set h (an.set_ids (block (withSets an bs D) h) A) =
      withSets an bs (Function.update D h A) := by
  rw [block_withSets D hh, an.set_set, block_eq hh]
  refine List.ext_getElem (by simp) fun i hi hi' => ?_
  rw [List.getElem_set]
  split
  · rename_i heq
    subst heq
    simp [withSets]
  · rename_i hne
    simp [withSets, Function.update_of_ne (Ne.symm hne)]

/-- The `T` of a block is the meet of the sets of its neighbours. -/
theorem meetAt_withSets (hbs : WellFormed an bs) (D : Nat → Finset Nat) {h : Nat}
    (hh : h < bs.length) :
    meetAt an (withSets an bs D) h = meet (nbrsOf an bs) bs.length D h := by
  ext x
  unfold meetAt
  rw [mem_meet, Finset.mem_insert, mem_foldl_intersect, length_withSets, Finset.mem_range,
    block_withSets D hh, an.nbrs_set]
  refine or_congr_right (and_congr_right fun _ => forall_congr' fun s => ?_)
  rw [mem_inSetOrder]
  refine forall_congr' fun hs => ?_
  rw [ids_withSets D (hbs.edges h hh s hs)]

theorem visitBlock_withSets (hbs : WellFormed an bs) (r : (Nat → Finset Nat) × Bool) {h : Nat}
    (hh : h < bs.length) :
    visitBlock an (withSets an bs r.1, r.2) h =
      .ok (withSets an bs (visit (nbrsOf an bs) bs.length r h).1,
        (visit (nbrsOf an bs) bs.length r h).2) := by
  unfold visitBlock visit
  have hid : (block (withSets an bs r.1) h).bb_id = h := by
    rw [block_withSets r.1 hh, an.bb_id_set, hbs.bb_id h hh]
  simp only [hid, meetAt_withSets hbs r.1 hh, ids_withSets r.1 hh, is_equal_iff,
    set_withSets r.1 hh, ne_eq, not_true_eq_false, if_false]
  by_cases heq : meet (nbrsOf an bs) bs.length r.1 h = r.1 h <;> simp only [heq, if_true, if_false]

/-- A turn of the outer loop is a sweep over the sets. -/
theorem sweepBlocks_withSets (hbs : WellFormed an bs) {order : List Nat}
    (horder : ∀ h ∈ order, h < bs.length) (D : Nat → Finset Nat) :
    sweepBlocks an order (withSets an bs D) =
      .ok (withSets an bs (sweep (nbrsOf an bs) bs.length order D).1,
        (sweep (nbrsOf an bs) bs.length order D).2) := by
  have hfold : ∀ r : (Nat → Finset Nat) × Bool,
      order.foldlM (visitBlock an) (withSets an bs r.1, r.2) =
        .ok (withSets an bs (order.foldl (visit (nbrsOf an bs) bs.length) r).1,
          (order.foldl (visit (nbrsOf an bs) bs.length) r).2) := by
    induction order with
    | nil => intro r; rfl
    | cons h order ih =>
      intro r
      rw [List.foldlM_cons, visitBlock_withSets hbs r (horder h (by simp)), List.foldl_cons]
      exact ih (fun k hk => horder k (List.mem_cons_of_mem _ hk)) _
  exact hfold (D, false)

/-- What the sets may hold from before: nothing that the first pass does not
start from. -/
structure Refillable (an : Analysis) (root : Nat) (bs : List BasicBlock) : Prop where
  within : ∀ i < bs.length, an.ids (block bs i) ⊆ Finset.range bs.length
  at_root : an.ids (block bs root) ⊆ {root}

theorem fillSets_eq (hbs : WellFormed an bs) (hfill : Refillable an root bs) :
    fillSets an root bs = withSets an bs (fullSets bs.length root) := by
  unfold fillSets withSets
  refine List.ext_getElem (by simp) fun i hi hi' => ?_
  have hlt : i < bs.length := by simpa using hi
  have hid := hbs.bb_id i hlt
  have hin := hfill.within i hlt
  have hroot := hfill.at_root
  rw [block_eq hlt] at hid hin
  simp only [List.getElem_mapIdx, fullSets]
  by_cases heq : i = root
  · subst heq
    rw [block_eq hlt] at hroot
    rw [if_pos rfl, if_pos rfl, hid, ← Finset.singleton_union, Finset.union_eq_left.mpr hroot]
  · rw [if_neg heq, if_neg heq, Finset.union_eq_right.mpr hin]

/-- The sets that the analysis finds are exact, whatever the graph. -/
theorem findSets_exact (hbs : WellFormed an bs) (hfill : Refillable an root bs)
    (htwo : 2 ≤ bs.length) (hroot : root < bs.length) {order : List Nat}
    (horder : ∀ h, h ∈ order ↔ h < bs.length ∧ h ≠ root) {fuel : Nat}
    (hfuel : bs.length * bs.length < fuel) :
    ∃ D, findSets an root order fuel bs = .ok (withSets an bs D) ∧
      (∀ h, D h ⊆ Finset.range bs.length) ∧
      ∀ h < bs.length, ∀ d, d ∈ D h ↔
        d < bs.length ∧ PostDominates (fun a b => b ∈ nbrsOf an bs a) root d h := by
  obtain ⟨D, hrun, hin, hD⟩ :=
    sweeps_exact Abort.unfinished hbs.edges hroot horder hfuel
  refine ⟨D, ?_, hin, hD⟩
  unfold findSets
  rw [if_neg (by omega), fillSets_eq hbs hfill,
    while_change_map (sweepBlocks_withSets hbs fun h hh => ((horder h).mp hh).1), hrun]
  rfl

end

/-! ## The loops over the sets -/

section

variable {ids : Nat → Finset Nat}

theorem mem_eraseBeyond {T : Finset Nat} {s x : Nat} :
    x ∈ eraseBeyond ids T s ↔ x ∈ T ∧ (x = s ∨ x ∉ ids s) := by
  have hbody : (fun (T : Finset Nat) t => if t = s then T else if t ∈ ids s then T.erase t else T) =
      fun T t => if t = s ∨ t ∉ ids s then T else T.erase t := by
    funext T t
    by_cases h1 : t = s <;> by_cases h2 : t ∈ ids s <;> simp [h1, h2]
  unfold eraseBeyond
  rw [hbody, mem_foldl_erase, mem_inSetOrder]
  tauto

theorem eraseBeyond_subset (T : Finset Nat) (s : Nat) : eraseBeyond ids T s ⊆ T :=
  fun _ hx => (mem_eraseBeyond.mp hx).1

/-- One turn of the outer loop: what is beyond `s` goes, where `s` is still
there. -/
def eraseTurn (ids : Nat → Finset Nat) (T : Finset Nat) (s : Nat) : Finset Nat :=
  if s ∈ T then eraseBeyond ids T s else T

theorem mem_eraseTurn {T : Finset Nat} {s x : Nat} :
    x ∈ eraseTurn ids T s ↔ x ∈ T ∧ (s ∈ T → x = s ∨ x ∉ ids s) := by
  unfold eraseTurn
  by_cases hs : s ∈ T
  · rw [if_pos hs, mem_eraseBeyond]
    simp [hs]
  · simp [hs]

theorem eraseTurn_subset (T : Finset Nat) (s : Nat) : eraseTurn ids T s ⊆ T :=
  fun _ hx => (mem_eraseTurn.mp hx).1

theorem eraseTurns_subset (l : List Nat) (R : Finset Nat) : l.foldl (eraseTurn ids) R ⊆ R := by
  induction l generalizing R with
  | nil => exact subset_rfl
  | cons s l ih => exact (ih _).trans (eraseTurn_subset R s)

/-- An element that is beyond none of the others stays. -/
theorem eraseTurns_keep {l : List Nat} {R : Finset Nat} {x : Nat} (hx : x ∈ R)
    (hall : ∀ s ∈ l, s ∈ R → s ≠ x → x ∉ ids s) : x ∈ l.foldl (eraseTurn ids) R := by
  induction l generalizing R with
  | nil => exact hx
  | cons s l ih =>
    have hx' : x ∈ eraseTurn ids R s := by
      refine mem_eraseTurn.mpr ⟨hx, fun hs => ?_⟩
      by_cases hne : s = x
      · exact .inl hne.symm
      · exact .inr (hall s (by simp) hs hne)
    refine ih hx' fun t ht htR => hall t (List.mem_cons_of_mem _ ht) ?_
    exact eraseTurn_subset R s htR

/-- What is beyond an element that stays until its turn goes. -/
theorem eraseTurns_drop {l : List Nat} {R : Finset Nat} {x y : Nat} (hy : y ∈ l) (hyR : y ∈ R)
    (hall : ∀ s ∈ l, s ∈ R → s ≠ y → y ∉ ids s) (hne : x ≠ y) (hx : x ∈ ids y) :
    x ∉ l.foldl (eraseTurn ids) R := by
  obtain ⟨l₁, l₂, rfl⟩ := List.append_of_mem hy
  have hstay : y ∈ l₁.foldl (eraseTurn ids) R :=
    eraseTurns_keep hyR fun s hs => hall s (List.mem_append_left _ hs)
  rw [List.foldl_append, List.foldl_cons]
  intro hcon
  have hlast := (mem_eraseTurn.mp (eraseTurns_subset l₂ _ hcon)).2 hstay
  exact hlast.elim hne fun h => h hx

theorem eraseTurns_nonempty (l : List Nat) {R : Finset Nat} (h : R.Nonempty) :
    (l.foldl (eraseTurn ids) R).Nonempty := by
  induction l generalizing R with
  | nil => exact h
  | cons s l ih =>
    refine ih ?_
    by_cases hs : s ∈ R
    · exact ⟨s, mem_eraseTurn.mpr ⟨hs, fun _ => .inl rfl⟩⟩
    · obtain ⟨x, hx⟩ := h
      exact ⟨x, mem_eraseTurn.mpr ⟨hx, fun hcon => absurd hcon hs⟩⟩

theorem eraseAllBeyond_subset (T : Finset Nat) : eraseAllBeyond ids T ⊆ T :=
  eraseTurns_subset _ T

/-- The loops leave something of every set that has something. -/
theorem eraseAllBeyond_eq_empty {T : Finset Nat} : eraseAllBeyond ids T = ∅ ↔ T = ∅ := by
  constructor
  · intro h
    by_contra hne
    have hsome : (eraseAllBeyond ids T).Nonempty :=
      eraseTurns_nonempty (inSetOrder T) (Finset.nonempty_iff_ne_empty.mpr hne)
    exact hsome.ne_empty h
  · rintro rfl
    exact Finset.subset_empty.mp (eraseAllBeyond_subset ∅)

/-- A `std::set` in front of one of its elements, and behind it. -/
theorem inSetOrder_split {T : Finset Nat} {d : Nat} (hd : d ∈ T) :
    ∃ l₁ l₂, inSetOrder T = l₁ ++ d :: l₂ ∧ ∀ e ∈ l₁, e ∈ T ∧ e < d := by
  obtain ⟨l₁, l₂, hsplit⟩ := List.append_of_mem (mem_inSetOrder.mpr hd)
  refine ⟨l₁, l₂, hsplit, fun e he => ⟨?_, ?_⟩⟩
  · exact mem_inSetOrder.mp (hsplit ▸ List.mem_append_left _ he)
  · have hsorted : (inSetOrder T).Pairwise (· < ·) := List.pairwise_lt_range.filter _
    rw [hsplit, List.pairwise_append] at hsorted
    exact hsorted.2.2 e he d (by simp)

/-- An element that all others are beyond is alone in the end, where none
before it takes it out. -/
theorem eraseAllBeyond_first {T : Finset Nat} {d : Nat} (hd : d ∈ T)
    (hfirst : ∀ e ∈ T, e ∈ ids d) (honly : ∀ e ∈ T, e < d → d ∉ ids e) :
    eraseAllBeyond ids T = {d} := by
  obtain ⟨l₁, l₂, hsplit, hbefore⟩ := inSetOrder_split hd
  have hstay : d ∈ l₁.foldl (eraseTurn ids) T :=
    eraseTurns_keep hd fun s hs _ _ => honly s (hbefore s hs).1 (hbefore s hs).2
  have hturn : eraseTurn ids (l₁.foldl (eraseTurn ids) T) d = {d} := by
    ext x
    rw [mem_eraseTurn, Finset.mem_singleton]
    constructor
    · rintro ⟨hx, h⟩
      exact (h hstay).resolve_right (not_not.mpr (hfirst x (eraseTurns_subset l₁ T hx)))
    · rintro rfl
      exact ⟨hstay, fun _ => .inl rfl⟩
  have hloop : eraseAllBeyond ids T = (inSetOrder T).foldl (eraseTurn ids) T := rfl
  rw [hloop, hsplit, List.foldl_append, List.foldl_cons, hturn]
  refine Finset.Subset.antisymm (eraseTurns_subset l₂ _) fun x hx => eraseTurns_keep hx ?_
  intro s _ hs hne
  exact absurd ((Finset.mem_singleton.mp hs).trans (Finset.mem_singleton.mp hx).symm) hne

/-- The nearest element is what the loops leave. -/
theorem eraseAllBeyond_eq {T : Finset Nat} {d : Nat} (hd : d ∈ T)
    (hfirst : ∀ e ∈ T, e ∈ ids d) (honly : ∀ e ∈ T, e ≠ d → d ∉ ids e) :
    eraseAllBeyond ids T = {d} :=
  eraseAllBeyond_first hd hfirst fun e he hlt => honly e he (Nat.ne_of_lt hlt)

/-- Sets that order the elements: beyond each there are none that it is beyond
of. -/
structure Layered (ids : Nat → Finset Nat) (T : Finset Nat) : Prop where
  trans : ∀ a ∈ T, ∀ b ∈ T, ∀ c ∈ T, a ∈ ids b → b ∈ ids c → a ∈ ids c
  antisymm : ∀ a ∈ T, ∀ b ∈ T, a ∈ ids b → b ∈ ids a → a = b

/-- What is beyond another element is beyond one that is itself beyond none. -/
theorem Layered.outermost {T : Finset Nat} (h : Layered ids T) {x y : Nat} (hx : x ∈ T)
    (hy : y ∈ T) (hne : y ≠ x) (hxy : x ∈ ids y) :
    ∃ z ∈ T, z ≠ x ∧ x ∈ ids z ∧ ∀ w ∈ T, w ≠ z → z ∉ ids w := by
  -- by the number of elements that `y` is beyond
  obtain ⟨n, hn⟩ : ∃ n, (T.filter fun w => w ≠ y ∧ y ∈ ids w).card = n := ⟨_, rfl⟩
  induction n using Nat.strong_induction_on generalizing y with
  | _ n ih =>
    by_cases hout : ∀ w ∈ T, w ≠ y → y ∉ ids w
    · exact ⟨y, hy, hne, hxy, hout⟩
    · simp only [not_forall, not_not] at hout
      obtain ⟨w, hw, hwy, hyw⟩ := hout
      have hwx : w ≠ x := by
        rintro rfl
        exact hne (h.antisymm y hy w hx hyw hxy)
      have hless : (T.filter fun v => v ≠ w ∧ w ∈ ids v).card <
          (T.filter fun v => v ≠ y ∧ y ∈ ids v).card := by
        refine Finset.card_lt_card (Finset.ssubset_iff_of_subset ?_ |>.mpr ⟨w, ?_, ?_⟩)
        · intro v hv
          obtain ⟨hv, hvw, hwv⟩ := Finset.mem_filter.mp hv
          refine Finset.mem_filter.mpr ⟨hv, ?_, h.trans y hy w hw v hv hyw hwv⟩
          rintro rfl
          exact hvw (h.antisymm v hv w hw hyw hwv)
        · exact Finset.mem_filter.mpr ⟨hw, hwy, hyw⟩
        · simp
      exact ih _ (hn ▸ hless) hw hwx (h.trans x hx y hy w hw hxy hyw) rfl

/-- In an order the loops leave the elements that are beyond none. -/
theorem Layered.mem_eraseAllBeyond {T : Finset Nat} (h : Layered ids T) {x : Nat} :
    x ∈ eraseAllBeyond ids T ↔ x ∈ T ∧ ∀ y ∈ T, y ≠ x → x ∉ ids y := by
  constructor
  · intro hx
    have hxT := eraseAllBeyond_subset T hx
    refine ⟨hxT, fun y hy hne hxy => ?_⟩
    obtain ⟨z, hz, hzx, hxz, hout⟩ := h.outermost hxT hy hne hxy
    refine eraseTurns_drop (mem_inSetOrder.mpr hz) hz ?_ hzx.symm hxz hx
    exact fun s _ hs hsz => hout s hs hsz
  · rintro ⟨hx, hout⟩
    exact eraseTurns_keep hx fun s _ hs hne => hout s hs hne

end

@[simp] theorem firstOr_singleton (d : Nat) (old : Int) : firstOr {d} old = d := by
  unfold firstOr
  have hmem : d ∈ inSetOrder {d} := mem_inSetOrder.mpr (by simp)
  split
  · rename_i h
    simp [h] at hmem
  · rename_i e l h
    have : e ∈ inSetOrder {d} := by simp [h]
    rw [Finset.mem_singleton.mp (mem_inSetOrder.mp this)]

theorem firstOr_empty (old : Int) : firstOr ∅ old = old := by
  unfold firstOr
  have hnone : inSetOrder ∅ = [] := List.eq_nil_iff_forall_not_mem.mpr fun a ha => by simp at ha
  rw [hnone]

/-- The first of a set is its least element. -/
theorem firstOr_eq_iff {A : Finset Nat} (hA : A ≠ ∅) {old : Int} {d : Nat} :
    firstOr A old = d ↔ IsLeast (A : Set Nat) d := by
  have hfirst : IsLeast (A : Set Nat) (A.min' (Finset.nonempty_iff_ne_empty.mpr hA)) :=
    A.isLeast_min' _
  generalize A.min' (Finset.nonempty_iff_ne_empty.mpr hA) = e at hfirst
  obtain ⟨l₁, l₂, hsplit, hbefore⟩ := inSetOrder_split (Finset.mem_coe.mp hfirst.1)
  obtain rfl : l₁ = [] := by
    refine List.eq_nil_iff_forall_not_mem.mpr fun a ha => ?_
    have hle := hfirst.2 (Finset.mem_coe.mpr (hbefore a ha).1)
    have := (hbefore a ha).2
    omega
  have hval : firstOr A old = e := by
    unfold firstOr
    rw [hsplit]
    rfl
  rw [hval]
  constructor
  · intro h
    obtain rfl : e = d := by exact_mod_cast h
    exact hfirst
  · intro h
    rw [hfirst.unique h]

end gpgpu_sim_uvm
