-- One round of the loop of do_pdom up to the immediate dominators, on any edges
-- between the blocks: also where the entry does not reach all of them.
import GpgpuSimUvm.BreakTargets
import GpgpuSimUvm.Reconvergence

namespace gpgpu_sim_uvm

open control_flow

/-! ## The blocks between two rounds -/

/-- The edges that the blocks have. -/
def Edge (bs : List BasicBlock) (a b : Nat) : Prop := b ∈ (block bs a).successor_ids

/-- The blocks that the entry reaches. -/
def Reached (bs : List BasicBlock) (b : Nat) : Prop := Relation.ReflTransGen (Edge bs) 0 b

/-- The block without what the rounds write. -/
def BasicBlock.cut (b : BasicBlock) : BasicBlock :=
  { b with
    predecessor_ids := ∅
    successor_ids := ∅
    dominator_ids := ∅
    Tmp_ids := ∅
    immediatedominator_id := -1 }

/-- All ids are those of `n` blocks. -/
structure BasicBlock.Within (n : Nat) (b : BasicBlock) : Prop where
  successors : b.successor_ids ⊆ Finset.range n
  predecessors : b.predecessor_ids ⊆ Finset.range n
  dominators : b.dominator_ids ⊆ Finset.range n
  tmp : b.Tmp_ids ⊆ Finset.range n
  idom : b.immediatedominator_id = -1 ∨ ∃ d < n, b.immediatedominator_id = (d : Nat)

/-- What `create_basic_blocks` guarantees: an entry and an exit, in order. -/
structure IdsInOrder (base : List BasicBlock) : Prop where
  two : 2 ≤ base.length
  bb_id : ∀ i < base.length, (block base i).bb_id = i

/-- The blocks of `base` as some rounds leave them. -/
structure Linked (base bs : List BasicBlock) : Prop where
  length : bs.length = base.length
  cut : ∀ i, (block bs i).cut = (block base i).cut
  within : ∀ i, (block bs i).Within base.length
  edges : ∀ a b, Edge bs a b ↔ a ∈ (block bs b).predecessor_ids
  entry : (block bs 0).dominator_ids ⊆ {0}
  entry_idom : (block bs 0).immediatedominator_id = -1

theorem block_of_ge {bs : List BasicBlock} {i : Nat} (h : bs.length ≤ i) : block bs i = {} := by
  simp [block, h]

section

variable {base bs : List BasicBlock}

theorem Linked.bb_id (h : Linked base bs) (hbase : IdsInOrder base) {i : Nat} (hi : i < bs.length) :
    (block bs i).bb_id = i := by
  have hcut := congrArg BasicBlock.bb_id (h.cut i)
  have hi : i < base.length := h.length ▸ hi
  exact hcut.trans (hbase.bb_id i hi)

theorem Linked.two (h : Linked base bs) (hbase : IdsInOrder base) : 2 ≤ bs.length := by
  rw [h.length]
  exact hbase.two

theorem Linked.edge_lt (h : Linked base bs) {a b : Nat} (hab : Edge bs a b) : b < bs.length := by
  rw [h.length]
  exact Finset.mem_range.mp ((h.within a).successors hab)

theorem Linked.reached_lt (h : Linked base bs) (hbase : IdsInOrder base) {b : Nat}
    (hb : Reached bs b) : b < bs.length := by
  rcases Relation.ReflTransGen.cases_tail hb with rfl | ⟨a, -, hab⟩
  · have := h.two hbase
    omega
  · exact h.edge_lt hab

theorem Linked.wellFormed (h : Linked base bs) (hbase : IdsInOrder base) :
    WellFormed dominance bs where
  bb_id _ hi := h.bb_id hbase hi
  edges i _ s hs := by
    rw [h.length]
    exact Finset.mem_range.mp ((h.within i).predecessors hs)

theorem Linked.refillable (h : Linked base bs) : Refillable dominance 0 bs where
  within i _ := by
    rw [h.length]
    exact (h.within i).dominators
  at_root := h.entry

/-- The analysis of dominators walks the edges backwards. -/
theorem Linked.back (h : Linked base bs) :
    (fun a b => b ∈ nbrsOf dominance bs a) = Back (Edge bs) := by
  funext a b
  exact propext (h.edges b a).symm

theorem Linked.entered (h : Linked base bs) {b : Nat} (hb : Reached bs b) (hne : b ≠ 0) :
    (block bs b).predecessor_ids ≠ ∅ := by
  rcases Relation.ReflTransGen.cases_tail hb with rfl | ⟨a, -, hab⟩
  · exact absurd rfl hne
  · intro hnone
    have hmem := (h.edges a b).mp hab
    simp [hnone] at hmem

/-! ## The dominators -/

/-- Blocks that are entered, though the entry does not reach them. -/
def Stray (bs : List BasicBlock) (b : Nat) : Prop :=
  ¬ Reached bs b ∧ (block bs b).predecessor_ids ≠ ∅

theorem Stray.lt {b : Nat} (hb : Stray bs b) : b < bs.length := by
  by_contra hge
  rw [Nat.not_lt] at hge
  refine hb.2 ?_
  rw [block_of_ge hge]

/-- The sets that `find_dominators` finds: the dominators of the blocks that the
entry reaches, all blocks for stray ones, and nothing for the rest. -/
structure DominatorSets (bs : List BasicBlock) (D : Nat → Finset Nat) : Prop where
  exact : ∀ b, Reached bs b → ∀ d, d ∈ D b ↔ Dominates (Edge bs) 0 d b
  stray : ∀ b, Stray bs b → D b = Finset.range bs.length
  rest : ∀ b, ¬ Reached bs b → (block bs b).predecessor_ids = ∅ → D b = ∅

theorem clearUnentered_withSets (D : Nat → Finset Nat) :
    clearUnentered (withSets dominance bs D) = withSets dominance bs fun i =>
      if i ≠ 0 ∧ (block bs i).predecessor_ids = ∅ then ∅ else D i := by
  unfold clearUnentered withSets
  refine List.ext_getElem (by simp) fun i hi hi' => ?_
  have hlt : i < bs.length := by simpa using hi
  simp only [List.getElem_mapIdx, block_eq hlt]
  have hpreds : (dominance.set_ids bs[i] (D i)).predecessor_ids = bs[i].predecessor_ids := rfl
  rw [hpreds]
  split <;> rfl

theorem withSets_congr {an : Analysis} {D D' : Nat → Finset Nat}
    (h : ∀ i < bs.length, D i = D' i) : withSets an bs D = withSets an bs D' := by
  unfold withSets
  refine List.ext_getElem (by simp) fun i hi hi' => ?_
  have hlt : i < bs.length := by simpa using hi
  simp only [List.getElem_mapIdx, h i hlt]

/-- `find_dominators` ends, and only the sets of dominators are new. -/
theorem Linked.find_dominators (h : Linked base bs) (hbase : IdsInOrder base) {fuel : Nat}
    (hfuel : bs.length * bs.length < fuel) :
    ∃ D, gpgpu_sim_uvm.find_dominators fuel bs = .ok (withSets dominance bs D) ∧
      DominatorSets bs D := by
  have htwo := h.two hbase
  have horder : ∀ i, i ∈ List.range' 1 (bs.length - 1) ↔ i < bs.length ∧ i ≠ 0 := by
    intro i
    rw [List.mem_range'_1]
    omega
  obtain ⟨D, hrun, hin, hD⟩ := findSets_exact (h.wellFormed hbase) h.refillable htwo
    (show 0 < bs.length by omega) horder hfuel
  rw [h.back] at hD
  refine ⟨fun i => if i < bs.length then
      if i ≠ 0 ∧ (block bs i).predecessor_ids = ∅ then ∅ else D i else ∅, ?_, ?_, ?_, ?_⟩
  · unfold gpgpu_sim_uvm.find_dominators
    rw [hrun]
    refine congrArg Except.ok ?_
    rw [clearUnentered_withSets]
    exact withSets_congr fun i hi => (if_pos hi).symm
  · intro b hb d
    have hlt := h.reached_lt hbase hb
    have hentered : ¬ (b ≠ 0 ∧ (block bs b).predecessor_ids = ∅) :=
      fun hcon => h.entered hb hcon.1 hcon.2
    simp only [if_pos hlt, if_neg hentered]
    refine (hD b hlt d).trans ⟨fun hd => hd.2, fun hd => ⟨?_, hd⟩⟩
    exact h.reached_lt hbase (Dominates.reached hd hb)
  · intro b hb
    have hlt := hb.lt
    simp only [if_pos hlt, if_neg fun hcon : b ≠ 0 ∧ _ => hb.2 hcon.2]
    ext d
    rw [hD b hlt, Finset.mem_range]
    -- no walk leads back from a stray block to the entry
    exact and_iff_left fun ns hw => absurd (Walk.reached hw) hb.1
  · intro b hb hnone
    have hne : b ≠ 0 := by
      rintro rfl
      exact hb .refl
    simp [hne, hnone]

/-! ## The immediate dominators -/

/-- What `find_idominators` leaves in `Tmp_ids`. -/
def nearestIds (D : Nat → Finset Nat) (i : Nat) : Finset Nat := eraseAllBeyond D ((D i).erase i)

/-- The blocks with the dominators of `D`, and the ids that are taken from
these. -/
def withIdoms (bs : List BasicBlock) (D : Nat → Finset Nat) : List BasicBlock :=
  bs.mapIdx fun i b =>
    { b with
      dominator_ids := D i
      Tmp_ids := nearestIds D i
      immediatedominator_id := firstOr (nearestIds D i) b.immediatedominator_id }

/-- `d` is what a round makes the immediate dominator of `i`: that of the walks
where the entry reaches `i`, else what the field was, or for a stray block the
first other stray one, or the first block that dominates no other. -/
inductive Above (bs : List BasicBlock) (i d : Nat) : Prop
  | dominator : Reached bs i → ImmediateDominator (Edge bs) 0 d i → Above bs i d
  | kept : ¬ Reached bs i → (block bs i).predecessor_ids = ∅ →
      (block bs i).immediatedominator_id = d → Above bs i d
  | stray : Stray bs i → IsLeast {s | Stray bs s ∧ s ≠ i} d → Above bs i d
  | leaf : Stray bs i → (∀ s, Stray bs s → s = i) →
      IsLeast {x | x < bs.length ∧ x ≠ i ∧
        ∀ y, Reached bs y → Dominates (Edge bs) 0 x y → y = x} d → Above bs i d

section

variable {D : Nat → Finset Nat}

@[simp] theorem length_withIdoms : (withIdoms bs D).length = bs.length := by simp [withIdoms]

theorem block_withIdoms {i : Nat} (hi : i < bs.length) :
    block (withIdoms bs D) i =
      { block bs i with
        dominator_ids := D i
        Tmp_ids := nearestIds D i
        immediatedominator_id := firstOr (nearestIds D i) (block bs i).immediatedominator_id } :=
  block_mapIdx _ hi

theorem DominatorSets.entry (hD : DominatorSets bs D) : D 0 = {0} := by
  ext d
  rw [hD.exact 0 .refl, Finset.mem_singleton]
  constructor
  · exact PostDominates.at_exit
  · rintro rfl
    exact PostDominates.of_exit 0

/-- Every other block that is entered has a dominator besides itself. -/
theorem DominatorSets.nearestIds_eq_empty (hD : DominatorSets bs D) (h : Linked base bs)
    (hbase : IdsInOrder base) (i : Nat) :
    nearestIds D i = ∅ ↔ i = 0 ∨ (block bs i).predecessor_ids = ∅ := by
  have htwo := h.two hbase
  have hzero : i ≠ 0 → 0 ∈ D i → (D i).erase i ≠ ∅ := by
    intro hne hmem
    exact Finset.ne_empty_of_mem (Finset.mem_erase.mpr ⟨Ne.symm hne, hmem⟩)
  unfold nearestIds
  rw [eraseAllBeyond_eq_empty]
  constructor
  · intro hnone
    by_contra hcon
    rw [not_or] at hcon
    refine hzero hcon.1 ?_ hnone
    by_cases hi : Reached bs i
    · exact (hD.exact i hi 0).mpr (PostDominates.of_exit i)
    · rw [hD.stray i ⟨hi, hcon.2⟩, Finset.mem_range]
      omega
  · rintro (rfl | hnone)
    · rw [hD.entry]
      simp
    · by_cases hi : Reached bs i
      · obtain rfl : i = 0 := by
          by_contra hne
          exact h.entered hi hne hnone
        rw [hD.entry]
        simp
      · rw [hD.rest i hi hnone]
        simp

theorem DominatorSets.reached_nearestIds (hD : DominatorSets bs D) {i d : Nat}
    (hi : Reached bs i) (hd : ImmediateDominator (Edge bs) 0 d i) : nearestIds D i = {d} := by
  have hmem : ∀ e ∈ (D i).erase i, e ≠ i ∧ Dominates (Edge bs) 0 e i := by
    intro e he
    obtain ⟨hne, he⟩ := Finset.mem_erase.mp he
    exact ⟨hne, (hD.exact i hi e).mp he⟩
  obtain ⟨ns, hw⟩ := walk_of_reached hi
  have hdr : Reached bs d := Dominates.reached hd.strict.2 hi
  apply eraseAllBeyond_eq
  · exact Finset.mem_erase.mpr ⟨hd.strict.1, (hD.exact i hi d).mpr hd.strict.2⟩
  · intro e he
    exact (hD.exact d hdr e).mpr (hd.first e (hmem e he))
  · intro e he hed hcon
    have her : Reached bs e := Dominates.reached (hmem e he).2 hi
    exact hd.not_beyond hw (hmem e he) hed ((hD.exact e her d).mp hcon)

/-- Only blocks that the entry reaches are dominators of what is not stray. -/
theorem DominatorSets.mem_of_not_stray (hD : DominatorSets bs D) {i d : Nat}
    (hi : ¬ Stray bs i) (hd : d ∈ D i) :
    Reached bs i ∧ Reached bs d ∧ Dominates (Edge bs) 0 d i := by
  have hr : Reached bs i := by
    by_contra hr
    have hnone : (block bs i).predecessor_ids = ∅ := by
      by_contra hne
      exact hi ⟨hr, hne⟩
    rw [hD.rest i hr hnone] at hd
    simp at hd
  have hdom := (hD.exact i hr d).mp hd
  exact ⟨hr, Dominates.reached hdom hr, hdom⟩

/-- Of a stray block, the first other one is left. -/
theorem DominatorSets.stray_nearestIds (hD : DominatorSets bs D) {i d : Nat} (hi : Stray bs i)
    (hd : IsLeast {s | Stray bs s ∧ s ≠ i} d) : nearestIds D i = {d} := by
  obtain ⟨⟨hds, hdi⟩, hleast⟩ := hd
  apply eraseAllBeyond_first
  · rw [hD.stray i hi]
    exact Finset.mem_erase.mpr ⟨hdi, Finset.mem_range.mpr hds.lt⟩
  · intro e he
    rw [hD.stray i hi] at he
    rw [hD.stray d hds]
    exact (Finset.mem_erase.mp he).2
  · intro e he hlt hcon
    have hei := (Finset.mem_erase.mp he).1
    have hes : ¬ Stray bs e := by
      intro hes
      have := hleast ⟨hes, hei⟩
      omega
    exact hds.1 (hD.mem_of_not_stray hes hcon).2.1

/-- Of the only stray block, what dominates no other block is left. -/
theorem DominatorSets.leaf_nearestIds (hD : DominatorSets bs D) (h : Linked base bs)
    (hbase : IdsInOrder base) {i : Nat} (hi : Stray bs i) (honly : ∀ s, Stray bs s → s = i) (x : Nat) :
    x ∈ nearestIds D i ↔ x < bs.length ∧ x ≠ i ∧
      ∀ y, Reached bs y → Dominates (Edge bs) 0 x y → y = x := by
  have hmem : ∀ e, e ∈ (D i).erase i ↔ e < bs.length ∧ e ≠ i := by
    intro e
    rw [hD.stray i hi, Finset.mem_erase, Finset.mem_range, and_comm]
  have hns : ∀ e, e ≠ i → ¬ Stray bs e := fun e he hes => he (honly e hes)
  have hlayers : Layered D ((D i).erase i) := by
    constructor
    · intro a _ b hb c hc hab hbc
      obtain ⟨-, -, hab⟩ := hD.mem_of_not_stray (hns b ((hmem b).mp hb).2) hab
      obtain ⟨hcr, -, hbc⟩ := hD.mem_of_not_stray (hns c ((hmem c).mp hc).2) hbc
      exact (hD.exact c hcr a).mpr (PostDominates.trans hab hbc)
    · intro a ha b hb hab hba
      obtain ⟨-, har, hab⟩ := hD.mem_of_not_stray (hns b ((hmem b).mp hb).2) hab
      obtain ⟨-, -, hba⟩ := hD.mem_of_not_stray (hns a ((hmem a).mp ha).2) hba
      exact Dominates.antisymm hab hba har
  unfold nearestIds
  rw [hlayers.mem_eraseAllBeyond, hmem, and_assoc]
  refine and_congr_right fun _ => and_congr_right fun _ => ⟨fun hall y hy hxy => ?_, ?_⟩
  · by_contra hne
    have hyi : y ≠ i := by
      rintro rfl
      exact hi.1 hy
    exact hall y ((hmem y).mpr ⟨h.reached_lt hbase hy, hyi⟩) hne ((hD.exact y hy x).mpr hxy)
  · intro hall y hy hne hxy
    obtain ⟨hyr, -, hxy⟩ := hD.mem_of_not_stray (hns y ((hmem y).mp hy).2) hxy
    exact hne (hall y hyr hxy)

/-- Of a block that the entry reaches, the walks say which is above it. -/
theorem Above.of_reached {i d : Nat} (hi : Reached bs i) (h : Above bs i d) :
    ImmediateDominator (Edge bs) 0 d i := by
  rcases h with ⟨-, h⟩ | ⟨hn, -, -⟩ | ⟨hs, -⟩ | ⟨hs, -, -⟩
  · exact h
  · exact absurd hi hn
  · exact absurd hi hs.1
  · exact absurd hi hs.1

theorem DominatorSets.idom_of_reached (hD : DominatorSets bs D) (h : Linked base bs)
    (hbase : IdsInOrder base) {i d : Nat} (hi : Reached bs i) :
    firstOr (nearestIds D i) (block bs i).immediatedominator_id = d ↔ Above bs i d := by
  by_cases hzero : i = 0
  · subst hzero
    rw [(hD.nearestIds_eq_empty h hbase 0).mpr (.inl rfl), firstOr_empty, h.entry_idom]
    constructor
    · intro heq
      omega
    · intro hd
      have hstrict := (hd.of_reached hi).strict
      exact absurd (PostDominates.at_exit hstrict.2) hstrict.1
  · obtain ⟨e, he⟩ := immediateDominator_of_reached hi hzero
    rw [hD.reached_nearestIds hi he, firstOr_singleton]
    constructor
    · intro heq
      obtain rfl : e = d := by exact_mod_cast heq
      exact .dominator hi he
    · intro hd
      have hd := hd.of_reached hi
      rw [he.only d hd.strict hd.first]

theorem DominatorSets.idom_of_unentered (hD : DominatorSets bs D) (h : Linked base bs)
    (hbase : IdsInOrder base) {i d : Nat} (hi : ¬ Reached bs i)
    (hnone : (block bs i).predecessor_ids = ∅) :
    firstOr (nearestIds D i) (block bs i).immediatedominator_id = d ↔ Above bs i d := by
  rw [(hD.nearestIds_eq_empty h hbase i).mpr (.inr hnone), firstOr_empty]
  constructor
  · exact .kept hi hnone
  · rintro (⟨hr, -⟩ | ⟨-, -, hkept⟩ | ⟨hs, -⟩ | ⟨hs, -, -⟩)
    · exact absurd hr hi
    · exact hkept
    · exact absurd hnone hs.2
    · exact absurd hnone hs.2

theorem DominatorSets.idom_of_stray (hD : DominatorSets bs D) (h : Linked base bs)
    (hbase : IdsInOrder base) {i d : Nat} (hi : Stray bs i) :
    firstOr (nearestIds D i) (block bs i).immediatedominator_id = d ↔ Above bs i d := by
  by_cases honly : ∀ s, Stray bs s → s = i
  · have hset : {x | x < bs.length ∧ x ≠ i ∧
        ∀ y, Reached bs y → Dominates (Edge bs) 0 x y → y = x} =
        ((nearestIds D i : Finset Nat) : Set Nat) := by
      ext x
      exact (hD.leaf_nearestIds h hbase hi honly x).symm
    have hsome : nearestIds D i ≠ ∅ := by
      rw [ne_eq, hD.nearestIds_eq_empty h hbase]
      rintro (rfl | hcon)
      · exact hi.1 .refl
      · exact hi.2 hcon
    rw [firstOr_eq_iff hsome, ← hset]
    constructor
    · exact .leaf hi honly
    · rintro (⟨hr, -⟩ | ⟨-, hnone, -⟩ | ⟨-, hleast⟩ | ⟨-, -, hleast⟩)
      · exact absurd hr hi.1
      · exact absurd hnone hi.2
      · exact absurd (honly d hleast.1.1) hleast.1.2
      · exact hleast
  · simp only [not_forall] at honly
    obtain ⟨s, hss, hsi⟩ := honly
    obtain ⟨e, he⟩ : ∃ e, IsLeast {s | Stray bs s ∧ s ≠ i} e :=
      ⟨_, Nat.sInf_mem ⟨s, hss, hsi⟩, fun _ hx => Nat.sInf_le hx⟩
    rw [hD.stray_nearestIds hi he, firstOr_singleton]
    constructor
    · intro heq
      obtain rfl : e = d := by exact_mod_cast heq
      exact .stray hi he
    · rintro (⟨hr, -⟩ | ⟨-, hnone, -⟩ | ⟨-, hleast⟩ | ⟨-, honly, -⟩)
      · exact absurd hr hi.1
      · exact absurd hnone hi.2
      · rw [he.unique hleast]
      · exact absurd (honly s hss) hsi

/-- The field `immediatedominator_id` after the round. -/
theorem DominatorSets.idom_iff (hD : DominatorSets bs D) (h : Linked base bs)
    (hbase : IdsInOrder base) {i d : Nat} (hi : i < bs.length) :
    (block (withIdoms bs D) i).immediatedominator_id = (d : Int) ↔ Above bs i d := by
  rw [block_withIdoms hi]
  by_cases hr : Reached bs i
  · exact hD.idom_of_reached h hbase hr
  · by_cases hnone : (block bs i).predecessor_ids = ∅
    · exact hD.idom_of_unentered h hbase hr hnone
    · exact hD.idom_of_stray h hbase ⟨hr, hnone⟩

/-! ## The assertion -/

/-- The blocks that get an immediate dominator, and those without
predecessors, make up all blocks just if the entry has no predecessors. -/
theorem DominatorSets.count_iff (hD : DominatorSets bs D) (h : Linked base bs)
    (hbase : IdsInOrder base) :
    ((Finset.range bs.length).filter fun i => nearestIds D i ≠ ∅).card =
        bs.length - ((Finset.range bs.length).filter fun i =>
          nearestIds D i = ∅ ∧ (block bs i).predecessor_ids = ∅).card ↔
      (block bs 0).predecessor_ids = ∅ := by
  have htwo := h.two hbase
  have hempty := hD.nearestIds_eq_empty h hbase
  have hnopred : ((Finset.range bs.length).filter fun i =>
      nearestIds D i = ∅ ∧ (block bs i).predecessor_ids = ∅) =
      (Finset.range bs.length).filter fun i => (block bs i).predecessor_ids = ∅ := by
    refine Finset.filter_congr fun i _ => ?_
    rw [hempty]
    tauto
  have hsum := Finset.card_filter_add_card_filter_not (s := Finset.range bs.length)
    fun i => (block bs i).predecessor_ids = ∅
  rw [Finset.card_range] at hsum
  rw [hnopred]
  by_cases hzero : (block bs 0).predecessor_ids = ∅
  · have hidoms : ((Finset.range bs.length).filter fun i => nearestIds D i ≠ ∅) =
        (Finset.range bs.length).filter fun i => ¬ (block bs i).predecessor_ids = ∅ := by
      refine Finset.filter_congr fun i _ => ?_
      rw [ne_eq, hempty, not_or, and_iff_right_iff_imp]
      rintro hne rfl
      exact hne hzero
    rw [hidoms]
    simp only [hzero, iff_true]
    omega
  · have hidoms : ((Finset.range bs.length).filter fun i => nearestIds D i ≠ ∅).card <
        ((Finset.range bs.length).filter fun i => ¬ (block bs i).predecessor_ids = ∅).card := by
      refine Finset.card_lt_card ?_
      rw [Finset.ssubset_iff_of_subset]
      · refine ⟨0, ?_, ?_⟩
        · exact Finset.mem_filter.mpr ⟨Finset.mem_range.mpr (by omega), hzero⟩
        · simp [(hempty 0).mpr (.inl rfl)]
      · intro i hi
        obtain ⟨hi, hne⟩ := Finset.mem_filter.mp hi
        rw [ne_eq, hempty, not_or] at hne
        exact Finset.mem_filter.mpr ⟨hi, hne.2⟩
    simp only [hzero, iff_false]
    omega

theorem DominatorSets.outside (hD : DominatorSets bs D) (h : Linked base bs)
    (hbase : IdsInOrder base) {i : Nat} (hi : bs.length ≤ i) : D i = ∅ := by
  refine hD.rest i (fun hr => ?_) (by rw [block_of_ge hi])
  have := h.reached_lt hbase hr
  omega

/-- The blocks after the first two loops of `find_idominators`. -/
theorem DominatorSets.thinned (hD : DominatorSets bs D) (h : Linked base bs)
    (hbase : IdsInOrder base) :
    findNearest dominance (List.range bs.length) (withSets dominance bs D) =
      bs.mapIdx fun i b => { b with dominator_ids := D i, Tmp_ids := nearestIds D i } := by
  have hids : (fun s => dominance.ids (block (withSets dominance bs D) s)) = D := by
    funext s
    rcases Nat.lt_or_ge s bs.length with hs | hs
    · exact ids_withSets D hs
    · rw [block_of_ge (by simpa using hs), hD.outside h hbase hs]
      rfl
  unfold findNearest
  rw [hids]
  unfold withSets
  refine List.ext_getElem (by simp) fun i hi hi' => ?_
  have hlt : i < bs.length := by simpa using hi
  simp only [List.getElem_mapIdx, List.mem_range, hlt, if_true]
  rfl

/-- The assertion of `find_idominators` holds just if the entry has no
predecessors. -/
theorem DominatorSets.find_idominators (hD : DominatorSets bs D) (h : Linked base bs)
    (hbase : IdsInOrder base) :
    gpgpu_sim_uvm.find_idominators (withSets dominance bs D) =
      if (block bs 0).predecessor_ids = ∅ then .ok (withIdoms bs D) else .error .assertion := by
  have htwo := h.two hbase
  have hids : idsInOrder (withSets dominance bs D) = true := by
    refine idsInOrder_iff.mpr fun i hi => ?_
    rw [length_withSets] at hi
    rw [block_withSets D hi, dominance.bb_id_set, h.bb_id hbase hi]
  have hblock : ∀ i < bs.length, block (bs.mapIdx fun i b =>
      { b with dominator_ids := D i, Tmp_ids := nearestIds D i }) i =
        { block bs i with dominator_ids := D i, Tmp_ids := nearestIds D i } :=
    fun i hi => block_mapIdx _ hi
  have hidoms : ((bs.mapIdx fun i b =>
      { b with dominator_ids := D i, Tmp_ids := nearestIds D i }).countP fun b => b.Tmp_ids ≠ ∅) =
        ((Finset.range bs.length).filter fun i => nearestIds D i ≠ ∅).card := by
    rw [countP_blocks, List.length_mapIdx]
    refine congrArg Finset.card (Finset.filter_congr fun i hi => ?_)
    rw [hblock i (Finset.mem_range.mp hi)]
    simp
  have hnopred : ((bs.mapIdx fun i b =>
      { b with dominator_ids := D i, Tmp_ids := nearestIds D i }).countP fun b =>
        b.Tmp_ids = ∅ ∧ b.predecessor_ids = ∅) =
        ((Finset.range bs.length).filter fun i =>
          nearestIds D i = ∅ ∧ (block bs i).predecessor_ids = ∅).card := by
    rw [countP_blocks, List.length_mapIdx]
    refine congrArg Finset.card (Finset.filter_congr fun i hi => ?_)
    rw [hblock i (Finset.mem_range.mp hi)]
    simp
  unfold gpgpu_sim_uvm.find_idominators
  rw [length_withSets, hids, if_neg (by simp; omega), hD.thinned h hbase]
  simp only [hidoms, hnopred]
  by_cases hzero : (block bs 0).predecessor_ids = ∅
  · rw [if_neg (not_not.mpr ((hD.count_iff h hbase).mpr hzero)), if_pos hzero]
    refine congrArg Except.ok (List.ext_getElem (by simp [withIdoms]) fun i hi hi' => ?_)
    simp [withIdoms]
  · rw [if_pos fun hcon => hzero ((hD.count_iff h hbase).mp hcon), if_neg hzero]

/-- The round keeps the blocks linked. -/
theorem DominatorSets.withIdoms_linked (hD : DominatorSets bs D) (h : Linked base bs)
    (hbase : IdsInOrder base) : Linked base (withIdoms bs D) := by
  have hin : ∀ i, D i ⊆ Finset.range base.length := by
    intro i d hd
    rw [← h.length]
    by_cases hs : Stray bs i
    · rwa [hD.stray i hs] at hd
    · exact Finset.mem_range.mpr (h.reached_lt hbase (hD.mem_of_not_stray hs hd).2.1)
  have htmp : ∀ i, nearestIds D i ⊆ D i := fun i =>
    (eraseAllBeyond_subset _).trans (Finset.erase_subset _ _)
  have hblock : ∀ i, bs.length ≤ i → block (withIdoms bs D) i = block bs i := by
    intro i hi
    rw [block_of_ge hi, block_of_ge (by simpa using hi)]
  have hpos : 0 < bs.length := by
    have := h.two hbase
    omega
  refine ⟨by simp [h.length], fun i => ?_, fun i => ?_, fun a b => ?_, ?_, ?_⟩
  · rw [← h.cut i]
    rcases Nat.lt_or_ge i bs.length with hi | hi
    · rw [block_withIdoms hi]
      rfl
    · rw [hblock i hi]
  · rcases Nat.lt_or_ge i bs.length with hi | hi
    · rw [block_withIdoms hi]
      refine ⟨(h.within i).successors, (h.within i).predecessors, hin i, (htmp i).trans (hin i), ?_⟩
      by_cases hnone : nearestIds D i = ∅
      · rw [hnone]
        simpa [firstOr_empty] using (h.within i).idom
      · obtain ⟨d, hd⟩ : ∃ d, IsLeast ((nearestIds D i : Finset Nat) : Set Nat) d :=
          ⟨_, Finset.isLeast_min' _ (Finset.nonempty_iff_ne_empty.mpr hnone)⟩
        refine .inr ⟨d, Finset.mem_range.mp (hin i (htmp i hd.1)), ?_⟩
        exact (firstOr_eq_iff hnone).mpr hd
    · rw [hblock i hi]
      exact h.within i
  · have hsucc : ∀ i, (block (withIdoms bs D) i).successor_ids = (block bs i).successor_ids ∧
        (block (withIdoms bs D) i).predecessor_ids = (block bs i).predecessor_ids := by
      intro i
      rcases Nat.lt_or_ge i bs.length with hi | hi
      · rw [block_withIdoms hi]
        exact ⟨rfl, rfl⟩
      · rw [hblock i hi]
        exact ⟨rfl, rfl⟩
    unfold Edge
    rw [(hsucc a).1, (hsucc b).2]
    exact h.edges a b
  · rw [block_withIdoms hpos, hD.entry]
  · rw [block_withIdoms hpos, (hD.nearestIds_eq_empty h hbase 0).mpr (.inl rfl)]
    simp [firstOr_empty, h.entry_idom]

end

end

end gpgpu_sim_uvm
