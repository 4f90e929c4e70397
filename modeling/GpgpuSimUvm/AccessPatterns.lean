-- The access patterns of the smart runtime (gmmu.cc): the pattern of a data structure is
-- folded over the kernels by a table of transitions. It is the join of what the kernels
-- showed, except that the table has no way out of MIXED.
import Mathlib.Order.Lattice
import GpgpuSimUvm.Policy

namespace gpgpu_sim_uvm

/-! ## What the kernels show -/

/-- Whether some kernel came to the blocks in order, whether some did not, and whether a
block was used again. -/
structure Evidence where
  linear : Bool
  random : Bool
  reuse : Bool
  deriving DecidableEq

def Evidence.join (e e' : Evidence) : Evidence :=
  ⟨e.linear || e'.linear, e.random || e'.random, e.reuse || e'.reuse⟩

instance : Max Evidence := ⟨Evidence.join⟩

theorem Evidence.sup_eq (e e' : Evidence) : e ⊔ e' = e.join e' := rfl

/-- The evidence is a lattice: there is more or less of it. -/
instance : SemilatticeSup Evidence :=
  SemilatticeSup.mk' (fun a b => by simp [Evidence.sup_eq, Evidence.join, Bool.or_comm])
    (fun a b c => by simp [Evidence.sup_eq, Evidence.join, Bool.or_assoc])
    (fun a => by simp [Evidence.sup_eq, Evidence.join])

/-- The pattern that the evidence amounts to. -/
def Evidence.pattern : Evidence → DsPattern
  | ⟨false, false, _⟩ => .UNDECIDED
  | ⟨true, false, false⟩ => .LINEAR
  | ⟨true, false, true⟩ => .LINEAR_REUSE
  | ⟨false, true, false⟩ => .RANDOM
  | ⟨false, true, true⟩ => .RANDOM_REUSE
  | ⟨true, true, false⟩ => .MIXED
  | ⟨true, true, true⟩ => .MIXED_REUSE

/-- Some kernel came to a block twice, or to a block that an earlier one had come to. -/
def Reused (kernels : List (List Nat)) : Prop :=
  (∃ blocks ∈ kernels, ¬ blocks.Nodup) ∨
    ¬ kernels.Pairwise fun early late => ∀ b ∈ late, b ∉ early

instance (kernels : List (List Nat)) : Decidable (Reused kernels) := by
  unfold Reused
  infer_instance

/-- What a list of kernels showed of a data structure, each by the blocks it came to. -/
def evidence (kernels : List (List Nat)) : Evidence where
  linear := kernels.any fun blocks => decide (blocks.Pairwise (· ≤ ·))
  random := kernels.any fun blocks => decide (¬ blocks.Pairwise (· ≤ ·))
  reuse := decide (Reused kernels)

/-- The blocks of a data structure, kernel by kernel, of the kernels that came to it. -/
def observed (g : Gpu) (a : AllocationInfo) : List (List Nat) :=
  (g.kernel_info.values.map fun k => dsAccess g.block_access_list k a).filter (· ≠ [])

/-- Both kinds of access were there before the first reuse. -/
def LateReuse (kernels : List (List Nat)) : Prop :=
  ∃ early blocks late, kernels = early ++ blocks :: late ∧
    evidence early = ⟨true, true, false⟩ ∧ Reused (early ++ [blocks])

/-! ## One more kernel -/

/-- A kernel comes to a block twice, or to a block of an earlier kernel. -/
def UsesAgain (kernels : List (List Nat)) (blocks : List Nat) : Prop :=
  ¬ blocks.Nodup ∨ ∃ b ∈ blocks, b ∈ kernels.flatten

instance (kernels : List (List Nat)) (blocks : List Nat) :
    Decidable (UsesAgain kernels blocks) := by
  unfold UsesAgain
  infer_instance

theorem reused_snoc (kernels : List (List Nat)) (blocks : List Nat) :
    Reused (kernels ++ [blocks]) ↔ Reused kernels ∨ UsesAgain kernels blocks := by
  unfold Reused UsesAgain
  rw [List.pairwise_append]
  simp only [List.mem_append, List.mem_singleton, List.pairwise_singleton, true_and,
    List.mem_flatten]
  constructor
  · rintro (⟨l, hl | rfl, hdup⟩ | hnot)
    · exact Or.inl (Or.inl ⟨l, hl, hdup⟩)
    · exact Or.inr (Or.inl hdup)
    · by_cases hold : kernels.Pairwise fun early late => ∀ b ∈ late, b ∉ early
      · have hmeet : ∃ early ∈ kernels, ∃ b ∈ blocks, b ∈ early := by
          by_contra hcon
          refine hnot ⟨hold, ?_⟩
          rintro early hearly _ rfl b hb hin
          exact hcon ⟨early, hearly, b, hb, hin⟩
        obtain ⟨early, hearly, b, hb, hin⟩ := hmeet
        exact Or.inr (Or.inr ⟨b, hb, early, hearly, hin⟩)
      · exact Or.inl (Or.inr hold)
  · rintro ((⟨l, hl, hdup⟩ | hnot) | hdup | ⟨b, hb, early, hearly, hin⟩)
    · exact Or.inl ⟨l, Or.inl hl, hdup⟩
    · exact Or.inr fun h => hnot h.1
    · exact Or.inl ⟨blocks, Or.inr rfl, hdup⟩
    · exact Or.inr fun h => h.2 early hearly blocks rfl b hb hin

/-- What one kernel shows behind the earlier ones. -/
def kernelEvidence (kernels : List (List Nat)) (blocks : List Nat) : Evidence where
  linear := decide (blocks.Pairwise (· ≤ ·))
  random := decide (¬ blocks.Pairwise (· ≤ ·))
  reuse := decide (UsesAgain kernels blocks)

/-- A kernel comes to the blocks in order or it does not. -/
theorem kernelEvidence_one (kernels : List (List Nat)) (blocks : List Nat) :
    (kernelEvidence kernels blocks).random = !(kernelEvidence kernels blocks).linear := by
  simp [kernelEvidence]

/-- The evidence is the join over the kernels. -/
theorem evidence_snoc (kernels : List (List Nat)) (blocks : List Nat) :
    evidence (kernels ++ [blocks]) = evidence kernels ⊔ kernelEvidence kernels blocks := by
  simp only [Evidence.sup_eq, evidence, kernelEvidence, Evidence.join, List.any_append,
    List.any_cons, List.any_nil, Bool.or_false, reused_snoc, Bool.decide_or]

/-- Without a kernel there is no evidence of reuse. -/
theorem evidence_seen {kernels : List (List Nat)} (h : (evidence kernels).reuse = true) :
    ((evidence kernels).linear || (evidence kernels).random) = true := by
  cases kernels with
  | nil => simp [evidence, Reused] at h
  | cons blocks rest =>
    by_cases hsorted : blocks.Pairwise (· ≤ ·)
    · simp [evidence, hsorted]
    · simp [evidence, hsorted]

/-- The table joins the evidence, but for a reuse that comes to a mixed pattern. -/
theorem update_pattern (e e' : Evidence) (hseen : e.reuse = true → (e.linear || e.random) = true)
    (hone : e'.random = !e'.linear) :
    e.pattern.update e'.pattern =
      if e = ⟨true, true, false⟩ ∧ e'.reuse = true then .MIXED else (e ⊔ e').pattern := by
  obtain ⟨l, r, u⟩ := e
  obtain ⟨l', r', u'⟩ := e'
  simp only at hone
  subst hone
  cases l <;> cases r <;> cases u <;> cases l' <;> cases u' <;>
    simp_all [Evidence.pattern, Evidence.sup_eq, Evidence.join, DsPattern.update]

theorem mixed_stays (p : DsPattern) : DsPattern.update .MIXED p = .MIXED := by
  cases p <;> rfl

/-- `sort()` and `unique()` keep the blocks. -/
theorem mem_sortUnique {b : Nat} {blocks : List Nat} : b ∈ sortUnique blocks ↔ b ∈ blocks := by
  simp [sortUnique]

/-- They shorten the list exactly if a block comes twice. -/
theorem length_sortUnique {blocks : List Nat} :
    (sortUnique blocks).length = blocks.length ↔ blocks.Nodup := by
  have hperm := List.perm_insertionSort (· ≤ ·) blocks
  unfold sortUnique
  rw [← hperm.length_eq, ← hperm.nodup_iff, ← List.dedup_eq_self]
  exact ⟨(List.dedup_sublist _).eq_of_length, fun h => by rw [h]⟩

/-- The pattern that the code gives a kernel is that of what it shows. -/
theorem patternOfKernel_eq {p : DsPattern} {seen : List Nat} {kernels : List (List Nat)}
    (hseen : ∀ b, b ∈ seen ↔ b ∈ kernels.flatten) (blocks : List Nat) :
    patternOfKernel (p, seen) blocks =
      (p.update (kernelEvidence kernels blocks).pattern,
        sortUnique (seen ++ sortUnique blocks)) := by
  have hreuse : ((sortUnique blocks).length ≠ blocks.length ∨
      (sortUnique blocks).any (· ∈ seen) = true) ↔ UsesAgain kernels blocks := by
    rw [Ne, length_sortUnique, UsesAgain]
    simp only [List.any_eq_true, mem_sortUnique, decide_eq_true_eq, hseen]
  unfold patternOfKernel kernelEvidence
  simp only [hreuse]
  by_cases hsorted : blocks.Pairwise (· ≤ ·) <;>
    by_cases hagain : UsesAgain kernels blocks <;>
      simp [hsorted, hagain, Evidence.pattern]

/-! ## All kernels -/

/-- The fold of the code over the kernels of a data structure. -/
def classify (kernels : List (List Nat)) : DsPattern × List Nat :=
  kernels.foldl patternOfKernel (.UNDECIDED, [])

theorem classify_snoc (kernels : List (List Nat)) (blocks : List Nat) :
    classify (kernels ++ [blocks]) = patternOfKernel (classify kernels) blocks := by
  simp [classify]

theorem mem_seen (kernels : List (List Nat)) (b : Nat) :
    b ∈ (classify kernels).2 ↔ b ∈ kernels.flatten := by
  induction kernels using List.reverseRecOn with
  | nil => simp [classify]
  | append_singleton kernels blocks ih =>
    rw [classify_snoc, patternOfKernel]
    simp only [mem_sortUnique, List.mem_append, List.flatten_append, List.flatten_singleton, ih]

/-- One more kernel updates the pattern by what it shows. -/
theorem classify_update (kernels : List (List Nat)) (blocks : List Nat) :
    (classify (kernels ++ [blocks])).1 =
      (classify kernels).1.update (kernelEvidence kernels blocks).pattern := by
  rw [classify_snoc, patternOfKernel_eq (mem_seen kernels)]

theorem evidence_reuse (kernels : List (List Nat)) :
    (evidence kernels).reuse = true ↔ Reused kernels := by
  simp [evidence]

/-- A late reuse is one of the earlier kernels, or the last kernel is the first to reuse and
comes to a mixed pattern. -/
theorem lateReuse_snoc (kernels : List (List Nat)) (blocks : List Nat) :
    LateReuse (kernels ++ [blocks]) ↔ LateReuse kernels ∨
      (evidence kernels = ⟨true, true, false⟩ ∧ (kernelEvidence kernels blocks).reuse = true) := by
  constructor
  · rintro ⟨early, first, late, hsplit, hmixed, hreused⟩
    rcases List.eq_nil_or_concat late with rfl | ⟨late, last, rfl⟩
    · obtain ⟨rfl, hlast⟩ := List.append_inj' hsplit rfl
      obtain rfl : blocks = first := by simpa using hlast
      refine Or.inr ⟨hmixed, ?_⟩
      rcases (reused_snoc _ _).mp hreused with hold | hagain
      · rw [← evidence_reuse, hmixed] at hold
        simp at hold
      · simpa [kernelEvidence] using hagain
    · refine Or.inl ⟨early, first, late, ?_, hmixed, hreused⟩
      have hsplit' : kernels ++ [blocks] = (early ++ first :: late) ++ [last] := by
        simpa using hsplit
      exact (List.append_inj' hsplit' rfl).1
  · rintro (⟨early, first, late, rfl, hmixed, hreused⟩ | ⟨hmixed, hagain⟩)
    · exact ⟨early, first, late ++ [blocks], by simp, hmixed, hreused⟩
    · refine ⟨kernels, blocks, [], rfl, hmixed, (reused_snoc _ _).mpr (Or.inr ?_)⟩
      simpa [kernelEvidence] using hagain

/-- What the fold leaves: the join, or MIXED behind a late reuse. -/
structure Classified (kernels : List (List Nat)) (p : DsPattern) : Prop where
  joined : ¬ LateReuse kernels → p = (evidence kernels).pattern
  stuck : LateReuse kernels → p = .MIXED ∧ evidence kernels = ⟨true, true, true⟩

theorem Evidence.full_sup (e : Evidence) :
    (⟨true, true, true⟩ : Evidence) ⊔ e = ⟨true, true, true⟩ := by
  simp [Evidence.sup_eq, Evidence.join]

/-- By induction over the kernels: one more kernel joins what it shows, gets stuck, or is
stuck. -/
theorem classified (kernels : List (List Nat)) : Classified kernels (classify kernels).1 := by
  induction kernels using List.reverseRecOn with
  | nil =>
    refine ⟨fun _ => by simp [classify, evidence, Evidence.pattern], ?_⟩
    rintro ⟨early, first, late, hsplit, -⟩
    simp at hsplit
  | append_singleton kernels blocks ih =>
    rw [classify_update]
    by_cases hlate : LateReuse kernels
    · obtain ⟨hmixed, hfull⟩ := ih.stuck hlate
      refine ⟨fun h => absurd ((lateReuse_snoc _ _).mpr (Or.inl hlate)) h, fun _ => ?_⟩
      rw [hmixed, mixed_stays, evidence_snoc, hfull, Evidence.full_sup]
      exact ⟨rfl, rfl⟩
    · rw [ih.joined hlate, update_pattern _ _ evidence_seen (kernelEvidence_one _ _)]
      by_cases hfirst : evidence kernels = ⟨true, true, false⟩ ∧
          (kernelEvidence kernels blocks).reuse = true
      · rw [if_pos hfirst]
        refine ⟨fun h => absurd ((lateReuse_snoc _ _).mpr (Or.inr hfirst)) h, fun _ => ⟨rfl, ?_⟩⟩
        rw [evidence_snoc, hfirst.1]
        simp [Evidence.sup_eq, Evidence.join, hfirst.2]
      · rw [if_neg hfirst]
        refine ⟨fun _ => by rw [evidence_snoc], fun h => ?_⟩
        exact absurd ((lateReuse_snoc _ _).mp h) (not_or.mpr ⟨hlate, hfirst⟩)

/-- Later kernels only add to the evidence. -/
theorem evidence_mono (kernels later : List (List Nat)) :
    evidence kernels ≤ evidence (kernels ++ later) := by
  induction later using List.reverseRecOn with
  | nil => simp
  | append_singleton later blocks ih =>
    rw [← List.append_assoc, evidence_snoc]
    exact ih.trans le_sup_left

/-- A kernel that adds no evidence leaves the pattern as it was. -/
theorem classify_old_evidence {kernels : List (List Nat)} {blocks : List Nat}
    (h : evidence kernels ⊔ kernelEvidence kernels blocks = evidence kernels) :
    (classify (kernels ++ [blocks])).1 = (classify kernels).1 := by
  rw [classify_update]
  by_cases hlate : LateReuse kernels
  · rw [((classified kernels).stuck hlate).1, mixed_stays]
  · rw [(classified kernels).joined hlate,
      update_pattern _ _ evidence_seen (kernelEvidence_one _ _), h]
    refine if_neg ?_
    rintro ⟨hmixed, hreuse⟩
    rw [hmixed] at h
    simp [Evidence.sup_eq, Evidence.join, hreuse] at h

theorem classify_no_new_evidence {kernels later : List (List Nat)}
    (h : evidence (kernels ++ later) = evidence kernels) :
    (classify (kernels ++ later)).1 = (classify kernels).1 := by
  induction later using List.reverseRecOn with
  | nil => simp
  | append_singleton later blocks ih =>
    rw [← List.append_assoc, evidence_snoc] at h
    -- the kernels in between have no evidence to add either
    have hbetween : evidence (kernels ++ later) = evidence kernels :=
      le_antisymm (h ▸ le_sup_left) (evidence_mono kernels later)
    rw [← List.append_assoc, classify_old_evidence (h.trans hbetween.symm), ih hbetween]

/-! ## The law -/

/-- The pattern of a data structure is the join of what the kernels showed, exactly unless
the first reuse came behind both kinds of access. Kernels that show nothing new never
change it. -/
theorem accessPattern_join_iff (g : Gpu) (a : AllocationInfo) :
    (accessPattern g a = (evidence (observed g a)).pattern ↔ ¬ LateReuse (observed g a)) ∧
      ∀ g' later, observed g' a = observed g a ++ later →
        evidence (observed g' a) = evidence (observed g a) →
          accessPattern g' a = accessPattern g a := by
  have hfold : ∀ g, accessPattern g a = (classify (observed g a)).1 := fun _ => rfl
  constructor
  · rw [hfold]
    constructor
    · intro h hlate
      obtain ⟨hmixed, hfull⟩ := (classified (observed g a)).stuck hlate
      rw [hmixed, hfull] at h
      exact absurd h (by decide)
    · exact (classified (observed g a)).joined
  · intro g' later hlater hold
    rw [hfold, hfold, hlater]
    rw [hlater] at hold
    exact classify_no_new_evidence hold

/-! ## A late reuse -/

/-- Three kernels on one allocation of four blocks: the first in order, the second against
it, the third still runs. -/
def threeKernels (third : List (Nat × Nat)) : Gpu where
  num_free_pages := 0
  evict_policy := .LRU
  prefetcher := .TBN
  dma_mode := .DISABLED
  block_access_list := [(1, 0), (2, 131072), (3, 65536)] ++ third
  kernel_info := ((StdMap.empty.alter 1 (1, 1) id).alter 2 (2, 3) id).alter 3 (4, 0) id

def fourBlocks : AllocationInfo := ⟨0, 0, 262144, false⟩

theorem a_new_block_adds_nothing :
    accessPattern (threeKernels [(4, 196608)]) fourBlocks =
      accessPattern (threeKernels []) fourBlocks :=
  (accessPattern_join_iff (threeKernels []) fourBlocks).2 (threeKernels [(4, 196608)])
    [[196608]] (by decide) (by decide)

/-- The third kernel comes to the first block again. -/
theorem a_late_reuse_is_lost :
    accessPattern (threeKernels [(4, 0)]) fourBlocks = .MIXED ∧
      (evidence (observed (threeKernels [(4, 0)]) fourBlocks)).pattern = .MIXED_REUSE := by
  decide

end gpgpu_sim_uvm
