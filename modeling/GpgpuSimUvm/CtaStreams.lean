-- The streams that CTAs create on the device (abstract_hardware_model.h and .cc): a map
-- from CTA ids, ordered by `dim3comp`. The comparator orders ids as long as of any two
-- one is below the other in all coordinates.
import GpgpuSimUvm.Grids
import GpgpuSimUvm.Runs
import GpgpuSimUvm.SearchTrees

namespace gpgpu_sim_uvm

namespace cta_streams

open runs search_tree

/-! ## The code -/

def dim3comp (a b : Dim3) : Bool :=
  if a.z < b.z then true
  else if a.y < b.y then true
  else if a.x < b.x then true
  else false

/-- The map, and the streams that were made for CTAs so far, which are numbered in the
order of `new CUstream_st()` and all added to the stream manager. -/
structure CtaStreams where
  m_cta_streams : Tree Dim3 (List Nat)
  created : List (Dim3 × Nat)

variable (R : Tree.Rebalancing Dim3 (List Nat))

def CtaStreams.found (s : CtaStreams) (ctaid : Dim3) : Option (List Nat) :=
  s.m_cta_streams.find dim3comp ctaid

/-- The number of the next stream. -/
def CtaStreams.fresh (s : CtaStreams) : Nat := s.created.length

/-- A new stream that `push_back` puts into the list of the CTA. -/
def CtaStreams.push (s : CtaStreams) (ctaid : Dim3) : CtaStreams where
  m_cta_streams := s.m_cta_streams.index dim3comp R ctaid [] (· ++ [s.fresh])
  created := s.created ++ [(ctaid, s.fresh)]

/-- The stream, and the streams after the call. None is a failed assertion, here and in
what follows. -/
def CtaStreams.get_default_stream_cta (s : CtaStreams) (ctaid : Dim3) :
    Option (Nat × CtaStreams) :=
  match s.found ctaid with
  | some [] => none
  | some (stream :: _) => some (stream, s)
  | none =>
    some (s.fresh,
      { s with
          m_cta_streams := s.m_cta_streams.index dim3comp R ctaid [] fun _ => [] }.push R ctaid)

/-- The default stream comes first, made by the assertion if need be. -/
def CtaStreams.create_stream_cta (s : CtaStreams) (ctaid : Dim3) : Option (Nat × CtaStreams) :=
  (s.get_default_stream_cta R ctaid).bind fun r =>
    match r.2.found ctaid with
    | none => none
    | some streams => if streams = [] then none else some (r.2.fresh, r.2.push R ctaid)

def CtaStreams.cta_has_stream (s : CtaStreams) (ctaid : Dim3) (stream : Nat) : Bool :=
  match s.found ctaid with
  | none => false
  | some streams => streams.contains stream

/-- The streams that are destroyed, in that order. -/
def CtaStreams.destroy_cta_streams (s : CtaStreams) : List Nat :=
  s.m_cta_streams.toList.flatMap Prod.snd

inductive StreamCall where
  | create_stream_cta (ctaid : Dim3)
  | get_default_stream_cta (ctaid : Dim3)
  | cta_has_stream (ctaid : Dim3) (stream : Nat)

def CtaStreams.call (s : CtaStreams) : StreamCall → Option CtaStreams
  | .create_stream_cta ctaid => (s.create_stream_cta R ctaid).map Prod.snd
  | .get_default_stream_cta ctaid => (s.get_default_stream_cta R ctaid).map Prod.snd
  | .cta_has_stream _ _ => some s

/-- The CTAs for which the calls make streams. -/
def StreamCall.ids : StreamCall → List Dim3
  | .create_stream_cta ctaid => [ctaid]
  | .get_default_stream_cta ctaid => [ctaid]
  | .cta_has_stream _ _ => []

/-! ## The comparator -/

/-- One id is at most another in every coordinate. -/
structure Below (a b : Dim3) : Prop where
  x : a.x.toNat ≤ b.x.toNat
  y : a.y.toNat ≤ b.y.toNat
  z : a.z.toNat ≤ b.z.toNat

/-- Of any two ids one is below the other. -/
def Ordered (ids : List Dim3) : Prop := ∀ a ∈ ids, ∀ b ∈ ids, Below a b ∨ Below b a

theorem dim3comp_iff {a b : Dim3} : dim3comp a b = true ↔
    a.z.toNat < b.z.toNat ∨ a.y.toNat < b.y.toNat ∨ a.x.toNat < b.x.toNat := by
  unfold dim3comp
  rw [← UInt32.lt_iff_toNat_lt, ← UInt32.lt_iff_toNat_lt, ← UInt32.lt_iff_toNat_lt]
  split_ifs <;> simp [*]

theorem dim3comp_eq_false {a b : Dim3} : dim3comp a b = false ↔ Below b a := by
  rw [← Bool.not_eq_true, dim3comp_iff]
  constructor
  · intro h
    constructor <;> omega
  · rintro ⟨hx, hy, hz⟩
    omega

/-- The comparator orders the ids of a chain. -/
theorem Ordered.orders {ids : List Dim3} (h : Ordered ids) :
    Tree.Orders dim3comp fun c => c ∈ ids where
  irrefl a := dim3comp_eq_false.mpr ⟨Nat.le_refl _, Nat.le_refl _, Nat.le_refl _⟩
  apart a b hab hba := by
    obtain ⟨hx, hy, hz⟩ := dim3comp_eq_false.mp hab
    obtain ⟨hx', hy', hz'⟩ := dim3comp_eq_false.mp hba
    exact Dim3.ext (UInt32.toNat_inj.mp (Nat.le_antisymm hx' hx))
      (UInt32.toNat_inj.mp (Nat.le_antisymm hy' hy)) (UInt32.toNat_inj.mp (Nat.le_antisymm hz' hz))
  trans a b c ha hb hc hab hbc := by
    have hab' := dim3comp_iff.mp hab
    have hbc' : Below b c := (h b hb c hc).resolve_right fun hcb => by
      rw [dim3comp_eq_false.mpr hcb] at hbc
      cases hbc
    obtain ⟨hx, hy, hz⟩ := hbc'
    rw [dim3comp_iff]
    omega

/-! ## What the calls keep -/

/-- The streams made for a CTA, oldest first. -/
def CtaStreams.madeFor (s : CtaStreams) (c : Dim3) : List Nat :=
  (s.created.filter fun e => decide (e.1 = c)).map Prod.snd

/-- The map holds the streams of each CTA that has some. -/
structure Kept (ids : List Dim3) (s : CtaStreams) : Prop where
  sorted : s.m_cta_streams.Sorted dim3comp fun c => c ∈ ids
  holds : ∀ e, e ∈ s.m_cta_streams.toList ↔ e.2 = s.madeFor e.1 ∧ e.2 ≠ []
  numbered : s.created.map Prod.snd = List.range s.created.length

/-- As `Kept`, with a list for `c` that may be empty. -/
structure KeptBut (ids : List Dim3) (c : Dim3) (s : CtaStreams) : Prop where
  sorted : s.m_cta_streams.Sorted dim3comp fun c => c ∈ ids
  others : ∀ e, e.1 ≠ c → (e ∈ s.m_cta_streams.toList ↔ e.2 = s.madeFor e.1 ∧ e.2 ≠ [])
  own : (s.found c).getD [] = s.madeFor c
  numbered : s.created.map Prod.snd = List.range s.created.length

variable {R} {ids : List Dim3} {c : Dim3} {s : CtaStreams}

theorem mem_madeFor {st : Nat} : st ∈ s.madeFor c ↔ (c, st) ∈ s.created := by
  unfold CtaStreams.madeFor
  simp only [List.mem_map, List.mem_filter, decide_eq_true_eq]
  constructor
  · rintro ⟨⟨c', st'⟩, ⟨hmem, rfl⟩, rfl⟩
    exact hmem
  · intro hmem
    exact ⟨(c, st), ⟨hmem, rfl⟩, rfl⟩

theorem madeFor_push (c' : Dim3) :
    (s.push R c).madeFor c' = s.madeFor c' ++ if c = c' then [s.fresh] else [] := by
  unfold CtaStreams.push CtaStreams.madeFor
  by_cases hc : c = c' <;> simp [hc]

theorem Kept.found_eq (hord : Ordered ids) (h : Kept ids s) (hc : c ∈ ids) {streams : List Nat} :
    s.found c = some streams ↔ streams = s.madeFor c ∧ streams ≠ [] :=
  (Tree.find_iff hord.orders hc h.sorted).trans (h.holds (c, streams))

theorem Kept.but (hord : Ordered ids) (h : Kept ids s) (hc : c ∈ ids) : KeptBut ids c s where
  sorted := h.sorted
  others e _ := h.holds e
  own := by
    cases hfound : s.found c with
    | some streams => exact ((h.found_eq hord hc).mp hfound).1
    | none =>
      by_contra hne
      have := (h.found_eq hord hc).mpr ⟨rfl, fun hnil => hne hnil.symm⟩
      rw [hfound] at this
      cases this
  numbered := h.numbered

/-- The empty list that `get_default_stream_cta` puts in before its stream. -/
theorem Kept.emptied (hord : Ordered ids) (h : Kept ids s) (hc : c ∈ ids)
    (hnone : s.found c = none) :
    KeptBut ids c
      { s with m_cta_streams := s.m_cta_streams.index dim3comp R c [] fun _ => [] } := by
  obtain ⟨hsorted, hmem⟩ := h.sorted.index R hord.orders hc [] fun _ => []
  have hown := (h.but hord hc).own
  rw [hnone, Option.getD_none] at hown
  refine ⟨hsorted, fun e he => ?_, ?_, h.numbered⟩
  · rw [hmem e]
    refine Iff.trans ⟨?_, fun hin => .inl ⟨he, hin⟩⟩ (h.holds e)
    rintro (⟨-, hin⟩ | rfl)
    · exact hin
    · exact absurd rfl he
  · have hin := (Tree.find_iff hord.orders hc hsorted).mpr ((hmem (c, [])).mpr (.inr rfl))
    exact (congrArg (Option.getD · []) hin).trans hown

theorem KeptBut.push (hord : Ordered ids) (h : KeptBut ids c s) (hc : c ∈ ids) :
    Kept ids (s.push R c) := by
  obtain ⟨hsorted, hmem⟩ := h.sorted.index R hord.orders hc [] (· ++ [s.fresh])
  refine ⟨hsorted, fun e => (hmem e).trans ?_, ?_⟩
  · rw [madeFor_push]
    by_cases he : e.1 = c
    · obtain ⟨c', streams⟩ := e
      obtain rfl : c' = c := he
      have hown : (s.m_cta_streams.find dim3comp c').getD [] = s.madeFor c' := h.own
      simp only [hown, ne_eq, not_true_eq_false, false_and, false_or, Prod.mk.injEq, true_and,
        if_pos]
      constructor
      · rintro rfl
        simp
      · exact And.left
    · have hne : e ≠ (c, (s.m_cta_streams.find dim3comp c).getD [] ++ [s.fresh]) := by
        rintro rfl
        exact he rfl
      rw [if_neg (Ne.symm he), List.append_nil, ← h.others e he]
      simp [he, hne]
  · simp [CtaStreams.push, CtaStreams.fresh, h.numbered, List.range_succ]

/-! ## What the calls answer -/

/-- The default stream is made if the CTA has none, and then the map holds it. -/
theorem Kept.get_default (hord : Ordered ids) (h : Kept ids s) (hc : c ∈ ids) :
    ∃ st s', s.get_default_stream_cta R c = some (st, s') ∧ Kept ids s' ∧
      (s'.madeFor c).head? = some st ∧ s.created <+: s'.created := by
  unfold CtaStreams.get_default_stream_cta
  cases hfound : s.found c with
  | none =>
    have hown := (h.but hord hc).own
    rw [hfound, Option.getD_none] at hown
    refine ⟨_, _, rfl, (h.emptied hord hc hfound).push hord hc, ?_, List.prefix_append _ _⟩
    rw [madeFor_push]
    unfold CtaStreams.madeFor at hown ⊢
    simp [← hown, CtaStreams.fresh]
  | some streams =>
    obtain ⟨hmade, hne⟩ := (h.found_eq hord hc).mp hfound
    cases streams with
    | nil => exact absurd rfl hne
    | cons st rest => exact ⟨st, s, rfl, h, by rw [← hmade]; rfl, List.prefix_rfl⟩

theorem Kept.create (hord : Ordered ids) (h : Kept ids s) (hc : c ∈ ids) :
    ∃ st s', s.create_stream_cta R c = some (st, s') ∧ Kept ids s' := by
  obtain ⟨st, s', hget, hkept, hhead, -⟩ := h.get_default (R := R) hord hc
  have hne : s'.madeFor c ≠ [] := by
    intro hnil
    simp [hnil] at hhead
  have hfound := (hkept.found_eq hord hc).mpr ⟨rfl, hne⟩
  refine ⟨s'.fresh, s'.push R c, ?_, (hkept.but hord hc).push hord hc⟩
  unfold CtaStreams.create_stream_cta
  rw [hget, Option.bind_some, hfound]
  exact if_neg hne

theorem cta_has_stream_iff {st : Nat} :
    s.cta_has_stream c st = true ↔ ∃ streams, s.found c = some streams ∧ st ∈ streams := by
  unfold CtaStreams.cta_has_stream
  cases s.found c <;> simp

/-- Any id may be asked for. -/
theorem Kept.has (hord : Ordered ids) (h : Kept ids s) (c : Dim3) (st : Nat) :
    s.cta_has_stream c st = true ↔ (c, st) ∈ s.created := by
  rw [cta_has_stream_iff]
  constructor
  · rintro ⟨streams, hfound, hst⟩
    have hmem := (h.holds _).mp (Tree.mem_of_find hord.orders hfound)
    rw [← mem_madeFor, ← hmem.1]
    exact hst
  · intro hmem
    have hmade := mem_madeFor.mpr hmem
    have hin := (h.holds (c, s.madeFor c)).mpr ⟨rfl, List.ne_nil_of_mem hmade⟩
    exact ⟨_, (h.found_eq hord (h.sorted.keys _ hin)).mpr ⟨rfl, List.ne_nil_of_mem hmade⟩, hmade⟩

theorem Kept.call (hord : Ordered ids) (h : Kept ids s) (call : StreamCall)
    (hids : ∀ c ∈ call.ids, c ∈ ids) : ∃ s', s.call R call = some s' ∧ Kept ids s' := by
  unfold CtaStreams.call
  cases call with
  | create_stream_cta c =>
    obtain ⟨st, s', hcall, hkept⟩ := h.create (R := R) hord (hids c (by simp [StreamCall.ids]))
    exact ⟨s', by simp [hcall], hkept⟩
  | get_default_stream_cta c =>
    obtain ⟨st, s', hcall, hkept, -⟩ :=
      h.get_default (R := R) hord (hids c (by simp [StreamCall.ids]))
    exact ⟨s', by simp [hcall], hkept⟩
  | cta_has_stream c st => exact ⟨s, rfl, h⟩

end cta_streams

end gpgpu_sim_uvm
