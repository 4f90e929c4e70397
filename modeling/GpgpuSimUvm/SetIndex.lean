-- Which set or bank of a cache an address goes to (gpu-cache.cc). The polynomial hash
-- has no equations for most counts: there the set is drawn and kept in one table for
-- all caches.
import GpgpuSimUvm.IpolyHash
import GpgpuSimUvm.Runs
import Mathlib.Data.List.Induction

namespace gpgpu_sim_uvm

namespace cache_config

open addrdec runs

/-! ## The code -/

def RAND_MAX : Nat := 2147483647

inductive SetIndexFunction where
  | LINEAR_SET_FUNCTION
  | BITWISE_XORING_FUNCTION
  | HASH_IPOLY_FUNCTION
  | FERMI_HASH_SET_FUNCTION
  | CUSTOM_SET_FUNCTION
  deriving DecidableEq

/-- The geometry that `set_index` and `set_bank` hash with: sets and line size, or
banks and their interleaving. -/
structure Geometry where
  m_nset : Nat
  m_line_sz_log2 : Nat
  m_nset_log2 : Nat

/-- `cache_address_random_interleaving` -/
abbrev Interleaving := Nat → Option Nat

variable (g : Geometry)

def Geometry.set_address (addr : Nat) : Nat := addr >>> g.m_line_sz_log2

def Geometry.index (addr : Nat) : Nat := (addr >>> g.m_line_sz_log2) &&& (g.m_nset - 1)

def Geometry.higher_bits (addr : Nat) : Nat := addr >>> (g.m_line_sz_log2 + g.m_nset_log2)

def fermiIndex (addr : Nat) : Option Nat :=
  if g.m_nset = 32 ∨ g.m_nset = 64 then
    let lower_xor := (addr >>> g.m_line_sz_log2) &&& 0x1F
    let upper_xor := (addr &&& 0xE000) >>> 13 ||| (addr &&& 0x20000) >>> 14 |||
      (addr &&& 0x80000) >>> 15
    let set_index := lower_xor ^^^ upper_xor
    some (if g.m_nset = 64 then set_index ||| (addr &&& 0x1000) >>> 7 else set_index)
  else none

/-- Counts without equations use the table. `r` is the value that `rand` would return. -/
def ipolyIndex (addr r : Nat) (table : Interleaving) : Option (Nat × Interleaving) :=
  if g.m_nset < 16 ∨ 64 < g.m_nset then
    match table (g.set_address addr) with
    | none =>
      let new_set_id := r % g.m_nset
      some (new_set_id, Function.update table (g.set_address addr) (some new_set_id))
    | some new_set_id => some (new_set_id, table)
  else
    (ipoly_hash_function (g.higher_bits addr) (g.index addr) g.m_nset).map fun i => (i, table)

/-- The set, and the table after the call. None is a failed assertion. -/
def hash_function (m_index_function : SetIndexFunction) (addr r : Nat) (table : Interleaving) :
    Option (Nat × Interleaving) :=
  let found := match m_index_function with
    | .FERMI_HASH_SET_FUNCTION => (fermiIndex g addr).map fun i => (i, table)
    | .BITWISE_XORING_FUNCTION =>
      some (bitwise_hash_function (g.higher_bits addr) (g.index addr) g.m_nset, table)
    | .HASH_IPOLY_FUNCTION => ipolyIndex g addr r table
    | .CUSTOM_SET_FUNCTION => some (0, table)
    | .LINEAR_SET_FUNCTION => some (g.index addr, table)
  found.bind fun found => if found.1 < g.m_nset then some found else none

/-! ## A family of caches -/

section

variable {C : Type} (cfg : C → Geometry)

/-- An access, with what `rand` returns if it is asked. -/
structure Access (C : Type) where
  cache : C
  addr : Nat

/-- A set that was returned. -/
structure Served (C : Type) where
  cache : C
  block : Nat
  set : Nat

/-- The table, and the sets that were returned so far. -/
structure Sets (C : Type) where
  table : Interleaving
  served : List (Served C)

def noSets : Sets C := ⟨fun _ => none, []⟩

def serve (s : Sets C) (a : Access C × Nat) : Option (Sets C) :=
  (hash_function (cfg a.1.cache) .HASH_IPOLY_FUNCTION a.1.addr a.2 s.table).map fun r =>
    ⟨r.2, s.served ++ [⟨a.1.cache, (cfg a.1.cache).set_address a.1.addr, r.1⟩]⟩

/-- Every set is in its range, and one cache has one set for a block. -/
structure Sound (s : Sets C) : Prop where
  lt : ∀ e ∈ s.served, e.set < (cfg e.cache).m_nset
  one : ∀ e ∈ s.served, ∀ e' ∈ s.served, e.cache = e'.cache → e.block = e'.block → e.set = e'.set

/-- The count uses the table. -/
def Geometry.Drawn (g : Geometry) : Prop := g.m_nset < 16 ∨ 64 < g.m_nset

/-- There is a set, and the hash knows the count or draws. -/
def Geometry.Supported (g : Geometry) : Prop :=
  (g.m_nset = 16 ∨ g.m_nset = 32 ∨ g.m_nset = 64) ∨ 0 < g.m_nset ∧ g.Drawn

instance (g : Geometry) : Decidable g.Drawn := inferInstanceAs (Decidable (_ ∨ _))

/-- Both accesses ask the table for one address. -/
def SharesDraw (a b : Access C) : Prop :=
  ((cfg a.cache).Drawn ∧ (cfg b.cache).Drawn) ∧
    (cfg a.cache).set_address a.addr = (cfg b.cache).set_address b.addr

/-- The first access that draws for an address has no more sets than any later one that
asks for it (or these are more than `rand` can reach). -/
structure DrawsFit (accesses : List (Access C)) : Prop where
  supported : ∀ a ∈ accesses, (cfg a.cache).Supported
  fits : ∀ front a mid b rest, accesses = front ++ a :: (mid ++ b :: rest) → SharesDraw cfg a b →
    (∀ c ∈ front, ¬ SharesDraw cfg c a) →
    (cfg a.cache).m_nset ≤ (cfg b.cache).m_nset ∨ RAND_MAX < (cfg b.cache).m_nset

variable {cfg}

/-! ## One access -/

theorem ipoly_index_lt {higher_bits index n v : Nat}
    (h : ipoly_hash_function higher_bits index n = some v) :
    v < n ∧ (n = 16 ∨ n = 32 ∨ n = 64) := by
  unfold ipoly_hash_function at h
  obtain ⟨taps, htaps, rfl⟩ := Option.map_eq_some_iff.mp h
  obtain ⟨hn, hlen⟩ := Translation.ipolyTaps_eq_some htaps
  have hlt := hashBits_lt higher_bits index taps 0
  rw [Nat.zero_add, hlen] at hlt
  exact ⟨hlt, hn⟩

/-- The hash of a block, where the count has equations. -/
def Geometry.hashed (g : Geometry) (block : Nat) : Option Nat :=
  ipoly_hash_function (block >>> g.m_nset_log2) (block &&& (g.m_nset - 1)) g.m_nset

/-- The set that an access gets from the table or from `rand`. -/
def drawnSet (cfg : C → Geometry) (s : Sets C) (c : Access C × Nat) : Nat :=
  (s.table ((cfg c.1.cache).set_address c.1.addr)).getD (c.2 % (cfg c.1.cache).m_nset)

theorem serve_drawn {s : Sets C} {c : Access C × Nat} (h : (cfg c.1.cache).Drawn) :
    serve cfg s c = if drawnSet cfg s c < (cfg c.1.cache).m_nset then
      some ⟨Function.update s.table ((cfg c.1.cache).set_address c.1.addr)
          (some (drawnSet cfg s c)),
        s.served ++ [⟨c.1.cache, (cfg c.1.cache).set_address c.1.addr, drawnSet cfg s c⟩]⟩
      else none := by
  have hsame : ∀ {v}, s.table ((cfg c.1.cache).set_address c.1.addr) = some v →
      Function.update s.table ((cfg c.1.cache).set_address c.1.addr) (some v) = s.table := by
    intro v hv
    rw [← hv, Function.update_eq_self]
  unfold serve hash_function ipolyIndex drawnSet
  unfold Geometry.Drawn at h
  simp only [if_pos h]
  cases htable : s.table ((cfg c.1.cache).set_address c.1.addr) with
  | none =>
    simp only [Option.bind_some, Option.getD_none]
    split <;> rfl
  | some v =>
    simp only [Option.bind_some, Option.getD_some, hsame htable]
    split <;> rfl

theorem serve_hashed {s : Sets C} {c : Access C × Nat} (h : ¬ (cfg c.1.cache).Drawn) :
    serve cfg s c = ((cfg c.1.cache).hashed ((cfg c.1.cache).set_address c.1.addr)).map fun v =>
      ⟨s.table, s.served ++ [⟨c.1.cache, (cfg c.1.cache).set_address c.1.addr, v⟩]⟩ := by
  have hhash : ipoly_hash_function ((cfg c.1.cache).higher_bits c.1.addr)
      ((cfg c.1.cache).index c.1.addr) (cfg c.1.cache).m_nset =
      (cfg c.1.cache).hashed ((cfg c.1.cache).set_address c.1.addr) := by
    unfold Geometry.hashed Geometry.higher_bits Geometry.index Geometry.set_address
    rw [Nat.shiftRight_add]
  unfold serve hash_function ipolyIndex
  unfold Geometry.Drawn at h
  simp only [if_neg h, hhash]
  cases hv : (cfg c.1.cache).hashed ((cfg c.1.cache).set_address c.1.addr) with
  | none => rfl
  | some v =>
    have hlt := (ipoly_index_lt hv).1
    simp only [Option.map_some, Option.bind_some, if_pos hlt]

/-- An access that is served has a geometry that the hash supports. -/
theorem supported_of_serve {s s' : Sets C} {c : Access C × Nat} (h : serve cfg s c = some s') :
    (cfg c.1.cache).Supported := by
  by_cases hdrawn : (cfg c.1.cache).Drawn
  · rw [serve_drawn hdrawn] at h
    split at h
    · exact .inr ⟨by omega, hdrawn⟩
    · cases h
  · rw [serve_hashed hdrawn] at h
    obtain ⟨v, hv, -⟩ := Option.map_eq_some_iff.mp h
    exact .inl (ipoly_index_lt hv).2

/-- What a served access leaves. -/
theorem serve_cases {s s' : Sets C} {c : Access C × Nat} (h : serve cfg s c = some s') :
    ∃ v < (cfg c.1.cache).m_nset,
      s'.served = s.served ++ [⟨c.1.cache, (cfg c.1.cache).set_address c.1.addr, v⟩] ∧
      ((cfg c.1.cache).Drawn ∧ v = drawnSet cfg s c ∧
          s'.table = Function.update s.table ((cfg c.1.cache).set_address c.1.addr) (some v) ∨
        ¬ (cfg c.1.cache).Drawn ∧ s'.table = s.table ∧
          (cfg c.1.cache).hashed ((cfg c.1.cache).set_address c.1.addr) = some v) := by
  by_cases hdrawn : (cfg c.1.cache).Drawn
  · rw [serve_drawn hdrawn] at h
    split at h
    · rename_i hlt
      cases h
      exact ⟨_, hlt, rfl, .inl ⟨hdrawn, rfl, rfl⟩⟩
    · cases h
  · rw [serve_hashed hdrawn] at h
    obtain ⟨v, hv, rfl⟩ := Option.map_eq_some_iff.mp h
    exact ⟨v, (ipoly_index_lt hv).1, rfl, .inr ⟨hdrawn, rfl, hv⟩⟩

/-- An access is served where its set is in range. -/
theorem serve_ok {s : Sets C} {c : Access C × Nat} (hsupp : (cfg c.1.cache).Supported)
    (hdrawn : (cfg c.1.cache).Drawn → drawnSet cfg s c < (cfg c.1.cache).m_nset) :
    ∃ s', serve cfg s c = some s' := by
  by_cases h : (cfg c.1.cache).Drawn
  · exact ⟨_, by rw [serve_drawn h, if_pos (hdrawn h)]⟩
  · have hn := hsupp.resolve_right fun hcon => h hcon.2
    obtain ⟨taps, htaps⟩ := Option.isSome_iff_exists.mp
      ((Translation.ipolyTaps_isSome (cfg c.1.cache).m_nset).mpr hn)
    rw [serve_hashed h]
    unfold Geometry.hashed ipoly_hash_function
    rw [htaps]
    exact ⟨_, rfl⟩

/-! ## The table -/

/-- An access that draws for the address `k`. -/
def asks (cfg : C → Geometry) (k : Nat) (c : Access C × Nat) : Bool :=
  decide ((cfg c.1.cache).Drawn ∧ (cfg c.1.cache).set_address c.1.addr = k)

/-- The table holds what the first access for an address has drawn. -/
theorem table_of_run {front : List (Access C × Nat)} {s : Sets C}
    (h : front.foldlM (serve cfg) noSets = some s) (k : Nat) :
    s.table k = (front.find? (asks cfg k)).map fun c => c.2 % (cfg c.1.cache).m_nset := by
  induction front using List.reverseRecOn generalizing s k with
  | nil =>
    cases h
    rfl
  | append_singleton front c ih =>
    rw [List.foldlM_append] at h
    obtain ⟨t, ht, hstep⟩ := Option.bind_eq_some_iff.mp h
    have hserve : serve cfg t c = some s := by
      rw [List.foldlM_cons] at hstep
      obtain ⟨u, hu, hnil⟩ := Option.bind_eq_some_iff.mp hstep
      cases hnil
      exact hu
    rw [List.find?_append, Option.map_or, ← ih ht]
    obtain ⟨v, -, -, ⟨hdrawn, hv, htable⟩ | ⟨hdrawn, htable, -⟩⟩ := serve_cases hserve
    · rw [htable]
      by_cases hk : (cfg c.1.cache).set_address c.1.addr = k
      · subst hk
        rw [Function.update_self, hv]
        unfold drawnSet
        cases t.table ((cfg c.1.cache).set_address c.1.addr) <;> simp [asks, hdrawn]
      · rw [Function.update_of_ne (Ne.symm hk)]
        simp [asks, hk]
    · rw [htable]
      simp [asks, hdrawn]

/-- What the accesses keep: the table or the hash still gives each set. -/
structure Kept (cfg : C → Geometry) (s : Sets C) : Prop where
  lt : ∀ e ∈ s.served, e.set < (cfg e.cache).m_nset
  drawn : ∀ e ∈ s.served, (cfg e.cache).Drawn → s.table e.block = some e.set
  hashed : ∀ e ∈ s.served, ¬ (cfg e.cache).Drawn → (cfg e.cache).hashed e.block = some e.set

theorem Kept.sound {s : Sets C} (h : Kept cfg s) : Sound cfg s where
  lt := h.lt
  one e he e' he' hcache hblock := by
    by_cases hdrawn : (cfg e.cache).Drawn
    · have h1 := h.drawn e he hdrawn
      have h2 := h.drawn e' he' (hcache ▸ hdrawn)
      rw [hblock, h2] at h1
      exact (Option.some.inj h1).symm
    · have h1 := h.hashed e he hdrawn
      have h2 := h.hashed e' he' (hcache ▸ hdrawn)
      rw [hcache, hblock, h2] at h1
      exact (Option.some.inj h1).symm

theorem Kept.serve {s s' : Sets C} (h : Kept cfg s) {c : Access C × Nat}
    (hserve : serve cfg s c = some s') : Kept cfg s' := by
  obtain ⟨v, hlt, hserved, hcase⟩ := serve_cases hserve
  -- what is in the table stays there
  have hstays : ∀ k w, s.table k = some w → s'.table k = some w := by
    intro k w hw
    rcases hcase with ⟨-, hv, htable⟩ | ⟨-, htable, -⟩
    · rw [htable]
      by_cases hk : k = (cfg c.1.cache).set_address c.1.addr
      · subst hk
        rw [Function.update_self, hv, drawnSet, hw, Option.getD_some]
      · rw [Function.update_of_ne hk, hw]
    · rw [htable, hw]
  constructor
  · intro e he
    rw [hserved] at he
    rcases List.mem_append.mp he with he | he
    · exact h.lt e he
    · rw [List.mem_singleton.mp he]
      exact hlt
  · intro e he hdrawn
    rw [hserved] at he
    rcases List.mem_append.mp he with he | he
    · exact hstays _ _ (h.drawn e he hdrawn)
    · rw [List.mem_singleton.mp he] at hdrawn ⊢
      rcases hcase with ⟨-, -, htable⟩ | ⟨hnot, -⟩
      · rw [htable, Function.update_self]
      · exact absurd hdrawn hnot
  · intro e he hdrawn
    rw [hserved] at he
    rcases List.mem_append.mp he with he | he
    · exact h.hashed e he hdrawn
    · rw [List.mem_singleton.mp he] at hdrawn ⊢
      rcases hcase with ⟨hyes, -⟩ | ⟨-, -, hhash⟩
      · exact absurd hyes hdrawn
      · exact hhash

theorem Geometry.Supported.pos {g : Geometry} (h : g.Supported) : 0 < g.m_nset := by
  rcases h with h | h <;> omega

theorem asks_iff {k : Nat} {c : Access C × Nat} : asks cfg k c = true ↔
    (cfg c.1.cache).Drawn ∧ (cfg c.1.cache).set_address c.1.addr = k := by
  simp [asks]

/-- Where the draws fit, the value for an address is in range in every cache that asks
for it. -/
theorem DrawsFit.drawnSet_lt {front rest : List (Access C × Nat)} {c : Access C × Nat}
    (hfit : DrawsFit cfg ((front ++ c :: rest).map Prod.fst))
    (hrand : ∀ a ∈ front, a.2 ≤ RAND_MAX) {s : Sets C}
    (hrun : front.foldlM (serve cfg) noSets = some s) (hdrawn : (cfg c.1.cache).Drawn) :
    drawnSet cfg s c < (cfg c.1.cache).m_nset := by
  have hsupp : ∀ a ∈ front ++ c :: rest, 0 < (cfg a.1.cache).m_nset := fun a ha =>
    (hfit.supported a.1 (List.mem_map_of_mem ha)).pos
  unfold drawnSet
  rw [table_of_run hrun]
  cases hfind : front.find? (asks cfg ((cfg c.1.cache).set_address c.1.addr)) with
  | none => exact Nat.mod_lt _ (hsupp c (by simp))
  | some a =>
    obtain ⟨hask, before, mid, hfront, hbefore⟩ := List.find?_eq_some_iff_append.mp hfind
    obtain ⟨hadrawn, haddr⟩ := asks_iff.mp hask
    have hshare : SharesDraw cfg a.1 c.1 := ⟨⟨hadrawn, hdrawn⟩, haddr⟩
    have hfirst : ∀ b ∈ before.map Prod.fst, ¬ SharesDraw cfg b a.1 := by
      intro b hb hcon
      obtain ⟨d, hd, rfl⟩ := List.mem_map.mp hb
      have hnot := hbefore d hd
      rw [asks_iff.mpr ⟨hcon.1.1, hcon.2.trans haddr⟩] at hnot
      simp at hnot
    have hin : a ∈ front := by simp [hfront]
    have hpos := hsupp a (by simp [hin])
    rw [Option.map_some, Option.getD_some]
    rcases hfit.fits (before.map Prod.fst) a.1 (mid.map Prod.fst) c.1 (rest.map Prod.fst)
      (by simp [hfront]) hshare hfirst with hle | hmax
    · exact Nat.lt_of_lt_of_le (Nat.mod_lt _ hpos) hle
    · exact Nat.lt_of_le_of_lt (Nat.mod_le _ _) (Nat.lt_of_le_of_lt (hrand a hin) hmax)

/-- A value that the first access can draw and a later one has no set for. -/
theorem not_served_of_draw {front mid : List (Access C)} {a b : Access C} {s t : Sets C}
    (hshare : SharesDraw cfg a b) (hfirst : ∀ c ∈ front, ¬ SharesDraw cfg c a)
    (hlt : (cfg b.cache).m_nset < (cfg a.cache).m_nset)
    (hrun : (front.map (fun c => (c, 0)) ++ (a, (cfg b.cache).m_nset) ::
      mid.map (fun c => (c, 0))).foldlM (serve cfg) noSets = some s) :
    serve cfg s (b, 0) ≠ some t := by
  intro hserve
  have htable := table_of_run hrun ((cfg b.cache).set_address b.addr)
  have hnone : (front.map fun c => (c, 0)).find? (asks cfg ((cfg b.cache).set_address b.addr)) =
      none := by
    rw [List.find?_eq_none]
    intro c hc hask
    obtain ⟨d, hd, rfl⟩ := List.mem_map.mp hc
    obtain ⟨hdrawn, haddr⟩ := asks_iff.mp hask
    exact hfirst d hd ⟨⟨hdrawn, hshare.1.1⟩, haddr.trans hshare.2.symm⟩
  have hask : asks cfg ((cfg b.cache).set_address b.addr) (a, (cfg b.cache).m_nset) = true :=
    asks_iff.mpr ⟨hshare.1.1, hshare.2⟩
  rw [List.find?_append, hnone, Option.none_or, List.find?_cons_of_pos hask, Option.map_some,
    Nat.mod_eq_of_lt hlt] at htable
  obtain ⟨v, hv, -, ⟨-, hdraw, -⟩ | ⟨hnot, -⟩⟩ := serve_cases hserve
  · rw [drawnSet, htable, Option.getD_some] at hdraw
    exact absurd hdraw (Nat.ne_of_lt hv)
  · exact hnot hshare.1.2

/-- Whatever `rand` returns, every access of a family of caches gets a set in range and
each cache one set for a block, exactly where the draws fit. -/
theorem sets_in_range_iff (cfg : C → Geometry) (accesses : List (Access C)) :
    (∀ calls, calls.map Prod.fst = accesses → (∀ c ∈ calls, c.2 ≤ RAND_MAX) →
        Always (serve cfg) (Sound cfg) noSets calls) ↔ DrawsFit cfg accesses := by
  constructor
  · intro hall
    constructor
    · intro a ha
      obtain ⟨front, rest, rfl⟩ := List.append_of_mem ha
      have halways := hall (front.map (fun c => (c, 0)) ++ (a, 0) :: rest.map fun c => (c, 0))
        (by simp [Function.comp_def]) (by
          intro c hc
          simp only [List.mem_append, List.mem_cons, List.mem_map] at hc
          rcases hc with ⟨_, -, rfl⟩ | rfl | ⟨_, -, rfl⟩ <;> exact Nat.zero_le _)
      obtain ⟨s, -, -, t, hserve, -⟩ := halways.split
      exact supported_of_serve hserve
    · rintro front a mid b rest rfl hshare hfirst
      by_contra hcon
      rw [not_or, Nat.not_le, Nat.not_lt] at hcon
      obtain ⟨hlt, hmax⟩ := hcon
      have halways := hall ((front.map (fun c => (c, 0)) ++ (a, (cfg b.cache).m_nset) ::
        mid.map (fun c => (c, 0))) ++ (b, 0) :: rest.map fun c => (c, 0))
        (by simp [Function.comp_def]) (by
          intro c hc
          simp only [List.mem_append, List.mem_cons, List.mem_map] at hc
          rcases hc with (⟨_, -, rfl⟩ | rfl | ⟨_, -, rfl⟩) | rfl | ⟨_, -, rfl⟩ <;>
            first | exact hmax | exact Nat.zero_le _)
      obtain ⟨s, hrun, -, t, hserve, -⟩ := halways.split
      exact not_served_of_draw hshare hfirst hlt hrun hserve
  · rintro hfit calls rfl hrand
    have hstart : Kept cfg noSets := ⟨by simp [noSets], by simp [noSets], by simp [noSets]⟩
    refine (always_of_fronts hstart ?_).imp fun s hs => hs.sound
    rintro front c rest s rfl hrun hkept
    obtain ⟨t, ht⟩ := serve_ok (s := s) (hfit.supported c.1 (List.mem_map_of_mem (by simp)))
      (hfit.drawnSet_lt (fun a ha => hrand a (by simp [ha])) hrun)
    exact ⟨t, ht, hkept.serve ht⟩

/-- The L2 with 128 sets and the four banks of an L1. -/
def twoGeometries : Bool → Geometry
  | true => ⟨128, 7, 7⟩
  | false => ⟨4, 7, 2⟩

/-- The L2 draws set 5 for the line at 0, and the bank selector takes it for a bank. -/
theorem drawn_set_is_no_bank :
    ¬ (∀ calls, calls.map Prod.fst = [⟨true, 0⟩, ⟨false, 0⟩] → (∀ c ∈ calls, c.2 ≤ RAND_MAX) →
        Always (serve twoGeometries) (Sound twoGeometries) noSets calls) ∧
      (serve twoGeometries noSets (⟨true, 0⟩, 5)).isSome = true ∧
      ((serve twoGeometries noSets (⟨true, 0⟩, 5)).bind fun s =>
        serve twoGeometries s (⟨false, 0⟩, 5)).isNone = true := by
  refine ⟨fun hall => ?_, rfl, rfl⟩
  obtain ⟨-, s, hs, -, t, ht, -⟩ := hall [(⟨true, 0⟩, 5), (⟨false, 0⟩, 5)] rfl (by simp [RAND_MAX])
  cases hs
  cases ht

end

end cache_config

end gpgpu_sim_uvm
