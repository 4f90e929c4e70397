-- The coordinates of CTAs and threads (abstract_hardware_model.h, gpu-sim.cc): one
-- increment carries from x over y to z, and a launch runs it until the bound is met.
import Mathlib.Data.List.Nodup
import Mathlib.Data.List.Range
import Mathlib.Tactic.Ring

namespace gpgpu_sim_uvm

/-! ## The data -/

/-- `dim3`, with its unsigned coordinates. -/
@[ext]
structure Dim3 where
  x : UInt32
  y : UInt32
  z : UInt32
  deriving DecidableEq

def increment_x_then_y_then_z (i bound : Dim3) : Dim3 :=
  let i := { i with x := i.x + 1 }
  if bound.x ≤ i.x then
    let i := { i with x := 0, y := i.y + 1 }
    if bound.y ≤ i.y then
      let i := { i with y := 0 }
      if i.z < bound.z then { i with z := i.z + 1 } else i
    else i
  else i

/-- What a launch reads of `kernel_info_t`. -/
structure LaunchInfo where
  m_grid_dim : Dim3
  m_block_dim : Dim3
  m_next_cta : Dim3
  m_next_tid : Dim3

namespace LaunchInfo

variable (k : LaunchInfo)

def increment_cta_id : LaunchInfo :=
  { k with
    m_next_cta := increment_x_then_y_then_z k.m_next_cta k.m_grid_dim
    m_next_tid := ⟨0, 0, 0⟩ }

def get_next_cta_id_single : UInt32 :=
  k.m_next_cta.x + k.m_grid_dim.x * k.m_next_cta.y +
    k.m_grid_dim.x * k.m_grid_dim.y * k.m_next_cta.z

def no_more_ctas_to_run : Bool :=
  decide (k.m_grid_dim.x ≤ k.m_next_cta.x) || decide (k.m_grid_dim.y ≤ k.m_next_cta.y) ||
    decide (k.m_grid_dim.z ≤ k.m_next_cta.z)

def increment_thread_id : LaunchInfo :=
  { k with m_next_tid := increment_x_then_y_then_z k.m_next_tid k.m_block_dim }

def get_next_thread_id : UInt32 :=
  k.m_next_tid.x + k.m_block_dim.x * k.m_next_tid.y +
    k.m_block_dim.x * k.m_block_dim.y * k.m_next_tid.z

def more_threads_in_cta : Bool :=
  decide (k.m_next_tid.z < k.m_block_dim.z) && decide (k.m_next_tid.y < k.m_block_dim.y) &&
    decide (k.m_next_tid.x < k.m_block_dim.x)

end LaunchInfo

/-- The states in which a loop runs its body, where it stops within `fuel` steps. -/
def iterate {S : Type} (more : S → Bool) (next : S → S) : Nat → S → Option (List S)
  | 0, s => if more s then none else some []
  | fuel + 1, s => if more s then (iterate more next fuel (next s)).map (s :: ·) else some []

/-! ## Places in a box -/

/-- The three coordinates are below their bounds. -/
structure Dim3.Inside (i bound : Dim3) : Prop where
  x : i.x.toNat < bound.x.toNat
  y : i.y.toNat < bound.y.toNat
  z : i.z.toNat < bound.z.toNat

/-- No dimension is empty. -/
structure Dim3.Positive (bound : Dim3) : Prop where
  x : 0 < bound.x.toNat
  y : 0 < bound.y.toNat
  z : 0 < bound.z.toNat

/-- The place of a coordinate in the order x, y, z. -/
def Dim3.place (i bound : Dim3) : Nat :=
  i.x.toNat + bound.x.toNat * (i.y.toNat + bound.y.toNat * i.z.toNat)

/-- The number of coordinates inside. -/
def Dim3.volume (bound : Dim3) : Nat := bound.x.toNat * (bound.y.toNat * bound.z.toNat)

/-- Where the loop is: inside, or at the corner where it stops. -/
def Dim3.Reached (i bound : Dim3) : Prop :=
  i.Inside bound ∨ i.x = 0 ∧ i.y = 0 ∧ i.z = bound.z

variable {i j bound : Dim3}

theorem Dim3.Inside.place_lt (h : i.Inside bound) : i.place bound < bound.volume := by
  have hyz : i.y.toNat + bound.y.toNat * i.z.toNat + 1 ≤ bound.y.toNat * bound.z.toNat :=
    calc i.y.toNat + bound.y.toNat * i.z.toNat + 1
        ≤ bound.y.toNat * i.z.toNat + bound.y.toNat := by have := h.y; omega
      _ = bound.y.toNat * (i.z.toNat + 1) := (Nat.mul_succ _ _).symm
      _ ≤ bound.y.toNat * bound.z.toNat := Nat.mul_le_mul_left _ h.z
  calc i.place bound
      < bound.x.toNat * (i.y.toNat + bound.y.toNat * i.z.toNat) + bound.x.toNat := by
        have := h.x
        unfold Dim3.place
        omega
    _ = bound.x.toNat * (i.y.toNat + bound.y.toNat * i.z.toNat + 1) := (Nat.mul_succ _ _).symm
    _ ≤ bound.volume := Nat.mul_le_mul_left _ hyz

/-- Inside the box the place tells the coordinate. -/
theorem Dim3.Inside.eq_of_place (hi : i.Inside bound) (hj : j.Inside bound)
    (h : i.place bound = j.place bound) : i = j := by
  unfold Dim3.place at h
  have hx : i.x.toNat = j.x.toNat := by
    have := congrArg (· % bound.x.toNat) h
    simpa [Nat.add_mul_mod_self_left, Nat.mod_eq_of_lt hi.x, Nat.mod_eq_of_lt hj.x] using this
  have hrest : i.y.toNat + bound.y.toNat * i.z.toNat = j.y.toNat + bound.y.toNat * j.z.toNat := by
    refine Nat.eq_of_mul_eq_mul_left (Nat.lt_of_le_of_lt (Nat.zero_le _) hi.x) ?_
    omega
  have hy : i.y.toNat = j.y.toNat := by
    have := congrArg (· % bound.y.toNat) hrest
    simpa [Nat.add_mul_mod_self_left, Nat.mod_eq_of_lt hi.y, Nat.mod_eq_of_lt hj.y] using this
  have hz : i.z.toNat = j.z.toNat := by
    refine Nat.eq_of_mul_eq_mul_left (Nat.lt_of_le_of_lt (Nat.zero_le _) hi.y) ?_
    omega
  exact Dim3.ext (UInt32.toNat_inj.mp hx) (UInt32.toNat_inj.mp hy) (UInt32.toNat_inj.mp hz)

theorem Dim3.Positive.origin (h : bound.Positive) : (⟨0, 0, 0⟩ : Dim3).Inside bound :=
  ⟨h.x, h.y, h.z⟩

/-- A coordinate below its bound does not wrap. -/
theorem toNat_succ {a b : UInt32} (h : a.toNat < b.toNat) : (a + 1).toNat = a.toNat + 1 := by
  have := b.toNat_lt
  rw [UInt32.toNat_add]
  exact Nat.mod_eq_of_lt (by simp; omega)

/-- One increment goes to the next place, and at the last to the corner. -/
theorem Dim3.Inside.increment (h : i.Inside bound) :
    (increment_x_then_y_then_z i bound).Reached bound ∧
      (increment_x_then_y_then_z i bound).place bound = i.place bound + 1 := by
  have hx := toNat_succ h.x
  have hy := toNat_succ h.y
  have hz := toNat_succ h.z
  have hzlt : i.z < bound.z := h.z
  unfold increment_x_then_y_then_z Dim3.place
  simp only [UInt32.le_iff_toNat_le, hx, hy]
  by_cases hxlast : bound.x.toNat ≤ i.x.toNat + 1
  · have hxeq : bound.x.toNat = i.x.toNat + 1 := by have := h.x; omega
    have hx0 : 0 < bound.x.toNat := by omega
    by_cases hylast : bound.y.toNat ≤ i.y.toNat + 1
    · have hyeq : bound.y.toNat = i.y.toNat + 1 := by have := h.y; omega
      have hy0 : 0 < bound.y.toNat := by omega
      simp only [hxlast, hylast, if_true, hzlt, hz]
      refine ⟨?_, ?_⟩
      · by_cases hzlast : i.z.toNat + 1 = bound.z.toNat
        · exact .inr ⟨rfl, rfl, UInt32.toNat_inj.mp (hz.trans hzlast)⟩
        · exact .inl ⟨hx0, hy0, by have := h.z; simp only [hz]; omega⟩
      · simp only [UInt32.toNat_zero, hxeq, hyeq]
        ring
    · simp only [hxlast, hylast, if_true, if_false, hy]
      refine ⟨.inl ⟨hx0, by simp only [hy]; omega, h.z⟩, ?_⟩
      simp only [UInt32.toNat_zero, hxeq]
      ring
  · simp only [hxlast, if_false, hx]
    refine ⟨.inl ⟨by simp only [hx]; omega, h.y, h.z⟩, ?_⟩
    ring

theorem Dim3.Reached.inside_iff (h : i.Reached bound) :
    i.Inside bound ↔ i.place bound < bound.volume := by
  refine ⟨Dim3.Inside.place_lt, fun hlt => ?_⟩
  rcases h with hin | ⟨hx, hy, hz⟩
  · exact hin
  · unfold Dim3.place Dim3.volume at hlt
    rw [hx, hy, hz] at hlt
    simp at hlt

/-! ## The loop -/

/-- A loop over states with a coordinate, a bound and an id: `more` tests the coordinate,
and `next` increments it. -/
structure Walks {S : Type} (more : S → Bool) (next : S → S) (coord bound : S → Dim3)
    (id : S → UInt32) : Prop where
  more_iff : ∀ s, more s = true ↔ (coord s).Inside (bound s)
  coord_next : ∀ s, coord (next s) = increment_x_then_y_then_z (coord s) (bound s)
  bound_next : ∀ s, bound (next s) = bound s
  id_eq : ∀ s, (id s).toNat = (coord s).place (bound s) % 2 ^ 32

/-- The coordinates inside, each once, with ids that grow. -/
structure Enumerated (bound : Dim3) (coords : List Dim3) (ids : List UInt32) : Prop where
  once : coords.Nodup
  complete : ∀ c, c ∈ coords ↔ c.Inside bound
  ordered : ids.Pairwise (· < ·)

section

variable {S : Type} {more : S → Bool} {next : S → S} {coord bound : S → Dim3} {id : S → UInt32}

/-- The loop visits the places from the first on. -/
theorem Walks.places (h : Walks more next coord bound id) {fuel : Nat} {s : S} {visited : List S}
    (hs : (coord s).Reached (bound s)) (hrun : iterate more next fuel s = some visited) :
    (∀ v ∈ visited, bound v = bound s ∧ (coord v).Inside (bound s)) ∧
      visited.map (fun v => (coord v).place (bound s)) =
        List.range' ((coord s).place (bound s))
          ((bound s).volume - (coord s).place (bound s)) := by
  induction fuel generalizing s visited with
  | zero =>
    unfold iterate at hrun
    split at hrun
    · cases hrun
    · rename_i hmore
      cases hrun
      rw [h.more_iff, hs.inside_iff] at hmore
      rw [Nat.sub_eq_zero_of_le (by omega)]
      simp
  | succ fuel ih =>
    unfold iterate at hrun
    split at hrun
    · rename_i hmore
      have hin := (h.more_iff s).mp hmore
      obtain ⟨hreached, hplace⟩ := hin.increment
      rw [← h.coord_next, ← h.bound_next] at hreached
      cases hrest : iterate more next fuel (next s) with
      | none =>
        rw [hrest] at hrun
        cases hrun
      | some rest =>
        rw [hrest] at hrun
        cases hrun
        obtain ⟨hall, hmap⟩ := ih hreached hrest
        rw [h.bound_next] at hall hmap
        rw [h.coord_next, hplace] at hmap
        refine ⟨?_, ?_⟩
        · rintro v hv
          rcases List.mem_cons.mp hv with rfl | hv
          · exact ⟨rfl, hin⟩
          · exact hall v hv
        · have hlt := hin.place_lt
          rw [List.map_cons, hmap, ← List.range'_succ]
          congr 1
          omega
    · rename_i hmore
      cases hrun
      rw [h.more_iff, hs.inside_iff] at hmore
      rw [Nat.sub_eq_zero_of_le (by omega)]
      simp

/-- The loop stops. -/
theorem Walks.stops (h : Walks more next coord bound id) {fuel : Nat} {s : S}
    (hs : (coord s).Reached (bound s))
    (hfuel : (bound s).volume ≤ (coord s).place (bound s) + fuel) :
    ∃ visited, iterate more next fuel s = some visited := by
  induction fuel generalizing s with
  | zero =>
    refine ⟨[], ?_⟩
    unfold iterate
    rw [if_neg]
    rw [h.more_iff, hs.inside_iff]
    omega
  | succ fuel ih =>
    unfold iterate
    split
    · rename_i hmore
      obtain ⟨hreached, hplace⟩ := ((h.more_iff s).mp hmore).increment
      rw [← h.coord_next, ← h.bound_next] at hreached
      have hnext : (bound (next s)).volume ≤ (coord (next s)).place (bound (next s)) + fuel := by
        rw [h.bound_next, h.coord_next, hplace]
        omega
      obtain ⟨rest, hrest⟩ := ih hreached hnext
      exact ⟨s :: rest, by rw [hrest, Option.map_some]⟩
    · exact ⟨[], rfl⟩

/-- Ids of all places grow as long as they do not wrap. -/
theorem ids_ordered_iff {ids : List UInt32} {n : Nat}
    (h : ids.map UInt32.toNat = (List.range n).map (· % 2 ^ 32)) :
    ids.Pairwise (· < ·) ↔ n ≤ 2 ^ 32 := by
  have hnat : ids.Pairwise (· < ·) ↔ ((List.range n).map (· % 2 ^ 32)).Pairwise (· < ·) := by
    rw [← h, List.pairwise_map]
    rfl
  rw [hnat]
  constructor
  · intro hpair
    by_contra hlarge
    have hwrap := List.pairwise_iff_getElem.mp hpair 0 (2 ^ 32) (by simp; omega) (by simp; omega)
      (by omega)
    simp at hwrap
  · intro hle
    have hsame : (List.range n).map (· % 2 ^ 32) = List.range n := by
      refine (List.map_congr_left fun i hi => ?_).trans (List.map_id _)
      exact Nat.mod_eq_of_lt (Nat.lt_of_lt_of_le (List.mem_range.mp hi) hle)
    rw [hsame]
    exact List.pairwise_lt_range

theorem Walks.enumerates_iff (h : Walks more next coord bound id) {s : S}
    (hs : coord s = ⟨0, 0, 0⟩) (hpos : (bound s).Positive) :
    (∃ fuel visited, iterate more next fuel s = some visited ∧
        Enumerated (bound s) (visited.map coord) (visited.map id)) ↔
      (bound s).volume ≤ 2 ^ 32 := by
  have hreached : (coord s).Reached (bound s) := .inl (hs ▸ hpos.origin)
  have hzero : (coord s).place (bound s) = 0 := by
    rw [hs]
    unfold Dim3.place
    simp
  have hids : ∀ {fuel visited}, iterate more next fuel s = some visited →
      ((visited.map id).Pairwise (· < ·) ↔ (bound s).volume ≤ 2 ^ 32) := by
    intro fuel visited hrun
    obtain ⟨hall, hmap⟩ := h.places hreached hrun
    rw [hzero, Nat.sub_zero, ← List.range_eq_range'] at hmap
    refine ids_ordered_iff ?_
    rw [← hmap, List.map_map, List.map_map]
    refine List.map_congr_left fun v hv => ?_
    simp only [Function.comp_apply, h.id_eq, (hall v hv).1]
  constructor
  · rintro ⟨fuel, visited, hrun, henum⟩
    exact (hids hrun).mp henum.ordered
  · intro hle
    obtain ⟨visited, hrun⟩ : ∃ visited, iterate more next (bound s).volume s = some visited :=
      h.stops hreached (by omega)
    obtain ⟨hall, hmap⟩ := h.places hreached hrun
    rw [hzero, Nat.sub_zero, ← List.range_eq_range'] at hmap
    have hplaces : (visited.map coord).map (fun c => c.place (bound s)) =
        List.range (bound s).volume := by
      rw [List.map_map]
      exact hmap
    refine ⟨_, visited, hrun, ?_, fun c => ⟨fun hc => ?_, fun hc => ?_⟩, (hids hrun).mpr hle⟩
    · exact List.Nodup.of_map _ (hplaces ▸ List.nodup_range)
    · obtain ⟨v, hv, rfl⟩ := List.mem_map.mp hc
      exact (hall v hv).2
    · have hmem : c.place (bound s) ∈ List.range (bound s).volume :=
        List.mem_range.mpr hc.place_lt
      rw [← hplaces] at hmem
      obtain ⟨d, hd, hplace⟩ := List.mem_map.mp hmem
      obtain ⟨v, hv, rfl⟩ := List.mem_map.mp hd
      exact (hall v hv).2.eq_of_place hc hplace ▸ hd

end

/-! ## The CTAs of a grid and the threads of a block -/

namespace LaunchInfo

theorem linear_id (i bound : Dim3) :
    (i.x + bound.x * i.y + bound.x * bound.y * i.z).toNat = i.place bound % 2 ^ 32 := by
  unfold Dim3.place
  simp only [UInt32.toNat_add, UInt32.toNat_mul, Nat.mod_add_mod, Nat.add_mod_mod,
    Nat.mod_mul_mod]
  congr 1
  ring

theorem ctas_walk : Walks (fun k => !k.no_more_ctas_to_run) increment_cta_id m_next_cta m_grid_dim
    get_next_cta_id_single where
  more_iff k := by
    unfold no_more_ctas_to_run
    simp only [Bool.not_eq_true', Bool.or_eq_false_iff, decide_eq_false_iff_not,
      UInt32.le_iff_toNat_le, Nat.not_le]
    exact ⟨fun h => ⟨h.1.1, h.1.2, h.2⟩, fun h => ⟨⟨h.x, h.y⟩, h.z⟩⟩
  coord_next _ := rfl
  bound_next _ := rfl
  id_eq _ := linear_id _ _

theorem threads_walk : Walks more_threads_in_cta increment_thread_id m_next_tid m_block_dim
    get_next_thread_id where
  more_iff k := by
    unfold more_threads_in_cta
    simp only [Bool.and_eq_true, decide_eq_true_eq, UInt32.lt_iff_toNat_lt]
    exact ⟨fun h => ⟨h.2, h.1.2, h.1.1⟩, fun h => ⟨⟨h.z, h.y⟩, h.x⟩⟩
  coord_next _ := rfl
  bound_next _ := rfl
  id_eq _ := linear_id _ _

/-- A launch of the grid and the block, at the first CTA and thread. -/
def launched (grid block : Dim3) : LaunchInfo := ⟨grid, block, ⟨0, 0, 0⟩, ⟨0, 0, 0⟩⟩

/-- The loop over the CTAs ends and has visited each once, by growing ids; the loop over
the threads of a CTA too. -/
def CtasEnumerated (grid block : Dim3) : Prop :=
  ∃ fuel visited,
    iterate (fun k => !k.no_more_ctas_to_run) increment_cta_id fuel (launched grid block) =
      some visited ∧
    Enumerated grid (visited.map m_next_cta) (visited.map get_next_cta_id_single)

def ThreadsEnumerated (grid block : Dim3) : Prop :=
  ∃ fuel visited,
    iterate more_threads_in_cta increment_thread_id fuel (launched grid block) = some visited ∧
    Enumerated block (visited.map m_next_tid) (visited.map get_next_thread_id)

/-- The CTAs are enumerated exactly where their number fits the unsigned id, and so are
the threads. -/
theorem enumerated_iff {grid block : Dim3} (hgrid : grid.Positive) (hblock : block.Positive) :
    (CtasEnumerated grid block ↔ grid.volume ≤ 2 ^ 32) ∧
      (ThreadsEnumerated grid block ↔ block.volume ≤ 2 ^ 32) :=
  ⟨ctas_walk.enumerates_iff (s := launched grid block) rfl hgrid,
    threads_walk.enumerates_iff (s := launched grid block) rfl hblock⟩

theorem small_launch_enumerated : CtasEnumerated ⟨3, 1, 2⟩ ⟨32, 4, 1⟩ ∧
    ThreadsEnumerated ⟨3, 1, 2⟩ ⟨32, 4, 1⟩ := by
  have hgrid : (⟨3, 1, 2⟩ : Dim3).Positive := ⟨by decide, by decide, by decide⟩
  have hblock : (⟨32, 4, 1⟩ : Dim3).Positive := ⟨by decide, by decide, by decide⟩
  exact ⟨(enumerated_iff hgrid hblock).1.mpr (by decide),
    (enumerated_iff hgrid hblock).2.mpr (by decide)⟩

/-- In a grid of 65536 times 65537 CTAs the CTA (0, 65536, 0) has the id of the first. -/
theorem wide_grid_wraps : (⟨65536, 65537, 1⟩ : Dim3).Positive ∧
    (⟨0, 65536, 0⟩ : Dim3).Inside ⟨65536, 65537, 1⟩ ∧
    get_next_cta_id_single ⟨⟨65536, 65537, 1⟩, ⟨1, 1, 1⟩, ⟨0, 65536, 0⟩, ⟨0, 0, 0⟩⟩ = 0 ∧
    ¬ CtasEnumerated ⟨65536, 65537, 1⟩ ⟨1, 1, 1⟩ := by
  have hpos : (⟨65536, 65537, 1⟩ : Dim3).Positive := ⟨by decide, by decide, by decide⟩
  refine ⟨hpos, ⟨by decide, by decide, by decide⟩, by decide, ?_⟩
  intro hall
  have hvolume := (ctas_walk.enumerates_iff (s := launched ⟨65536, 65537, 1⟩ ⟨1, 1, 1⟩) rfl hpos).mp
    hall
  revert hvolume
  decide

end LaunchInfo

end gpgpu_sim_uvm
