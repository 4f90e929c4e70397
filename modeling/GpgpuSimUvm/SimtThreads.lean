-- The SIMT stack runs every thread of a warp as it would run alone: where each
-- branch reconverges at its immediate post-dominator, the entries of a thread
-- form a chain from the bottom of the stack to the thread's own next pc.
import GpgpuSimUvm.SimtStack

namespace gpgpu_sim_uvm

open control_flow

/-! ## One pass over the active threads -/

/-- The pass over the threads below `n` took `r.tmp_next_pc` for its path. -/
structure Grouped (thread_done : Nat → Bool) (next_pc : Nat → Nat) (n : Nat) (g r : PathGroup) :
    Prop where
  rest : ∀ j, r.top_active_mask j = true ↔
    g.top_active_mask j = true ∧ (j < n → thread_done j = false ∧ next_pc j ≠ r.tmp_next_pc)
  group : ∀ j, r.tmp_active_mask j = true ↔
    g.tmp_active_mask j = true ∨
      (j < n ∧ g.top_active_mask j = true ∧ thread_done j = false ∧ next_pc j = r.tmp_next_pc)
  kept : g.tmp_next_pc ≠ null_pc → r.tmp_next_pc = g.tmp_next_pc
  chosen : g.tmp_next_pc = null_pc → r.tmp_next_pc ≠ null_pc →
    ∃ j, j < n ∧ g.top_active_mask j = true ∧ thread_done j = false ∧ next_pc j = r.tmp_next_pc
  finished : r.tmp_next_pc = null_pc →
    ∀ j, j < n → g.top_active_mask j = true → thread_done j = true

theorem groupThreads_grouped (thread_done : Nat → Bool) (next_pc : Nat → Nat) (n : Nat)
    (g : PathGroup)
    (hnext : ∀ j, g.top_active_mask j = true → thread_done j = false → next_pc j ≠ null_pc) :
    Grouped thread_done next_pc n g (groupThreads thread_done next_pc n g) := by
  induction n generalizing g with
  | zero =>
    refine ⟨?_, ?_, ?_, ?_, ?_⟩
    · intro j
      simp [groupThreads]
    · intro j
      simp [groupThreads]
    · intro _
      rfl
    · intro h hne
      exact absurd h hne
    · intro _ j hj
      omega
  | succ n ih =>
    have hlt : ∀ j, j < n + 1 ↔ j = n ∨ j < n := by
      intro j
      omega
    simp only [groupThreads]
    by_cases htop : g.top_active_mask n = true
    · by_cases hdone : thread_done n = true
      · -- a finished thread leaves the mask
        have hg : groupThread thread_done next_pc g n =
            { g with top_active_mask := resetThread g.top_active_mask n } := by
          simp [groupThread, htop, hdone]
        rw [hg]
        have h := ih { g with top_active_mask := resetThread g.top_active_mask n } (by
          intro j hj
          apply hnext j
          grind [resetThread])
        refine ⟨?_, ?_, h.kept, ?_, ?_⟩
        · intro j
          rw [h.rest j, hlt]
          grind [resetThread]
        · intro j
          rw [h.group j, hlt]
          grind [resetThread]
        · intro h1 h2
          obtain ⟨j, hj⟩ := h.chosen h1 h2
          grind [resetThread]
        · intro h1 j hj hj1
          have h2 := h.finished h1 j
          grind [resetThread]
      · have hlive : thread_done n = false := by simpa using hdone
        by_cases hjoin : g.tmp_next_pc = null_pc ∨ g.tmp_next_pc = next_pc n
        · -- the thread joins the path, and the path is its own from here on
          have hg : groupThread thread_done next_pc g n =
              { top_active_mask := resetThread g.top_active_mask n
                tmp_next_pc := next_pc n
                tmp_active_mask := setThread g.tmp_active_mask n } := by
            simp [groupThread, htop, hlive, hjoin]
          rw [hg]
          have h := ih
            { top_active_mask := resetThread g.top_active_mask n
              tmp_next_pc := next_pc n
              tmp_active_mask := setThread g.tmp_active_mask n } (by
            intro j hj
            apply hnext j
            grind [resetThread])
          have hpath := h.kept (hnext n htop hlive)
          refine ⟨?_, ?_, ?_, ?_, ?_⟩
          · intro j
            rw [h.rest j, hlt]
            grind [resetThread]
          · intro j
            rw [h.group j, hlt]
            grind [resetThread, setThread]
          · intro h1
            rw [hpath]
            exact (hjoin.resolve_left h1).symm
          · intro _ _
            exact ⟨n, by omega, htop, hlive, hpath.symm⟩
          · intro h1
            exact absurd (hpath.symm.trans h1) (hnext n htop hlive)
        · -- the thread waits for a later pass
          have hg : groupThread thread_done next_pc g n = g := by
            simp [groupThread, htop, hlive, hjoin]
          rw [hg]
          have h := ih g hnext
          have hpath := h.kept (by tauto)
          refine ⟨?_, ?_, h.kept, ?_, ?_⟩
          · intro j
            rw [h.rest j, hlt]
            grind
          · intro j
            rw [h.group j, hlt]
            grind
          · intro h1
            exact absurd (Or.inl h1) hjoin
          · intro h1
            exact absurd (Or.inl (hpath.symm.trans h1)) hjoin
    · have hg : groupThread thread_done next_pc g n = g := by
        simp [groupThread, htop]
      rw [hg]
      have h := ih g hnext
      refine ⟨?_, ?_, h.kept, ?_, ?_⟩
      · intro j
        rw [h.rest j, hlt]
        grind
      · intro j
        rw [h.group j, hlt]
        grind
      · intro h1 h2
        obtain ⟨j, hj, hpath⟩ := h.chosen h1 h2
        exact ⟨j, by omega, hpath⟩
      · intro h1 j hj hj1
        have h2 := h.finished h1 j
        grind

/-! ## The paths that the threads take -/

/-- The next pcs of the threads of `live`, each once, with the threads that go there. -/
structure Paths (live : Nat → Prop) (next_pc : Nat → Nat) (ps : List (Nat × (Nat → Bool))) :
    Prop where
  nodup : (ps.map Prod.fst).Nodup
  mask : ∀ p ∈ ps, ∀ t, p.2 t = true ↔ live t ∧ next_pc t = p.1
  taken : ∀ p ∈ ps, ∃ t, p.2 t = true
  covered : ∀ t, live t → next_pc t ∈ ps.map Prod.fst

section paths

variable {live : Nat → Prop} {next_pc : Nat → Nat} {ps qs : List (Nat × (Nat → Bool))}

theorem Paths.perm (h : Paths live next_pc ps) (hp : qs.Perm ps) : Paths live next_pc qs where
  nodup := (hp.map Prod.fst).nodup_iff.mpr h.nodup
  mask := fun p hin => h.mask p (hp.mem_iff.mp hin)
  taken := fun p hin => h.taken p (hp.mem_iff.mp hin)
  covered := fun t ht => (hp.map Prod.fst).mem_iff.mpr (h.covered t ht)

/-- A pass adds the path that it found. -/
theorem Paths.add {live' : Nat → Prop} {q : Nat} {m : Nat → Bool} (h : Paths live next_pc ps)
    (hq : q ∉ ps.map Prod.fst) (hm : ∀ t, m t = true ↔ live' t ∧ next_pc t = q)
    (htaken : ∃ t, m t = true) (hlive : ∀ t, live' t ↔ live t ∨ m t = true) :
    Paths live' next_pc ((q, m) :: ps) := by
  refine ⟨?_, ?_, ?_, ?_⟩
  · exact List.nodup_cons.mpr ⟨hq, h.nodup⟩
  · intro p hin t
    rcases List.mem_cons.mp hin with rfl | hin
    · exact hm t
    · have hne : p.1 ≠ q := by
        intro heq
        exact hq (heq ▸ List.mem_map_of_mem hin)
      rw [h.mask p hin t, hlive, hm]
      grind
  · intro p hin
    rcases List.mem_cons.mp hin with rfl | hin
    · exact htaken
    · exact h.taken p hin
  · intro t ht
    rcases (hlive t).mp ht with ht | ht
    · exact List.mem_cons_of_mem _ (h.covered t ht)
    · simp [((hm t).mp ht).2]

end paths

/-- How many threads of the warp are in a mask. -/
def threadsIn (m_warp_size : Nat) (mask : Nat → Bool) : Nat := (List.range m_warp_size).countP mask

theorem anyThread_iff (m_warp_size : Nat) (mask : Nat → Bool) :
    anyThread m_warp_size mask = true ↔ ∃ t, t < m_warp_size ∧ mask t = true := by
  simp [anyThread]

theorem threadsIn_lt {m_warp_size : Nat} {a b : Nat → Bool} (hle : ∀ t, a t = true → b t = true)
    {t : Nat} (ht : t < m_warp_size) (hb : b t = true) (ha : a t = false) :
    threadsIn m_warp_size a < threadsIn m_warp_size b := by
  unfold threadsIn
  have hsplit := List.append_of_mem (List.mem_range.mpr ht)
  obtain ⟨xs, ys, hr⟩ := hsplit
  rw [hr]
  simp only [List.countP_append, List.countP_cons, ha, hb]
  have h1 : xs.countP a ≤ xs.countP b := List.countP_mono_left (fun x _ => hle x)
  have h2 : ys.countP a ≤ ys.countP b := List.countP_mono_left (fun x _ => hle x)
  simp only [Bool.false_eq_true, if_false, if_true]
  omega

/-- Where no thread is left to take, the paths are those of all threads. -/
theorem Paths.finished {m_warp_size : Nat} {thread_done mask top : Nat → Bool}
    {next_pc : Nat → Nat} {ps : List (Nat × (Nat → Bool))}
    (h : Paths (fun t => mask t = true ∧ thread_done t = false ∧ top t = false) next_pc ps)
    (hsize : ∀ t, mask t = true → t < m_warp_size)
    (hdone : ∀ t, t < m_warp_size → top t = true → thread_done t = true) :
    Paths (fun t => mask t = true ∧ thread_done t = false) next_pc ps := by
  have hsame : (fun t => mask t = true ∧ thread_done t = false ∧ top t = false) =
      fun t => mask t = true ∧ thread_done t = false := by
    funext t
    apply propext
    have h1 := hsize t
    have h2 := hdone t
    grind
  rwa [hsame] at h

/-- The passes find every path of the unfinished threads of `mask`. Here
`top` has the threads that the passes have not taken yet. -/
theorem divergentPaths_paths {m_warp_size : Nat} {thread_done mask : Nat → Bool}
    {next_pc : Nat → Nat} (hsize : ∀ t, mask t = true → t < m_warp_size)
    (hnext : ∀ t, mask t = true → thread_done t = false → next_pc t ≠ null_pc) (n : Nat)
    (top : Nat → Bool) (paths : StdMap Nat (Nat → Bool) × Nat)
    (hn : threadsIn m_warp_size top ≤ n) (htop : ∀ t, top t = true → mask t = true)
    (hcount : paths.2 = paths.1.entries.length)
    (hnew : ∀ t, top t = true → thread_done t = false → next_pc t ∉ paths.1.keys)
    (hpaths : Paths (fun t => mask t = true ∧ thread_done t = false ∧ top t = false) next_pc
      paths.1.entries) :
    ∃ r, divergentPaths m_warp_size thread_done next_pc n top paths = some r ∧
      r.2 = r.1.entries.length ∧
      Paths (fun t => mask t = true ∧ thread_done t = false) next_pc r.1.entries := by
  induction n generalizing top paths with
  | zero =>
    refine ⟨paths, rfl, hcount, hpaths.finished hsize ?_⟩
    intro t ht h1
    have h0 : threadsIn m_warp_size top = 0 := by omega
    exact absurd h1 (List.countP_eq_zero.mp h0 t (List.mem_range.mpr ht))
  | succ n ih =>
    unfold divergentPaths
    by_cases hany : anyThread m_warp_size top = true
    · simp only [hany, if_true]
      have hg := groupThreads_grouped thread_done next_pc m_warp_size { top_active_mask := top }
        (fun j hj => hnext j (htop j hj))
      revert hg
      generalize groupThreads thread_done next_pc m_warp_size { top_active_mask := top } = g
      intro hg
      have hin : ∀ t, g.top_active_mask t = true → top t = true := by
        intro t ht
        exact ((hg.rest t).mp ht).1
      by_cases hnull : g.tmp_next_pc = null_pc
      · have hnone : anyThread m_warp_size g.top_active_mask = false := by
          rw [Bool.eq_false_iff]
          intro h
          obtain ⟨t, ht, h1⟩ := (anyThread_iff _ _).mp h
          have h2 := (((hg.rest t).mp h1).2 ht).1
          have h3 := hg.finished hnull t ht (hin t h1)
          simp [h2] at h3
        simp only [hnull, if_true, hnone]
        exact ⟨paths, rfl, hcount, hpaths.finished hsize (hg.finished hnull)⟩
      · simp only [hnull, if_false]
        obtain ⟨j, hj, hjtop, hjlive, hjpath⟩ := hg.chosen rfl hnull
        have hfresh : paths.1.find g.tmp_next_pc = none := by
          rw [StdMap.find_eq_none_iff, ← hjpath]
          exact hnew j hjtop hjlive
        have hperm := paths.1.perm_alter_new (fun _ => false) (fun _ => g.tmp_active_mask) hfresh
        have hmask : ∀ t, g.tmp_active_mask t = true ↔
            (mask t = true ∧ thread_done t = false ∧ g.top_active_mask t = false) ∧
              next_pc t = g.tmp_next_pc := by
          intro t
          have h1 := hg.group t
          have h2 := hg.rest t
          have h3 := hsize t
          have h4 := htop t
          constructor
          · grind
          · rintro ⟨⟨hm, hlive, hout⟩, hpath⟩
            have htaken : top t = true := by
              by_contra hnot
              have h5 := hpaths.covered t ⟨hm, hlive, by simpa using hnot⟩
              rw [hpath] at h5
              exact (StdMap.find_eq_none_iff _ _).mp hfresh h5
            exact h1.mpr (Or.inr ⟨h3 hm, htaken, hlive, hpath⟩)
        apply ih
        · have hless := threadsIn_lt hin hj hjtop (by
            rw [Bool.eq_false_iff]
            intro h
            exact (((hg.rest j).mp h).2 hj).2 hjpath)
          omega
        · intro t ht
          exact htop t (hin t ht)
        · simp [hcount, hperm.length_eq]
        · intro t ht hlive
          have h1 := (hg.rest t).mp ht
          have h2 := hsize t (htop t h1.1)
          simp only [StdMap.mem_keys, StdMap.contains_alter, Bool.or_eq_true, decide_eq_true_eq,
            not_or]
          rw [← StdMap.mem_keys]
          exact ⟨(h1.2 h2).2, hnew t h1.1 hlive⟩
        · refine (Paths.add hpaths ?_ hmask ⟨j, ?_⟩ ?_).perm hperm
          · exact (StdMap.find_eq_none_iff _ _).mp hfresh
          · exact (hg.group j).mpr (Or.inr ⟨hj, hjtop, hjlive, hjpath⟩)
          · intro t
            have h1 := hmask t
            have h2 := hg.rest t
            have h3 := hg.group t
            have h4 := hsize t
            have h5 := hin t
            grind
    · simp only [hany]
      refine ⟨paths, rfl, hcount, hpaths.finished hsize ?_⟩
      intro t ht h1
      exact absurd ((anyThread_iff _ _).mpr ⟨t, ht, h1⟩) hany

theorem pathOrder_perm (paths : StdMap Nat (Nat → Bool)) (not_taken_pc : Nat) :
    (pathOrder paths not_taken_pc).Perm paths.entries := by
  unfold pathOrder
  cases h : paths.find not_taken_pc with
  | none => exact List.Perm.refl _
  | some mask => exact paths.perm_erase h

/-! ## What an update puts in the place of the top entry -/

/-- The entry of a path that reconverges at `recvg_pc`. -/
def pathEntry (recvg_pc : Nat) (p : Nat × (Nat → Bool)) : SimtStackEntry where
  m_pc := p.1
  m_active_mask := p.2
  m_recvg_pc := recvg_pc

/-- The entries of two paths that part: those that are not at the reconvergence
point yet, above the entry that waits there. -/
def partedEntries (recvg_pc : Nat) (top : SimtStackEntry) (p q : Nat × (Nat → Bool)) :
    List SimtStackEntry :=
  ([q, p].filter (fun x => x.1 ≠ recvg_pc)).map (pathEntry recvg_pc) ++
    if recvg_pc = top.m_recvg_pc then [] else [top.setPc recvg_pc]

/-- What the top entry turns into, by the paths that its threads take. -/
def pathEntries (recvg_pc : Nat) (top : SimtStackEntry) :
    List (Nat × (Nat → Bool)) → List SimtStackEntry
  | [p] => if p.1 = top.m_recvg_pc then [] else [pathEntry top.m_recvg_pc p]
  | [p, q] => partedEntries recvg_pc top p q
  | _ => []

theorem takePath_one {recvg_pc : Nat} {top : SimtStackEntry} {rest : List SimtStackEntry}
    {p : Nat × (Nat → Bool)} (htype : top.m_type = .NORMAL) :
    (takePath 1 recvg_pc top { m_stack := top :: rest } p).m_stack.tail =
      pathEntries recvg_pc top [p] ++ rest := by
  by_cases hp : p.1 = top.m_recvg_pc
  · simp [takePath, pathEntries, hp, htype]
  · simp [takePath, pathEntries, pushPath, pathEntry, hp, htype]

theorem takePath_two {recvg_pc : Nat} {top : SimtStackEntry} {rest : List SimtStackEntry}
    {p q : Nat × (Nat → Bool)} (htype : top.m_type = .NORMAL) (hne : p.1 ≠ q.1)
    (hp : p.1 = top.m_recvg_pc → recvg_pc = top.m_recvg_pc)
    (hq : q.1 = top.m_recvg_pc → recvg_pc = top.m_recvg_pc) :
    ([p, q].foldl (takePath 2 recvg_pc top) { m_stack := top :: rest }).m_stack.tail =
      pathEntries recvg_pc top [p, q] ++ rest := by
  by_cases hr : recvg_pc = top.m_recvg_pc
  · -- the paths reconverge where the entry does
    by_cases h1 : p.1 = top.m_recvg_pc
    · have h2 : q.1 ≠ top.m_recvg_pc := fun h => hne (h1.trans h.symm)
      simp [takePath, pathEntries, partedEntries, diverge, pushPath, pathEntry, htype, hr, h1, h2]
    · by_cases h2 : q.1 = top.m_recvg_pc
      · simp [takePath, pathEntries, partedEntries, diverge, pushPath, pathEntry, htype, hr, h1, h2]
      · simp [takePath, pathEntries, partedEntries, diverge, pushPath, pathEntry, htype, hr, h1, h2]
  · -- the top entry waits at the reconvergence point
    have h1 : p.1 ≠ top.m_recvg_pc := fun h => hr (hp h)
    have h2 : q.1 ≠ top.m_recvg_pc := fun h => hr (hq h)
    by_cases h3 : p.1 = recvg_pc
    · have h4 : q.1 ≠ recvg_pc := fun h => hne (h3.trans h.symm)
      simp [takePath, pathEntries, partedEntries, diverge, pushPath, pathEntry, hr, h2, h3, h4]
    · by_cases h4 : q.1 = recvg_pc
      · simp [takePath, pathEntries, partedEntries, diverge, pushPath, pathEntry, hr, h1, h3, h4]
      · simp [takePath, pathEntries, partedEntries, diverge, pushPath, pathEntry, hr, h1, h2, h3,
          h4]

/-- An update where no thread calls: the entries of the paths take the place of
the top entry. -/
theorem simtUpdate_paths {m_warp_size : Nat} {thread_done : Nat → Bool} {next_pc : Nat → Nat}
    {top : SimtStackEntry} (rest : List SimtStackEntry) (recvg_pc : Nat) {op : OpType} (size : Nat)
    (hsize : ∀ t, top.m_active_mask t = true → t < m_warp_size)
    (hany : ∃ t, top.m_active_mask t = true)
    (hnext : ∀ t, top.m_active_mask t = true → thread_done t = false → next_pc t ≠ null_pc)
    (htype : top.m_type = .NORMAL) (hop : op ≠ .CALL_OPS)
    (htwo : ∀ ps, Paths (fun t => top.m_active_mask t = true ∧ thread_done t = false) next_pc ps →
      ps.length ≤ 2)
    (hback : ∀ p q, Paths (fun t => top.m_active_mask t = true ∧ thread_done t = false) next_pc
      [p, q] → p.1 = top.m_recvg_pc → recvg_pc = top.m_recvg_pc) :
    ∃ ps, Paths (fun t => top.m_active_mask t = true ∧ thread_done t = false) next_pc ps ∧
      simtUpdate m_warp_size (top :: rest) thread_done next_pc recvg_pc op size top.m_pc =
        some (pathEntries recvg_pc top ps ++ rest) := by
  obtain ⟨r, hr, hcount, hpaths⟩ := divergentPaths_paths hsize hnext
    m_warp_size top.m_active_mask (.empty, 0)
    (by
      have h := List.countP_le_length (p := top.m_active_mask) (l := List.range m_warp_size)
      simpa [threadsIn] using h)
    (fun t ht => ht) rfl (by simp [StdMap.keys, StdMap.empty])
    ⟨by simp [StdMap.empty], by simp [StdMap.empty], by simp [StdMap.empty], by grind⟩
  have hperm := pathOrder_perm r.1 (top.m_pc + size)
  refine ⟨_, hpaths.perm hperm, ?_⟩
  have hany' : anyThread m_warp_size top.m_active_mask = true := by
    obtain ⟨t, ht⟩ := hany
    exact (anyThread_iff _ _).mpr ⟨t, hsize t ht, ht⟩
  have hlen := hperm.length_eq
  have h2 := htwo _ hpaths
  have hpaths' := hpaths.perm hperm
  simp only [simtUpdate, hany', hr, ne_eq, not_true_eq_false, Bool.not_true, Bool.false_eq_true,
    or_self, if_false, Option.bind_some, hop, htype]
  rw [if_neg (by omega)]
  revert hlen hpaths'
  generalize pathOrder r.1 (top.m_pc + size) = ps
  intro hlen hpaths'
  rcases ps with _ | ⟨p, _ | ⟨q, _ | ⟨x, xs⟩⟩⟩
  · rfl
  · have h1 : r.2 = 1 := by simp at hlen; omega
    simp only [h1, List.foldl_cons, List.foldl_nil, takePath_one htype, reduceCtorEq, and_false,
      if_false]
  · have h1 : r.2 = 2 := by simp at hlen; omega
    have hne : p.1 ≠ q.1 := by
      have h := hpaths'.nodup
      simpa using h
    simp only [h1, reduceCtorEq, and_false, if_false]
    rw [takePath_two htype hne (hback p q hpaths') (hback q p (hpaths'.perm (List.Perm.swap _ _ _)))]
  · simp at hlen
    omega

/-! ## The chain of a thread -/

/-- Entries, the top first, that hold a thread at `pc`: each waits where the
one above it reconverges, and the last reconverges nowhere. -/
def Chain : Nat → List SimtStackEntry → Prop
  | pc, [] => pc = null_pc
  | pc, e :: es => e.m_pc = pc ∧ Chain e.m_recvg_pc es

/-- Only the entry at the bottom reconverges nowhere. -/
def Grounded : List SimtStackEntry → Prop
  | [] => True
  | e :: es => (e.m_recvg_pc = null_pc ↔ es = []) ∧ Grounded es

/-- The entries that a thread is in, the top first. -/
def Warp.entriesOf (w : Warp) (t : Nat) : List SimtStackEntry :=
  w.m_stack.filter (fun e => e.m_active_mask t)

theorem Grounded.nothing_below {l₁ l₂ : List SimtStackEntry} {e : SimtStackEntry}
    (h : Grounded (l₁ ++ e :: l₂)) (he : e.m_recvg_pc = null_pc) : l₂ = [] := by
  induction l₁ with
  | nil => exact h.1.mp he
  | cons _ _ ih => exact ih h.2

/-- A chain ends at the bottom of the stack. -/
theorem Chain.getLast? {es : List SimtStackEntry} {q : SimtStackEntry → Bool} {pc : Nat}
    (h : Chain pc (es.filter q)) (hg : Grounded es) (hpc : pc ≠ null_pc) :
    (es.filter q).getLast? = es.getLast? := by
  induction es generalizing pc with
  | nil => rfl
  | cons e es ih =>
    obtain ⟨hlast, hg⟩ := hg
    by_cases hq : q e = true
    · rw [List.filter_cons_of_pos hq] at h ⊢
      by_cases hnull : e.m_recvg_pc = null_pc
      · simp [hlast.mp hnull]
      · have htail := ih h.2 hg hnull
        have hne : es ≠ [] := fun h1 => hnull (hlast.mpr h1)
        have hne' : es.filter q ≠ [] := by
          intro h1
          have h2 := h.2
          rw [h1] at h2
          exact hnull h2
        obtain ⟨x, xs, hx⟩ := List.exists_cons_of_ne_nil hne
        obtain ⟨y, ys, hy⟩ := List.exists_cons_of_ne_nil hne'
        rw [hy] at htail ⊢
        rw [hx] at htail ⊢
        simpa [List.getLast?_cons_cons] using htail
    · rw [List.filter_cons_of_neg hq] at h ⊢
      have hne : es ≠ [] := by
        intro h1
        rw [h1] at h
        exact hpc h
      obtain ⟨x, xs, hx⟩ := List.exists_cons_of_ne_nil hne
      rw [ih h hg hpc, hx, List.getLast?_cons_cons]

/-! ## The programs of the law -/

/-- Threads follow the control-flow graph, which has at most two targets beside
the exit for each instruction, and each branch between two targets has its
immediate post-dominator as its reconvergence point. No instruction calls. -/
structure WarpProgram.Structured (prog : WarpProgram) : Prop where
  starts : prog.start_pc ≠ null_pc
  no_call : ∀ p, prog.op p ≠ .CALL_OPS
  along : ∀ t p tr q, prog.outcome t (p :: tr) = some q →
    prog.succ p q ∧ q ≠ prog.exit_pc ∧ q ≠ null_pc
  two_targets : ∀ p a b c, prog.succ p a → prog.succ p b → prog.succ p c →
    a ≠ prog.exit_pc → b ≠ prog.exit_pc → c ≠ prog.exit_pc → a = b ∨ b = c ∨ a = c
  reconverges : ∀ p a b, prog.succ p a → prog.succ p b → a ≠ b → a ≠ prog.exit_pc →
    b ≠ prog.exit_pc → prog.reconvergence_pc p ≠ null_pc ∧
      ImmediatePostDominator prog.succ prog.exit_pc (prog.reconvergence_pc p) p

/-- The entry waits short of its reconvergence point, which it cannot miss. -/
def Ahead (prog : WarpProgram) (e : SimtStackEntry) : Prop :=
  e.m_recvg_pc = null_pc ∨
    StrictlyPostDominates prog.succ prog.exit_pc e.m_recvg_pc e.m_pc

/-- What holds of each entry. -/
structure EntryOk (prog : WarpProgram) (m_warp_size : Nat) (e : SimtStackEntry) : Prop where
  normal : e.m_type = .NORMAL
  sized : ∀ t, e.m_active_mask t = true → t < m_warp_size
  some_thread : ∃ t, e.m_active_mask t = true
  ahead : Ahead prog e

section update

variable {prog : WarpProgram} {m_warp_size : Nat} {top : SimtStackEntry} {live : Nat → Prop}
  {next_pc : Nat → Nat} {ps : List (Nat × (Nat → Bool))}

/-- The threads of the top entry go along the edges of its instruction. -/
def Follows (prog : WarpProgram) (top : SimtStackEntry) (live : Nat → Prop)
    (next_pc : Nat → Nat) : Prop :=
  ∀ t, live t → top.m_active_mask t = true ∧ prog.succ top.m_pc (next_pc t) ∧
    next_pc t ≠ prog.exit_pc ∧ next_pc t ≠ null_pc

theorem Paths.edge (h : Paths live next_pc ps) (hf : Follows prog top live next_pc)
    {p : Nat × (Nat → Bool)} (hp : p ∈ ps) :
    prog.succ top.m_pc p.1 ∧ p.1 ≠ prog.exit_pc ∧ p.1 ≠ null_pc := by
  obtain ⟨t, ht⟩ := h.taken p hp
  obtain ⟨hlive, hpc⟩ := (h.mask p hp t).mp ht
  rw [← hpc]
  exact (hf t hlive).2

theorem Paths.mask_sub (h : Paths live next_pc ps) (hf : Follows prog top live next_pc)
    {p : Nat × (Nat → Bool)} (hp : p ∈ ps) (t : Nat) (ht : p.2 t = true) :
    top.m_active_mask t = true := by
  exact (hf t ((h.mask p hp t).mp ht).1).1

theorem Paths.length_le (h : Paths live next_pc ps) (hf : Follows prog top live next_pc)
    (hp : prog.Structured) : ps.length ≤ 2 := by
  match ps, h with
  | [], _ => simp
  | [_], _ => simp
  | [_, _], _ => simp
  | a :: b :: c :: xs, h =>
    have ha := h.edge hf (p := a) (by simp)
    have hb := h.edge hf (p := b) (by simp)
    have hc := h.edge hf (p := c) (by simp)
    have hnodup := h.nodup
    have h3 := hp.two_targets _ _ _ _ ha.1 hb.1 hc.1 ha.2.1 hb.2.1 hc.2.1
    simp only [List.map_cons, List.nodup_cons, List.mem_cons, not_or] at hnodup
    grind

/-- Two paths part at a branch. -/
theorem Paths.branch {p q : Nat × (Nat → Bool)} (h : Paths live next_pc [p, q])
    (hf : Follows prog top live next_pc) (hp : prog.Structured) :
    prog.reconvergence_pc top.m_pc ≠ null_pc ∧
      ImmediatePostDominator prog.succ prog.exit_pc (prog.reconvergence_pc top.m_pc) top.m_pc := by
  have h1 := h.edge hf (p := p) (by simp)
  have h2 := h.edge hf (p := q) (by simp)
  have hne : p.1 ≠ q.1 := by simpa using h.nodup
  exact hp.reconverges _ _ _ h1.1 h2.1 hne h1.2.1 h2.2.1

/-- A path that leads to where the entry reconverges reconverges there itself. -/
theorem Paths.back {p q : Nat × (Nat → Bool)} (h : Paths live next_pc [p, q])
    (hf : Follows prog top live next_pc) (hp : prog.Structured) (hahead : Ahead prog top)
    (hback : p.1 = top.m_recvg_pc) : prog.reconvergence_pc top.m_pc = top.m_recvg_pc := by
  have hedge := h.edge hf (p := p) (by simp)
  rcases hahead with hnull | hpost
  · exact absurd (hback.trans hnull) hedge.2.2
  · rw [hback] at hedge
    exact ((h.branch hf hp).2.of_succ hpost hedge.1).symm

/-- An edge leads on towards where the entry reconverges. -/
theorem Ahead.step {e : SimtStackEntry} (h : Ahead prog e) {q : Nat} (hs : prog.succ e.m_pc q)
    (hne : q ≠ e.m_recvg_pc) {m : Nat → Bool} :
    Ahead prog (pathEntry e.m_recvg_pc (q, m)) := by
  rcases h with hnull | ⟨hne', hpost⟩
  · exact Or.inl hnull
  · exact Or.inr ⟨hne.symm, hpost.of_succ hne' hs⟩

theorem pathEntry_ok {r : Nat} {p : Nat × (Nat → Bool)} (h : Paths live next_pc ps)
    (hf : Follows prog top live next_pc) (htop : EntryOk prog m_warp_size top) (hp : p ∈ ps)
    (hahead : Ahead prog (pathEntry r p)) : EntryOk prog m_warp_size (pathEntry r p) where
  normal := rfl
  sized := fun t ht => htop.sized t (h.mask_sub hf hp t ht)
  some_thread := h.taken p hp
  ahead := hahead

theorem pathEntries_ok (h : Paths live next_pc ps) (hf : Follows prog top live next_pc)
    (hp : prog.Structured) (htop : EntryOk prog m_warp_size top) {e : SimtStackEntry}
    (he : e ∈ pathEntries (prog.reconvergence_pc top.m_pc) top ps) :
    EntryOk prog m_warp_size e ∧ ∀ t, e.m_active_mask t = true → top.m_active_mask t = true := by
  match ps, h with
  | [], _ => simp [pathEntries] at he
  | [p], h =>
    have hedge := h.edge hf (p := p) (by simp)
    by_cases hback : p.1 = top.m_recvg_pc
    · simp [pathEntries, hback] at he
    · simp only [pathEntries, hback, if_false, List.mem_singleton] at he
      subst he
      exact ⟨pathEntry_ok h hf htop (by simp) (htop.ahead.step hedge.1 hback),
        h.mask_sub hf (by simp)⟩
  | [p, q], h =>
    obtain ⟨hnull, hpost⟩ := h.branch hf hp
    simp only [pathEntries, partedEntries, List.mem_append, List.mem_map, List.mem_filter,
      decide_eq_true_eq] at he
    rcases he with ⟨x, ⟨hx, hne⟩, rfl⟩ | he
    · have hin : x ∈ [p, q] := by
        simp only [List.mem_cons] at hx ⊢
        tauto
      have hedge := h.edge hf hin
      have hahead : Ahead prog (pathEntry (prog.reconvergence_pc top.m_pc) x) :=
        Or.inr ⟨Ne.symm hne, hpost.strict.2.of_succ hpost.strict.1 hedge.1⟩
      exact ⟨pathEntry_ok h hf htop hin hahead, h.mask_sub hf hin⟩
    · by_cases hr : prog.reconvergence_pc top.m_pc = top.m_recvg_pc
      · simp [hr] at he
      · simp only [hr, if_false, List.mem_singleton] at he
        subst he
        refine ⟨⟨htop.normal, htop.sized, htop.some_thread, ?_⟩, fun t ht => ht⟩
        rcases htop.ahead with h1 | h1
        · exact Or.inl h1
        · exact Or.inr ⟨fun h2 => hr h2.symm, hpost.first _ h1⟩
  | _ :: _ :: _ :: _, _ => simp [pathEntries] at he

theorem pathEntries_grounded (h : Paths live next_pc ps) (hf : Follows prog top live next_pc)
    (hp : prog.Structured) {rest : List SimtStackEntry} (hg : Grounded (top :: rest)) :
    Grounded (pathEntries (prog.reconvergence_pc top.m_pc) top ps ++ rest) := by
  obtain ⟨hlast, hg⟩ := hg
  match ps, h with
  | [], _ => exact hg
  | [p], _ =>
    by_cases hback : p.1 = top.m_recvg_pc
    · simpa [pathEntries, hback] using hg
    · simp only [pathEntries, hback, if_false]
      exact ⟨hlast, hg⟩
  | [p, q], h =>
    have hnull := (h.branch hf hp).1
    simp only [pathEntries, partedEntries]
    generalize prog.reconvergence_pc top.m_pc = r at hnull
    have hbase : Grounded ((if r = top.m_recvg_pc then [] else [top.setPc r]) ++ rest) ∧
        (if r = top.m_recvg_pc then [] else [top.setPc r]) ++ rest ≠ [] := by
      by_cases hr : r = top.m_recvg_pc
      · have hne : rest ≠ [] := fun h1 => hnull (hr.trans (hlast.mpr h1))
        simpa [hr] using ⟨hg, hne⟩
      · simp only [hr, if_false, List.singleton_append]
        exact ⟨⟨hlast, hg⟩, by simp⟩
    rw [List.append_assoc]
    generalize (if r = top.m_recvg_pc then [] else [top.setPc r]) ++ rest = below at hbase
    obtain ⟨hgb, hne⟩ := hbase
    generalize [q, p].filter (fun x => x.1 ≠ r) = parted
    induction parted with
    | nil => exact hgb
    | cons x xs ih =>
      refine ⟨⟨fun h1 => absurd h1 hnull, fun h1 => ?_⟩, ih⟩
      exact absurd (List.append_eq_nil_iff.mp h1).2 hne
  | _ :: _ :: _ :: _, _ => exact hg

/-- A thread on one of the paths is in its entry, unless that path waits. -/
theorem chain_own {xs : List (Nat × (Nat → Bool))} {x : Nat × (Nat → Bool)} {t r : Nat}
    {waiting : List SimtStackEntry} (hx : xs.filter (fun y => y.2 t) = [x])
    (hw : Chain r waiting) :
    Chain x.1 (((xs.filter (fun y => y.1 ≠ r)).map (pathEntry r)).filter
      (fun e => e.m_active_mask t) ++ waiting) := by
  have hcomm : (xs.filter (fun y => y.1 ≠ r)).filter (fun y => y.2 t) =
      [x].filter (fun y => y.1 ≠ r) := by
    rw [← hx, List.filter_filter, List.filter_filter]
    congr 1
    funext y
    exact Bool.and_comm _ _
  have hmap : ((fun e : SimtStackEntry => e.m_active_mask t) ∘ pathEntry r) =
      fun y : Nat × (Nat → Bool) => y.2 t := rfl
  rw [List.filter_map, hmap, hcomm]
  by_cases hr : x.1 = r
  · simpa [hr] using hw
  · simp only [ne_eq, hr, not_false_eq_true, decide_true, List.filter_cons_of_pos, List.filter_nil,
      List.map_cons, List.map_nil, List.singleton_append]
    exact ⟨rfl, hw⟩

/-- A thread that goes on keeps its chain. -/
theorem pathEntries_chain (h : Paths live next_pc ps) (hf : Follows prog top live next_pc)
    (hp : prog.Structured) {t : Nat} (ht : live t) {below : List SimtStackEntry}
    (hc : Chain top.m_recvg_pc below) :
    Chain (next_pc t)
      ((pathEntries (prog.reconvergence_pc top.m_pc) top ps).filter (fun e => e.m_active_mask t) ++
        below) := by
  have hlen := h.length_le hf hp
  have hcov := h.covered t ht
  match ps, h with
  | [], _ => simp at hcov
  | [p], h =>
    have hpc : next_pc t = p.1 := by simpa using hcov
    have hin : p.2 t = true := (h.mask p (by simp) t).mpr ⟨ht, hpc⟩
    by_cases hback : p.1 = top.m_recvg_pc
    · simpa [pathEntries, hback, hpc] using hc
    · simp only [pathEntries, hback, if_false, pathEntry, List.filter_cons, hin, if_true,
        List.filter_nil, hpc]
      exact ⟨rfl, hc⟩
  | [p, q], h =>
    have htop := (hf t ht).1
    have hbase : Chain (prog.reconvergence_pc top.m_pc)
        ((if prog.reconvergence_pc top.m_pc = top.m_recvg_pc then []
          else [top.setPc (prog.reconvergence_pc top.m_pc)]).filter (fun e => e.m_active_mask t) ++
          below) := by
      by_cases hr : prog.reconvergence_pc top.m_pc = top.m_recvg_pc
      · simpa [hr] using hc
      · simp only [hr, if_false, List.filter_cons, SimtStackEntry.setPc, htop, if_true,
          List.filter_nil]
        exact ⟨rfl, hc⟩
    simp only [pathEntries, partedEntries, List.filter_append, List.append_assoc]
    generalize (if prog.reconvergence_pc top.m_pc = top.m_recvg_pc then []
      else [top.setPc (prog.reconvergence_pc top.m_pc)]).filter (fun e => e.m_active_mask t) ++
        below = waiting at hbase
    generalize prog.reconvergence_pc top.m_pc = r at hbase
    have hmp := h.mask p (by simp) t
    have hmq := h.mask q (by simp) t
    have hpq : p.1 ≠ q.1 := by simpa using h.nodup
    have hside : next_pc t = p.1 ∨ next_pc t = q.1 := by simpa using hcov
    rcases hside with hpc | hpc
    · rw [hpc]
      apply chain_own _ hbase
      grind
    · rw [hpc]
      apply chain_own _ hbase
      grind
  | _ :: _ :: _ :: _, _ =>
    simp at hlen

end update

/-! ## A thread alone -/

/-- The state of one thread. -/
structure ThreadRun where
  pc : Nat
  thread_done : Bool
  trace : List Nat

def Warp.thread (w : Warp) (t : Nat) : ThreadRun := ⟨w.pc t, w.thread_done t, w.trace t⟩

/-- One instruction of a thread with no other thread beside it. -/
def aloneStep (prog : WarpProgram) (t : Nat) (r : ThreadRun) : ThreadRun :=
  if r.thread_done then r
  else match prog.outcome t (r.pc :: r.trace) with
    | none => ⟨null_pc, true, r.pc :: r.trace⟩
    | some q => ⟨q, false, r.pc :: r.trace⟩

/-- The thread after `n` instructions. -/
def alone (prog : WarpProgram) (t : Nat) : Nat → ThreadRun
  | 0 => ⟨prog.start_pc, false, []⟩
  | n + 1 => aloneStep prog t (alone prog t n)

/-! ## The warp -/

/-- The warps that a launch with `active_mask` leads to. -/
inductive WarpReachable (m_warp_size : Nat) (prog : WarpProgram) (active_mask : Nat → Bool) :
    Warp → Prop
  | launch : WarpReachable m_warp_size prog active_mask (launchWarp prog active_mask)
  | step {w w' : Warp} : WarpReachable m_warp_size prog active_mask w →
      warpStep m_warp_size prog w = some w' → WarpReachable m_warp_size prog active_mask w'

structure Aligned (m_warp_size : Nat) (prog : WarpProgram) (active_mask : Nat → Bool) (w : Warp) :
    Prop where
  entries : ∀ e ∈ w.m_stack, EntryOk prog m_warp_size e
  grounded : Grounded w.m_stack
  chain : ∀ t, w.thread_done t = false → Chain (w.pc t) (w.entriesOf t)
  going : ∀ t, w.thread_done t = false → w.pc t ≠ null_pc
  alone : ∀ t, active_mask t = true → ∃ n, w.thread t = alone prog t n

section warp

variable {prog : WarpProgram} {m_warp_size : Nat} {active_mask : Nat → Bool} {w : Warp}
  {top : SimtStackEntry} {rest : List SimtStackEntry}

/-- The entry on top stands at the next pc of each of its threads. -/
theorem Aligned.top_pc (h : Aligned m_warp_size prog active_mask w) (hs : w.m_stack = top :: rest)
    {t : Nat} (hin : top.m_active_mask t = true) (hlive : w.thread_done t = false) :
    w.pc t = top.m_pc := by
  have hc := h.chain t hlive
  simp only [Warp.entriesOf, hs, List.filter_cons, hin, if_true] at hc
  exact hc.1.symm

theorem executeWarp_thread_of_executes {t : Nat} (h : executes w top t = true)
    (hpc : w.pc t = top.m_pc) : (executeWarp prog w top).thread t = aloneStep prog t (w.thread t) := by
  have hlive : w.thread_done t = false := by
    simp only [executes, Bool.and_eq_true, Bool.not_eq_true'] at h
    exact h.2
  simp only [Warp.thread, aloneStep, executeWarp, h, if_true, hlive, hpc, Bool.false_or,
    Bool.true_and, Bool.false_eq_true, if_false]
  cases prog.outcome t (top.m_pc :: w.trace t) <;> rfl

theorem executeWarp_thread_of_not {t : Nat} (h : executes w top t = false) :
    (executeWarp prog w top).thread t = w.thread t := by
  simp [Warp.thread, executeWarp, h]

theorem Aligned.launch (hp : prog.Structured) (hsize : ∀ t, active_mask t = true → t < m_warp_size)
    (hany : ∃ t, active_mask t = true) :
    Aligned m_warp_size prog active_mask (launchWarp prog active_mask) where
  entries := by
    intro e he
    simp only [launchWarp, List.mem_singleton] at he
    subst he
    exact ⟨rfl, hsize, hany, Or.inl rfl⟩
  grounded := by simp [launchWarp, Grounded]
  chain := by
    intro t ht
    have hin : active_mask t = true := by simpa [launchWarp] using ht
    simp [Warp.entriesOf, launchWarp, hin, Chain]
  going := fun _ _ => hp.starts
  alone := by
    intro t ht
    refine ⟨0, ?_⟩
    simp [Warp.thread, launchWarp, ht, gpgpu_sim_uvm.alone]

/-- A thread of the top entry that goes on goes along an edge. -/
theorem executeWarp_goes (hp : prog.Structured) {t : Nat} (hin : top.m_active_mask t = true)
    (hlive : (executeWarp prog w top).thread_done t = false) :
    executes w top t = true ∧ prog.succ top.m_pc ((executeWarp prog w top).pc t) ∧
      (executeWarp prog w top).pc t ≠ prog.exit_pc ∧ (executeWarp prog w top).pc t ≠ null_pc := by
  have hbefore : w.thread_done t = false := by
    simp only [executeWarp, Bool.or_eq_false_iff] at hlive
    exact hlive.1
  have he : executes w top t = true := by simp [executes, hin, hbefore]
  simp only [executeWarp, he, hbefore, Bool.true_and, Bool.false_or, if_true] at hlive ⊢
  cases ho : prog.outcome t (top.m_pc :: w.trace t) with
  | none => simp [ho] at hlive
  | some q => exact ⟨trivial, hp.along _ _ _ _ ho⟩

theorem executeWarp_follows (w : Warp) (top : SimtStackEntry) (hp : prog.Structured) : Follows prog top
    (fun t => top.m_active_mask t = true ∧ (executeWarp prog w top).thread_done t = false)
    (fun t => if (executeWarp prog w top).thread_done t then null_pc
      else (executeWarp prog w top).pc t) := by
  rintro t ⟨hin, hlive⟩
  have hgo := executeWarp_goes hp hin hlive
  simp only [hlive, Bool.false_eq_true, if_false]
  exact ⟨hin, hgo.2⟩

/-- The update of a step succeeds, by the paths of the threads that go on. -/
theorem Aligned.updated (hp : prog.Structured) (h : Aligned m_warp_size prog active_mask w)
    (hs : w.m_stack = top :: rest) :
    ∃ ps, Paths
        (fun t => top.m_active_mask t = true ∧ (executeWarp prog w top).thread_done t = false)
        (fun t => if (executeWarp prog w top).thread_done t then null_pc
          else (executeWarp prog w top).pc t) ps ∧
      warpStep m_warp_size prog w = some
        { executeWarp prog w top with
          m_stack := pathEntries (prog.reconvergence_pc top.m_pc) top ps ++ rest } := by
  have htop := h.entries top (by simp [hs])
  have hf := executeWarp_follows w top hp
  obtain ⟨ps, hps, hupdate⟩ := simtUpdate_paths rest
    (prog.reconvergence_pc top.m_pc) (prog.isize top.m_pc) htop.sized htop.some_thread
    (fun t hin hlive => (hf t ⟨hin, hlive⟩).2.2.2) htop.normal (hp.no_call _)
    (fun ps hps => hps.length_le hf hp) (fun p q hps => hps.back hf hp htop.ahead)
  refine ⟨ps, hps, ?_⟩
  simp only [warpStep, hs]
  rw [hupdate]
  rfl

/-- One step of a warp: the threads of the top entry each take the step that
they would take alone, and no other thread moves. -/
theorem Aligned.step (hp : prog.Structured) (h : Aligned m_warp_size prog active_mask w)
    (hs : w.m_stack = top :: rest) :
    ∃ w', warpStep m_warp_size prog w = some w' ∧ Aligned m_warp_size prog active_mask w' ∧
      ∀ t, w'.thread t = if executes w top t then aloneStep prog t (w.thread t) else w.thread t := by
  have htop := h.entries top (by simp [hs])
  have hthread : ∀ t, (executeWarp prog w top).thread t =
      if executes w top t then aloneStep prog t (w.thread t) else w.thread t := by
    intro t
    by_cases he : executes w top t = true
    · rw [if_pos he]
      apply executeWarp_thread_of_executes he
      simp only [executes, Bool.and_eq_true, Bool.not_eq_true'] at he
      exact h.top_pc hs he.1 he.2
    · rw [if_neg he]
      exact executeWarp_thread_of_not (by simpa using he)
  have hf := executeWarp_follows w top hp
  obtain ⟨ps, hps, hstep⟩ := h.updated hp hs
  refine ⟨_, hstep, ?_, hthread⟩
  have hg : Grounded (top :: rest) := hs ▸ h.grounded
  refine ⟨?_, pathEntries_grounded hps hf hp hg, ?_, ?_, ?_⟩
  · intro e he
    rcases List.mem_append.mp he with he | he
    · exact (pathEntries_ok hps hf hp htop he).1
    · exact h.entries e (by simp [hs, he])
  · intro t hlive
    have hbefore : w.thread_done t = false := by
      simp only [executeWarp, Bool.or_eq_false_iff] at hlive
      exact hlive.1
    have hc := h.chain t hbefore
    simp only [Warp.entriesOf, hs, List.filter_append, List.filter_cons] at hc ⊢
    by_cases hin : top.m_active_mask t = true
    · simp only [hin, if_true] at hc
      have hgoes : (executeWarp prog w top).thread_done t = false := hlive
      have hchain := pathEntries_chain hps hf hp ⟨hin, hgoes⟩ hc.2
      simpa only [hgoes, Bool.false_eq_true, if_false] using hchain
    · have hout : (pathEntries (prog.reconvergence_pc top.m_pc) top ps).filter
          (fun e => e.m_active_mask t) = [] := by
        apply List.filter_eq_nil_iff.mpr
        intro e he hm
        exact hin ((pathEntries_ok hps hf hp htop he).2 t hm)
      have hstay : executes w top t = false := by simp [executes, hin]
      simp only [hin] at hc
      simpa [hout, executeWarp, hstay] using hc
  · intro t hlive
    by_cases hin : top.m_active_mask t = true
    · exact (executeWarp_goes hp hin hlive).2.2.2
    · have hstay : executes w top t = false := by simp [executes, hin]
      simp only [executeWarp, hstay, Bool.false_and, Bool.or_false] at hlive ⊢
      exact h.going t hlive
  · intro t ht
    obtain ⟨n, hn⟩ := h.alone t ht
    have h1 := hthread t
    by_cases he : executes w top t = true
    · refine ⟨n + 1, ?_⟩
      rw [if_pos he, hn] at h1
      exact h1
    · refine ⟨n, ?_⟩
      rw [if_neg he, hn] at h1
      exact h1

theorem aligned_of_reachable (hp : prog.Structured)
    (hsize : ∀ t, active_mask t = true → t < m_warp_size) (hany : ∃ t, active_mask t = true)
    (h : WarpReachable m_warp_size prog active_mask w) :
    Aligned m_warp_size prog active_mask w := by
  induction h with
  | launch => exact .launch hp hsize hany
  | @step w w' _ hs ih =>
    cases hstack : w.m_stack with
    | nil => simp [warpStep, hstack] at hs
    | cons top rest =>
      obtain ⟨w'', hs', h', _⟩ := ih.step hp hstack
      rw [hs] at hs'
      cases hs'
      exact h'

end warp

/-- The graph has an edge to its exit wherever a thread can end. -/
def WarpProgram.ExitsAreEdges (prog : WarpProgram) : Prop :=
  prog.start_pc ≠ prog.exit_pc ∧
    ∀ t p tr, prog.outcome t (p :: tr) = none → prog.succ p prog.exit_pc

/-- The entries of a finished thread wait at the exit. -/
structure Retired (prog : WarpProgram) (w : Warp) : Prop where
  inside : ∀ t, w.thread_done t = false → w.pc t ≠ prog.exit_pc
  waiting : ∀ e ∈ w.m_stack, ∀ t, e.m_active_mask t = true → w.thread_done t = true →
    e.m_pc = prog.exit_pc

section exits

variable {prog : WarpProgram} {m_warp_size : Nat} {active_mask : Nat → Bool} {w : Warp}
  {top : SimtStackEntry} {rest : List SimtStackEntry}

/-- Below an entry with an edge to the exit, the chain is one entry at most,
and it stands at the exit. -/
theorem Chain.at_exit {e : SimtStackEntry} {es : List SimtStackEntry}
    {q : SimtStackEntry → Bool} (hok : ∀ x ∈ es, Ahead prog x) (he : Ahead prog e)
    (hg : Grounded (e :: es)) (hs : prog.succ e.m_pc prog.exit_pc)
    (hc : Chain e.m_recvg_pc (es.filter q)) {x : SimtStackEntry} (hx : x ∈ es) (hq : q x = true) :
    x.m_pc = prog.exit_pc := by
  have hne : e.m_recvg_pc ≠ null_pc := by
    intro hnull
    rw [hg.1.mp hnull] at hx
    simp at hx
  have hexit : e.m_recvg_pc = prog.exit_pc := (he.resolve_left hne).eq_exit hs
  have hmem : x ∈ es.filter q := List.mem_filter.mpr ⟨hx, hq⟩
  cases hf : es.filter q with
  | nil =>
    rw [hf] at hmem
    simp at hmem
  | cons y ys =>
    rw [hf] at hc hmem
    have hy : y ∈ es := List.mem_of_mem_filter (hf ▸ List.mem_cons_self)
    have hypc : y.m_pc = prog.exit_pc := hc.1.trans hexit
    have hynull : y.m_recvg_pc = null_pc := by
      apply (hok y hy).resolve_right
      intro hpost
      rw [hypc] at hpost
      exact hpost.1 hpost.2.at_exit
    obtain ⟨l₁, l₂, rfl, _, _, rfl⟩ := List.filter_eq_cons_iff.mp hf
    have hl : l₂ = [] := hg.2.nothing_below hynull
    subst hl
    simp only [List.filter_nil, List.mem_singleton] at hmem
    rw [hmem]
    exact hypc

/-- Only the entry that waits where two paths meet holds threads that do not go on. -/
theorem pathEntries_finished {live : Nat → Prop} {next_pc : Nat → Nat}
    {ps : List (Nat × (Nat → Bool))} (h : Paths live next_pc ps) {r : Nat} {e : SimtStackEntry}
    (he : e ∈ pathEntries r top ps) {t : Nat} (hin : e.m_active_mask t = true) (hnot : ¬ live t) :
    e = top.setPc r ∧ ∃ p q, ps = [p, q] := by
  have hpath : ∀ p ∈ ps, e = pathEntry r p ∨ e = pathEntry top.m_recvg_pc p → False := by
    rintro p hp (rfl | rfl)
    · exact hnot ((h.mask p hp t).mp hin).1
    · exact hnot ((h.mask p hp t).mp hin).1
  match ps, hpath with
  | [], _ => simp [pathEntries] at he
  | [p], hpath =>
    by_cases hback : p.1 = top.m_recvg_pc
    · simp [pathEntries, hback] at he
    · simp only [pathEntries, hback, if_false, List.mem_singleton] at he
      exact absurd (Or.inr he) (hpath p (by simp))
  | [p, q], hpath =>
    simp only [pathEntries, partedEntries, List.mem_append, List.mem_map, List.mem_filter] at he
    rcases he with ⟨x, ⟨hx, _⟩, rfl⟩ | he
    · have hin : x ∈ [p, q] := by
        simp only [List.mem_cons] at hx ⊢
        tauto
      exact absurd (Or.inl rfl) (hpath x hin)
    · by_cases hr : r = top.m_recvg_pc
      · simp [hr] at he
      · simp only [hr, if_false, List.mem_singleton] at he
        exact ⟨he, p, q, rfl⟩
  | _ :: _ :: _ :: _, _ => simp [pathEntries] at he

/-- A thread ends at an edge to the exit. -/
theorem executeWarp_ends (hx : prog.ExitsAreEdges) {t : Nat}
    (h : (executeWarp prog w top).thread_done t = true) :
    w.thread_done t = true ∨
      (w.thread_done t = false ∧ top.m_active_mask t = true ∧ prog.succ top.m_pc prog.exit_pc) := by
  cases hd : w.thread_done t with
  | true => exact Or.inl rfl
  | false =>
    simp only [executeWarp, executes, hd, Bool.false_or, Bool.not_false, Bool.and_true,
      Bool.and_eq_true, Option.isNone_iff_eq_none] at h
    exact Or.inr ⟨rfl, h.1, hx.2 _ _ _ h.2⟩

theorem Retired.step (hp : prog.Structured) (hx : prog.ExitsAreEdges)
    (ha : Aligned m_warp_size prog active_mask w) (h : Retired prog w)
    {w' : Warp} (hstep : warpStep m_warp_size prog w = some w') : Retired prog w' := by
  cases hs : w.m_stack with
  | nil => simp [warpStep, hs] at hstep
  | cons top rest =>
    obtain ⟨ps, hps, hw'⟩ := ha.updated hp hs
    have htop := ha.entries top (by simp [hs])
    rw [hstep, Option.some.injEq] at hw'
    subst hw'
    have hf := executeWarp_follows w top hp
    refine ⟨?_, ?_⟩
    · intro t hlive
      by_cases hin : top.m_active_mask t = true
      · exact (executeWarp_goes hp hin hlive).2.2.1
      · have hstay : executes w top t = false := by simp [executes, hin]
        simp only [executeWarp, hstay, Bool.false_and, Bool.or_false] at hlive ⊢
        exact h.inside t hlive
    · intro e he t hin hdone
      have hends := executeWarp_ends hx hdone
      have hg : Grounded (top :: rest) := hs ▸ ha.grounded
      rcases List.mem_append.mp he with he | he
      · have hnot : ¬ (top.m_active_mask t = true ∧
            (executeWarp prog w top).thread_done t = false) := by
          rintro ⟨_, hlive⟩
          rw [hlive] at hdone
          exact Bool.false_ne_true hdone
        have hmask := (pathEntries_ok hps hf hp htop he).2 t hin
        obtain ⟨rfl, p, q, rfl⟩ := pathEntries_finished hps he hin hnot
        rcases hends with hbefore | ⟨_, _, hedge⟩
        · -- threads still go on from here, so it is not the exit
          have hexit := h.waiting top (by simp [hs]) t hmask hbefore
          obtain ⟨u, hu⟩ := hps.taken p (by simp)
          obtain ⟨hutop, hulive⟩ := ((hps.mask p (by simp) u).mp hu).1
          have huexec := (executeWarp_goes hp hutop hulive).1
          simp only [executes, Bool.and_eq_true, Bool.not_eq_true'] at huexec
          have hupc := ha.top_pc hs hutop huexec.2
          exact absurd (hupc.trans hexit) (h.inside u huexec.2)
        · exact (hps.branch hf hp).2.strict.eq_exit hedge
      · rcases hends with hbefore | ⟨hlive, hmask, hedge⟩
        · exact h.waiting e (by simp [hs, he]) t hin hbefore
        · have hc := ha.chain t hlive
          simp only [Warp.entriesOf, hs, List.filter_cons, hmask, if_true] at hc
          exact hc.2.at_exit (fun x hx => (ha.entries x (by simp [hs, hx])).ahead) htop.ahead hg
            hedge he hin

/-- Where the graph knows every exit, a warp never executes an instruction for a
thread that is done: the threads of the top entry are live, until all threads
of the warp are done. -/
theorem done_threads_are_not_executed (hp : prog.Structured) (hx : prog.ExitsAreEdges)
    (hsize : ∀ t, active_mask t = true → t < m_warp_size) (hany : ∃ t, active_mask t = true)
    (h : WarpReachable m_warp_size prog active_mask w) (hs : w.m_stack = top :: rest) :
    (∀ t, top.m_active_mask t = true → w.thread_done t = false) ∨
      ∀ t, w.thread_done t = true := by
  have hr : Retired prog w := by
    clear hs
    induction h with
    | launch =>
      refine ⟨fun _ _ => hx.1, ?_⟩
      intro e he t hin hdone
      simp only [launchWarp, List.mem_singleton] at he
      subst he
      have hmask : active_mask t = true := hin
      simp [launchWarp, hmask] at hdone
    | step hw hstep ih => exact ih.step hp hx (aligned_of_reachable hp hsize hany hw) hstep
  have ha := aligned_of_reachable hp hsize hany h
  by_contra hnot
  simp only [not_or, not_forall, Bool.not_eq_false, Bool.not_eq_true] at hnot
  obtain ⟨⟨t, hin, hdone⟩, u, hlive⟩ := hnot
  -- the top entry stands at the exit, so it is the bottom, which holds the live threads
  have hexit := hr.waiting top (by simp [hs]) t hin hdone
  have hnull : top.m_recvg_pc = null_pc := by
    apply (ha.entries top (by simp [hs])).ahead.resolve_right
    intro hpost
    rw [hexit] at hpost
    exact hpost.1 hpost.2.at_exit
  have hg : Grounded (top :: rest) := hs ▸ ha.grounded
  have hrest := hg.1.mp hnull
  have hc := ha.chain u hlive
  by_cases hu : top.m_active_mask u = true
  · exact hr.inside u hlive ((ha.top_pc hs hu hlive).trans hexit)
  · simp only [Warp.entriesOf, hs, hrest, List.filter_cons, hu, List.filter_nil] at hc
    exact ha.going u hlive hc

end exits

end gpgpu_sim_uvm
