-- The MSHRs lose no miss. A table that is filled only behind its own guard, and
-- made ready by the fetch that opened the entry, hands back every fetch once, in
-- order, and only after its block came back.
import GpgpuSimUvm.Victims

namespace gpgpu_sim_uvm.gpu_cache

variable {cfg : CacheConfig}

/-! ## The history of a block -/

/-- The fetches that were added for a block, the oldest first. -/
def addedTo (b : Nat) : List MshrEvent → List MemFetch
  | [] => []
  | .added x mf :: h => if x = b then addedTo b h ++ [mf] else addedTo b h
  | _ :: h => addedTo b h

/-- The fetches that were returned for a block, the oldest first. -/
def returnedFrom (b : Nat) : List MshrEvent → List MemFetch
  | [] => []
  | .returned x mf :: h => if x = b then returnedFrom b h ++ [mf] else returnedFrom b h
  | _ :: h => returnedFrom b h

/-- What happened since the last entry of the block was freed. -/
def sinceFreed (b : Nat) (h : List MshrEvent) : List MshrEvent :=
  h.takeWhile fun e => decide (e ≠ .freed b)

theorem sinceFreed_cons {b : Nat} {e : MshrEvent} (he : e ≠ .freed b) (h : List MshrEvent) :
    sinceFreed b (e :: h) = e :: sinceFreed b h :=
  List.takeWhile_cons_of_pos (decide_eq_true he)

theorem sinceFreed_freed (b : Nat) (h : List MshrEvent) : sinceFreed b (.freed b :: h) = [] :=
  List.takeWhile_cons_of_neg (by simp)

/-- Every fetch was returned behind a fill of its block, with no entry freed since. -/
def ReturnedWhenReady (h : List MshrEvent) : Prop :=
  ∀ newer b mf older, h = newer ++ .returned b mf :: older → .ready b ∈ sinceFreed b older

theorem ReturnedWhenReady.cons {h : List MshrEvent} (hr : ReturnedWhenReady h) {e : MshrEvent}
    (he : ∀ b mf, e = .returned b mf → .ready b ∈ sinceFreed b h) : ReturnedWhenReady (e :: h) := by
  intro newer b mf older heq
  cases newer with
  | nil =>
    simp only [List.nil_append, List.cons.injEq] at heq
    obtain ⟨rfl, rfl⟩ := heq
    exact he b mf rfl
  | cons e' newer =>
    simp only [List.cons_append, List.cons.injEq] at heq
    exact hr newer b mf older heq.2

/-! ## The table -/

/-- The invariant of a table of which the fetches of the blocks `waiting` are still
below: everything that was added was returned, in order, or is in its entry; the
entries are those of the blocks that are ready or waited for. -/
structure MissesKept (cfg : CacheConfig) (m : MshrTable) (waiting : List Nat) : Prop where
  ledger : ∀ b, addedTo b m.history = returnedFrom b m.history ++ (m.entry b).m_list
  nonempty : ∀ b, m.m_data.contains b = true → (m.entry b).m_list ≠ []
  nodup : (m.m_current_response ++ waiting).Nodup
  covered : ∀ b, m.m_data.contains b = true ↔ b ∈ m.m_current_response ++ waiting
  ready : ∀ b ∈ m.m_current_response, .ready b ∈ sinceFreed b m.history
  returned : ReturnedWhenReady m.history
  atomics : ∀ b, (m.entry b).m_has_atomic = true ↔
    ∃ mf, .added b mf ∈ sinceFreed b m.history ∧ mf.isatomic = true
  entries : m.m_data.entries.length ≤ cfg.m_mshr_entries
  merged : ∀ b, (m.entry b).m_list.length ≤ cfg.m_mshr_max_merge

theorem missesKept_empty : MissesKept cfg {} [] := by
  refine ⟨?_, ?_, List.nodup_nil, ?_, ?_, ?_, ?_, Nat.zero_le _, ?_⟩
  · intro b
    rfl
  · intro b hb
    cases hb
  · intro b
    constructor
    · intro hb
      cases hb
    · intro hb
      cases hb
  · intro b hb
    cases hb
  · intro newer b mf older heq
    simp at heq
  · intro b
    constructor
    · intro hb
      cases hb
    · rintro ⟨mf, hmf, -⟩
      cases hmf
  · intro b
    exact Nat.zero_le _

namespace MissesKept

variable {m : MshrTable} {waiting : List Nat}

/-- The order of the fetches below does not matter. -/
theorem perm (h : MissesKept cfg m waiting) {waiting' : List Nat} (hp : waiting.Perm waiting') :
    MissesKept cfg m waiting' := by
  have happ := List.Perm.append_left m.m_current_response hp
  refine ⟨h.ledger, h.nonempty, happ.nodup_iff.mp h.nodup, ?_, h.ready, h.returned, h.atomics,
    h.entries, h.merged⟩
  intro b
  rw [h.covered b]
  exact happ.mem_iff

theorem keys_perm (h : MissesKept cfg m waiting) :
    m.m_data.keys.Perm (m.m_current_response ++ waiting) := by
  apply (List.perm_ext_iff_of_nodup m.m_data.keys_nodup h.nodup).mpr
  intro b
  rw [StdMap.mem_keys]
  exact h.covered b

/-- No entry has more blocks than the table, ready or waited for. -/
theorem length_eq (h : MissesKept cfg m waiting) :
    m.m_data.entries.length = m.m_current_response.length + waiting.length := by
  have hlen := h.keys_perm.length_eq
  rwa [List.length_append, StdMap.keys, List.length_map] at hlen

/-! ### A fetch is added -/

theorem entry_add_self (m : MshrTable) (b : Nat) (mf : MemFetch) :
    (m.add cfg b mf).entry b =
      { m_list := (m.entry b).m_list ++ [mf]
        m_has_atomic := (m.entry b).m_has_atomic || mf.isatomic } :=
  StdMap.findD_alter_self m.m_data b {} {} _

theorem entry_add_ne (m : MshrTable) {b x : Nat} (mf : MemFetch) (hx : x ≠ b) :
    (m.add cfg b mf).entry x = m.entry x :=
  StdMap.findD_alter_ne m.m_data {} {} _ hx

theorem contains_add (m : MshrTable) (b x : Nat) (mf : MemFetch) :
    (m.add cfg b mf).m_data.contains x = (decide (x = b) || m.m_data.contains x) :=
  StdMap.contains_alter m.m_data b x {} _

theorem history_add (m : MshrTable) (b : Nat) (mf : MemFetch) :
    (m.add cfg b mf).history = .added b mf :: m.history :=
  rfl

/-- What the guard `full` promises of the sizes behind `add`. -/
theorem fits (h : MissesKept cfg m waiting) {b : Nat} (mf : MemFetch)
    (hfull : m.full cfg b = false) (hmerge : 0 < cfg.m_mshr_max_merge) :
    (m.add cfg b mf).m_data.entries.length ≤ cfg.m_mshr_entries ∧
      ((m.add cfg b mf).entry b).m_list.length ≤ cfg.m_mshr_max_merge := by
  rw [entry_add_self, List.length_append, List.length_singleton]
  unfold MshrTable.full at hfull
  cases hb : m.m_data.contains b with
  | true =>
    rw [hb, if_pos rfl, decide_eq_false_iff_not] at hfull
    -- the keys stay the same
    have hkeys : (m.add cfg b mf).m_data.keys.Perm m.m_data.keys := by
      apply (List.perm_ext_iff_of_nodup (StdMap.keys_nodup _) (StdMap.keys_nodup _)).mpr
      intro x
      rw [StdMap.mem_keys, StdMap.mem_keys, contains_add]
      by_cases hx : x = b
      · subst hx
        simp [hb]
      · simp [hx]
    have hlen := hkeys.length_eq
    simp only [StdMap.keys, List.length_map] at hlen
    have hentries := h.entries
    omega
  | false =>
    rw [hb, if_neg (by decide), decide_eq_false_iff_not] at hfull
    have hnone : m.m_data.find b = none := by
      simpa [StdMap.contains] using hb
    have hlen := (StdMap.perm_alter_new m.m_data {}
      (fun e => { m_list := e.m_list ++ [mf], m_has_atomic := e.m_has_atomic || mf.isatomic })
      hnone).length_eq
    have hlist : (m.entry b).m_list = [] := by
      unfold MshrTable.entry
      rw [StdMap.findD_of_not_contains m.m_data {} hb]
    rw [hlist]
    simp only [List.length_cons] at hlen
    change (m.m_data.alter b {} _).entries.length ≤ _ ∧ _
    rw [hlen]
    simp only [List.length_nil]
    omega

/-- Behind its guard the assertion of `add` holds. -/
theorem add_aborted (h : MissesKept cfg m waiting) {b : Nat} {mf : MemFetch}
    (hfull : m.full cfg b = false) (hmerge : 0 < cfg.m_mshr_max_merge) :
    (m.add cfg b mf).aborted = m.aborted := by
  have hfits := h.fits mf hfull hmerge
  change (m.aborted || !decide ((m.add cfg b mf).m_data.entries.length ≤ cfg.m_mshr_entries ∧
    ((m.add cfg b mf).entry b).m_list.length ≤ cfg.m_mshr_max_merge)) = m.aborted
  rw [decide_eq_true hfits]
  simp

/-- A table that merges nothing fails its assertion at once. -/
theorem merges_of_add {b : Nat} {mf : MemFetch} (hab : (m.add cfg b mf).aborted = false) :
    0 < cfg.m_mshr_max_merge := by
  have hlen : ((m.add cfg b mf).entry b).m_list.length ≤ cfg.m_mshr_max_merge := by
    have hboth : (m.aborted || !decide ((m.add cfg b mf).m_data.entries.length ≤
        cfg.m_mshr_entries ∧ ((m.add cfg b mf).entry b).m_list.length ≤
          cfg.m_mshr_max_merge)) = false := hab
    simp only [Bool.or_eq_false_iff, Bool.not_eq_false', decide_eq_true_eq] at hboth
    exact hboth.2.2
  rw [entry_add_self, List.length_append, List.length_singleton] at hlen
  omega

/-- A fetch joins the entry of its block, or opens it and goes below. -/
theorem add (h : MissesKept cfg m waiting) {b : Nat} {mf : MemFetch}
    (hfull : m.full cfg b = false) (hab : (m.add cfg b mf).aborted = false) :
    MissesKept cfg (m.add cfg b mf)
      (if m.m_data.contains b = true then waiting else waiting ++ [b]) := by
  obtain ⟨hentries, hlist⟩ := h.fits mf hfull (merges_of_add hab)
  refine ⟨?_, ?_, ?_, ?_, ?_, ?_, ?_, hentries, ?_⟩
  · intro x
    rw [history_add]
    simp only [addedTo, returnedFrom]
    by_cases hx : x = b
    · subst hx
      rw [if_pos rfl, entry_add_self, h.ledger x, List.append_assoc]
    · rw [if_neg (Ne.symm hx), entry_add_ne m mf hx]
      exact h.ledger x
  · intro x hx
    by_cases hxb : x = b
    · subst hxb
      rw [entry_add_self]
      simp
    · rw [entry_add_ne m mf hxb]
      rw [contains_add] at hx
      exact h.nonempty x (by simpa [hxb] using hx)
  · change (m.m_current_response ++ _).Nodup
    split
    · exact h.nodup
    · rename_i hb
      rw [← List.append_assoc, List.nodup_append_comm, List.singleton_append]
      refine List.nodup_cons.mpr ⟨?_, h.nodup⟩
      rw [← h.covered b]
      exact hb
  · intro x
    rw [contains_add]
    change _ ↔ x ∈ m.m_current_response ++ _
    split
    · rename_i hb
      rw [← h.covered x]
      by_cases hx : x = b
      · subst hx
        simp [hb]
      · simp [hx]
    · rw [← List.append_assoc, List.mem_append, ← h.covered x, List.mem_singleton]
      by_cases hx : x = b
      · simp [hx]
      · simp [hx]
  · intro x hx
    rw [history_add, sinceFreed_cons (by simp)]
    exact List.mem_cons_of_mem _ (h.ready x hx)
  · rw [history_add]
    exact h.returned.cons fun _ _ he => nomatch he
  · intro x
    rw [history_add, sinceFreed_cons (by simp)]
    by_cases hx : x = b
    · subst hx
      rw [entry_add_self, Bool.or_eq_true, h.atomics x]
      constructor
      · rintro (⟨f, hf, hatomic⟩ | hatomic)
        · exact ⟨f, List.mem_cons_of_mem _ hf, hatomic⟩
        · exact ⟨mf, List.mem_cons_self, hatomic⟩
      · rintro ⟨f, hf, hatomic⟩
        rcases List.mem_cons.mp hf with heq | hf
        · cases heq
          exact Or.inr hatomic
        · exact Or.inl ⟨f, hf, hatomic⟩
    · rw [entry_add_ne m mf hx, h.atomics x]
      constructor
      · rintro ⟨f, hf, hatomic⟩
        exact ⟨f, List.mem_cons_of_mem _ hf, hatomic⟩
      · rintro ⟨f, hf, hatomic⟩
        rcases List.mem_cons.mp hf with heq | hf
        · cases heq
          exact absurd rfl hx
        · exact ⟨f, hf, hatomic⟩
  · intro x
    by_cases hx : x = b
    · subst hx
      exact hlist
    · rw [entry_add_ne m mf hx]
      exact h.merged x

/-! ### A block comes back -/

theorem mark_ready (h : MissesKept cfg m waiting) {b : Nat} {rest : List Nat}
    (hp : waiting.Perm (b :: rest)) : MissesKept cfg (m.mark_ready b).1 rest := by
  have hback := h.perm hp
  have hmem : ∀ x, x ∈ (m.m_current_response ++ [b]) ++ rest ↔
      x ∈ m.m_current_response ++ b :: rest := by
    intro x
    rw [List.append_assoc, List.singleton_append]
  refine ⟨?_, h.nonempty, ?_, ?_, ?_, ?_, ?_, h.entries, h.merged⟩
  · intro x
    change addedTo x (.ready b :: m.history) = returnedFrom x (.ready b :: m.history) ++ _
    simp only [addedTo, returnedFrom]
    exact h.ledger x
  · change ((m.m_current_response ++ [b]) ++ rest).Nodup
    rw [List.append_assoc, List.singleton_append]
    exact hback.nodup
  · intro x
    change _ ↔ x ∈ (m.m_current_response ++ [b]) ++ rest
    rw [hmem]
    exact hback.covered x
  · intro x hx
    change MshrEvent.ready x ∈ sinceFreed x (.ready b :: m.history)
    rw [sinceFreed_cons (by simp)]
    rcases List.mem_append.mp hx with hx | hx
    · exact List.mem_cons_of_mem _ (h.ready x hx)
    · rw [List.mem_singleton.mp hx]
      exact List.mem_cons_self
  · exact h.returned.cons fun _ _ he => nomatch he
  · intro x
    change _ ↔ ∃ mf, MshrEvent.added x mf ∈ sinceFreed x (.ready b :: m.history) ∧ _
    rw [sinceFreed_cons (by simp)]
    simp only [List.mem_cons, reduceCtorEq, false_or]
    exact h.atomics x

/-- The assertions of `mark_ready` hold for a block that is waited for. -/
theorem mark_ready_aborted (h : MissesKept cfg m waiting) {b : Nat} {rest : List Nat}
    (hp : waiting.Perm (b :: rest)) : (m.mark_ready b).1.aborted = m.aborted := by
  have hin : m.m_data.contains b = true := by
    apply (h.covered b).mpr
    apply List.mem_append_right
    exact hp.mem_iff.mpr List.mem_cons_self
  have hlen := h.length_eq
  have hwait := hp.length_eq
  rw [List.length_cons] at hwait
  have hroom : (m.m_current_response ++ [b]).length ≤ m.m_data.entries.length := by
    rw [List.length_append, List.length_singleton]
    omega
  simp only [MshrTable.mark_ready, MshrTable.require, hin, hroom, decide_true, Bool.and_self,
    Bool.not_true, Bool.or_false]

/-! ### A fetch is returned -/

/-- More than one fetch is left in the entry in front. -/
theorem return_one (h : MissesKept cfg m waiting) {b : Nat} {rest : List Nat} {mf : MemFetch}
    {mfs : List MemFetch} (hfront : m.m_current_response = b :: rest)
    (hlist : (m.entry b).m_list = mf :: mfs) (hmore : mfs ≠ []) :
    MissesKept cfg
      { m with
        m_data := m.m_data.alter b {} fun e => { e with m_list := mfs }
        history := .returned b mf :: m.history } waiting := by
  have hb : m.m_data.contains b = true := by
    apply (h.covered b).mpr
    rw [hfront]
    exact List.mem_cons_self
  have hself : ∀ d, (m.m_data.alter b {} fun e => { e with m_list := mfs }).findD b d =
      { m.entry b with m_list := mfs } := fun d => StdMap.findD_alter_self m.m_data b {} d _
  have hne : ∀ x, x ≠ b →
      (m.m_data.alter b {} fun e => { e with m_list := mfs }).findD x {} = m.entry x :=
    fun x hx => StdMap.findD_alter_ne m.m_data {} {} _ hx
  have hcontains : ∀ x, (m.m_data.alter b {} fun e => { e with m_list := mfs }).contains x =
      m.m_data.contains x := by
    intro x
    rw [StdMap.contains_alter]
    by_cases hx : x = b
    · subst hx
      simp [hb]
    · simp [hx]
  refine ⟨?_, ?_, h.nodup, ?_, ?_, ?_, ?_, ?_, ?_⟩
  · intro x
    simp only [addedTo, returnedFrom, MshrTable.entry]
    by_cases hx : x = b
    · subst hx
      rw [if_pos rfl, hself, h.ledger x, hlist, List.append_assoc, List.singleton_append]
    · rw [if_neg (Ne.symm hx), hne x hx]
      exact h.ledger x
  · intro x hx
    simp only [MshrTable.entry]
    by_cases hxb : x = b
    · subst hxb
      rw [hself]
      exact hmore
    · rw [hne x hxb]
      exact h.nonempty x ((hcontains x).symm.trans hx)
  · intro x
    exact (hcontains x).symm ▸ h.covered x
  · intro x hx
    rw [sinceFreed_cons (by simp)]
    exact List.mem_cons_of_mem _ (h.ready x hx)
  · apply h.returned.cons
    intro x f he
    cases he
    apply h.ready
    rw [hfront]
    exact List.mem_cons_self
  · intro x
    rw [sinceFreed_cons (by simp)]
    simp only [MshrTable.entry, List.mem_cons, reduceCtorEq, false_or]
    by_cases hx : x = b
    · subst hx
      rw [hself]
      exact h.atomics x
    · rw [hne x hx]
      exact h.atomics x
  · have hkeys : (m.m_data.alter b {} fun e => { e with m_list := mfs }).keys.Perm
        m.m_data.keys := by
      apply (List.perm_ext_iff_of_nodup (StdMap.keys_nodup _) (StdMap.keys_nodup _)).mpr
      intro x
      rw [StdMap.mem_keys, StdMap.mem_keys, hcontains]
    have hlen := hkeys.length_eq
    simp only [StdMap.keys, List.length_map] at hlen
    have hentries := h.entries
    change (m.m_data.alter b {} _).entries.length ≤ _
    omega
  · intro x
    simp only [MshrTable.entry]
    by_cases hx : x = b
    · subst hx
      rw [hself]
      have hle := h.merged x
      rw [hlist, List.length_cons] at hle
      change mfs.length ≤ _
      omega
    · rw [hne x hx]
      exact h.merged x

/-- The last fetch of the entry in front frees it. -/
theorem return_last (h : MissesKept cfg m waiting) {b : Nat} {rest : List Nat} {mf : MemFetch}
    (hfront : m.m_current_response = b :: rest) (hlist : (m.entry b).m_list = [mf]) :
    MissesKept cfg
      { m with
        m_data := m.m_data.erase b
        m_current_response := rest
        history := .freed b :: .returned b mf :: m.history } waiting := by
  have hready : MshrEvent.ready b ∈ sinceFreed b m.history := by
    apply h.ready
    rw [hfront]
    exact List.mem_cons_self
  have hnodup := h.nodup
  rw [hfront, List.cons_append, List.nodup_cons] at hnodup
  have hself : (m.m_data.erase b).findD b {} = ({} : MshrEntry) := by
    apply StdMap.findD_of_not_contains
    simp [StdMap.contains_erase]
  have hne : ∀ x, x ≠ b → (m.m_data.erase b).findD x {} = m.entry x := by
    intro x hx
    unfold StdMap.findD
    rw [StdMap.find_erase_ne m.m_data hx]
    rfl
  refine ⟨?_, ?_, hnodup.2, ?_, ?_, ?_, ?_, ?_, ?_⟩
  · intro x
    simp only [addedTo, returnedFrom, MshrTable.entry]
    by_cases hx : x = b
    · subst hx
      rw [if_pos rfl, hself, h.ledger x, hlist, List.append_nil]
    · rw [if_neg (Ne.symm hx), hne x hx]
      exact h.ledger x
  · intro x hx
    simp only [StdMap.contains_erase, Bool.and_eq_true, Bool.not_eq_true',
      decide_eq_false_iff_not] at hx
    simp only [MshrTable.entry]
    rw [hne x hx.1]
    exact h.nonempty x hx.2
  · intro x
    change (m.m_data.erase b).contains x = true ↔ x ∈ rest ++ waiting
    have hx := h.covered x
    rw [hfront, List.cons_append, List.mem_cons] at hx
    rw [StdMap.contains_erase, Bool.and_eq_true, hx]
    by_cases hxb : x = b
    · subst hxb
      simp [hnodup.1]
    · simp [hxb]
  · intro x hx
    have hxb : x ≠ b := by
      rintro rfl
      exact hnodup.1 (List.mem_append_left _ hx)
    rw [sinceFreed_cons (by simpa using Ne.symm hxb), sinceFreed_cons (by simp)]
    apply List.mem_cons_of_mem
    apply List.mem_cons_of_mem
    apply h.ready
    rw [hfront]
    exact List.mem_cons_of_mem _ hx
  · apply ReturnedWhenReady.cons
    · apply h.returned.cons
      intro x f he
      cases he
      exact hready
    · exact fun _ _ he => nomatch he
  · intro x
    simp only [MshrTable.entry]
    by_cases hx : x = b
    · subst hx
      rw [sinceFreed_freed, hself]
      simp
    · rw [sinceFreed_cons (by simpa using Ne.symm hx), sinceFreed_cons (by simp), hne x hx]
      simp only [List.mem_cons, reduceCtorEq, false_or]
      exact h.atomics x
  · have hle : (m.m_data.erase b).entries.length ≤ m.m_data.entries.length :=
      (std_map.eraseList_sublist b m.m_data.entries).length_le
    exact hle.trans h.entries
  · intro x
    simp only [MshrTable.entry]
    by_cases hx : x = b
    · subst hx
      rw [hself]
      exact Nat.zero_le _
    · rw [hne x hx]
      exact h.merged x

theorem next_access (h : MissesKept cfg m waiting) : MissesKept cfg m.next_access.1 waiting := by
  have hsame : MissesKept cfg (m.require false) waiting :=
    ⟨h.ledger, h.nonempty, h.nodup, h.covered, h.ready, h.returned, h.atomics, h.entries, h.merged⟩
  unfold MshrTable.next_access
  split
  · exact hsame
  · rename_i b rest hfront
    split
    · exact hsame
    · rename_i mf hlist
      exact h.return_last hfront hlist
    · rename_i mf mfs hmore hlist
      apply h.return_one hfront hlist
      rintro rfl
      exact hmore rfl

/-- With a block ready the assertions of `next_access` hold. -/
theorem next_access_aborted (h : MissesKept cfg m waiting) (hready : m.m_current_response ≠ []) :
    m.next_access.1.aborted = m.aborted := by
  unfold MshrTable.next_access
  split
  · rename_i hnone
    exact absurd hnone hready
  · rename_i b rest hfront
    have hb : m.m_data.contains b = true := by
      apply (h.covered b).mpr
      rw [hfront]
      exact List.mem_cons_self
    split
    · rename_i hlist
      exact absurd hlist (h.nonempty b hb)
    · rfl
    · rfl

end MissesKept

/-! ## The cache over its table -/

/-- The blocks of which a fetch is below. -/
def waitingBlocks (c : Cache) : List Nat := c.m_extra_mf_fields.map ExtraMfFields.m_block_addr

/-- What an access can do to the table and to the fetches below: nothing, or it
adds a fetch behind the guard, which goes below if it opens the entry. -/
inductive AddsMiss (cfg : CacheConfig) (c c' : Cache) : Prop
  | nothing (hm : c'.m_mshrs = c.m_mshrs) (hw : waitingBlocks c' = waitingBlocks c)
  | adds (b : Nat) (mf : MemFetch) (hfull : c.m_mshrs.full cfg b = false)
      (hm : c'.m_mshrs = c.m_mshrs.add cfg b mf)
      (hw : waitingBlocks c' =
        if c.m_mshrs.m_data.contains b = true then waitingBlocks c else waitingBlocks c ++ [b])

/-- Both are left alone. -/
structure SparesMisses (c c' : Cache) : Prop where
  m_mshrs : c'.m_mshrs = c.m_mshrs
  m_extra_mf_fields : c'.m_extra_mf_fields = c.m_extra_mf_fields

theorem SparesMisses.waitingBlocks {c c' : Cache} (h : SparesMisses c c') :
    waitingBlocks c' = waitingBlocks c := by
  unfold gpgpu_sim_uvm.gpu_cache.waitingBlocks
  rw [h.m_extra_mf_fields]

theorem SparesMisses.adds {c c' : Cache} (h : SparesMisses c c') : AddsMiss cfg c c' :=
  .nothing h.m_mshrs h.waitingBlocks

namespace AddsMiss

variable {c c' c1 : Cache}

theorem before (h : AddsMiss cfg c1 c') (h1 : SparesMisses c c1) : AddsMiss cfg c c' := by
  cases h with
  | nothing hm hw => exact .nothing (hm.trans h1.m_mshrs) (hw.trans h1.waitingBlocks)
  | adds b mf hfull hm hw =>
    rw [h1.m_mshrs] at hfull hm hw
    rw [h1.waitingBlocks] at hw
    exact .adds b mf hfull hm hw

theorem behind (h : AddsMiss cfg c c1) (h1 : SparesMisses c1 c') : AddsMiss cfg c c' := by
  cases h with
  | nothing hm hw => exact .nothing (h1.m_mshrs.trans hm) (h1.waitingBlocks.trans hw)
  | adds b mf hfull hm hw => exact .adds b mf hfull (h1.m_mshrs.trans hm) (h1.waitingBlocks.trans hw)

end AddsMiss

theorem send_read_request_addsMiss (c : Cache) (addr cache_index : Nat) (mf : MemFetch)
    (time : Nat) (read_only wa : Bool) :
    AddsMiss cfg c (send_read_request cfg c addr cache_index mf time read_only wa).cache := by
  unfold send_read_request
  dsimp only
  split
  · rename_i hmerge
    simp only [Bool.and_eq_true, Bool.not_eq_true', MshrTable.probe] at hmerge
    apply AddsMiss.adds _ mf hmerge.2 rfl
    rw [if_pos hmerge.1]
    rfl
  · split
    · rename_i hopen
      simp only [Bool.and_eq_true, Bool.not_eq_true', MshrTable.probe] at hopen
      apply AddsMiss.adds _ mf hopen.1.2 rfl
      simp [waitingBlocks, hopen.1.1]
    · exact SparesMisses.adds ⟨rfl, rfl⟩

theorem finishMiss_spares (c : Cache) (do_miss : Bool) (evicted : Option EvictedBlockInfo) :
    SparesMisses c (finishMiss cfg c do_miss evicted).1 := by
  unfold finishMiss writeBack
  split
  · split
    · exact ⟨rfl, rfl⟩
    · dsimp only
      split
      · exact ⟨rfl, rfl⟩
      · exact ⟨rfl, rfl⟩
  · exact ⟨rfl, rfl⟩

theorem m_wr_hit_spares (c : Cache) (addr : Nat) (mf : MemFetch) (time idx : Nat) :
    SparesMisses c (m_wr_hit cfg c addr mf time idx).1 := by
  have hwe : SparesMisses c (wr_hit_we cfg c mf idx).1 := by
    unfold wr_hit_we
    split <;> exact ⟨rfl, rfl⟩
  unfold m_wr_hit
  split
  · exact ⟨rfl, rfl⟩
  · exact ⟨rfl, rfl⟩
  · unfold wr_hit_wt
    split <;> exact ⟨rfl, rfl⟩
  · exact hwe
  · unfold wr_hit_global_we_local_wb
    split
    · exact hwe
    · exact ⟨rfl, rfl⟩

theorem wr_miss_no_wa_spares (c : Cache) (mf : MemFetch) :
    SparesMisses c (wr_miss_no_wa cfg c mf).1 := by
  unfold wr_miss_no_wa
  split <;> exact ⟨rfl, rfl⟩

theorem m_wr_miss_addsMiss (c : Cache) (addr : Nat) (mf : MemFetch) (time idx : Nat) :
    AddsMiss cfg c (m_wr_miss cfg c addr mf time idx).1 := by
  unfold m_wr_miss
  split
  · exact (wr_miss_no_wa_spares c mf).adds
  · unfold wr_miss_wa_naive
    split
    · exact SparesMisses.adds ⟨rfl, rfl⟩
    · lift_lets
      intro c1 r
      have hr : AddsMiss cfg { c1 with next_mf := c1.next_mf + 1 } r.cache :=
        send_read_request_addsMiss _ addr idx _ time false true
      have hsent : AddsMiss cfg c r.cache := hr.before ⟨rfl, rfl⟩
      refine AddsMiss.behind ?_ (finishMiss_spares _ _ _)
      exact hsent.behind ⟨rfl, rfl⟩
  · unfold wr_miss_wa_fetch_on_write
    split
    · split
      · exact SparesMisses.adds ⟨rfl, rfl⟩
      · lift_lets
        intro w
        have hw : AddsMiss cfg c w.1 := SparesMisses.adds ⟨rfl, rfl⟩
        exact hw.behind (finishMiss_spares _ _ _)
    · split
      · exact SparesMisses.adds ⟨rfl, rfl⟩
      · split
        · exact SparesMisses.adds ⟨rfl, rfl⟩
        · lift_lets
          intro r c1
          have hr : AddsMiss cfg { c with next_mf := c.next_mf + 1 } r.cache :=
            send_read_request_addsMiss _ addr idx _ time false true
          have hsent : AddsMiss cfg c r.cache := hr.before ⟨rfl, rfl⟩
          refine AddsMiss.behind ?_ (finishMiss_spares _ _ _)
          exact hsent.behind ⟨rfl, rfl⟩
  · unfold wr_miss_wa_lazy_fetch_on_read
    split
    · exact SparesMisses.adds ⟨rfl, rfl⟩
    · lift_lets
      intro c1 w reserved
      have hc1 : SparesMisses c c1 := by
        unfold c1
        split <;> exact ⟨rfl, rfl⟩
      have hw : AddsMiss cfg c1
          (updateLine w.1 (w.2.status.index idx) (lazyBlock cfg mf reserved)) :=
        SparesMisses.adds ⟨rfl, rfl⟩
      exact (hw.before hc1).behind (finishMiss_spares _ _ _)

theorem rd_miss_base_addsMiss (c : Cache) (addr : Nat) (mf : MemFetch) (time idx : Nat) :
    AddsMiss cfg c (rd_miss_base cfg c addr mf time idx).1 := by
  unfold rd_miss_base
  split
  · exact SparesMisses.adds ⟨rfl, rfl⟩
  · exact (send_read_request_addsMiss c addr idx mf time false false).behind
      (finishMiss_spares _ _ _)

theorem rd_hit_base_spares (c : Cache) (addr : Nat) (mf : MemFetch) (time idx : Nat) :
    SparesMisses c (rd_hit_base cfg c addr mf time idx).1 := by
  unfold rd_hit_base
  dsimp only
  split <;> exact ⟨rfl, rfl⟩

theorem process_tag_probe_addsMiss (c : Cache) (wr : Bool) (p : Probe) (addr : Nat)
    (mf : MemFetch) (time : Nat) :
    AddsMiss cfg c (process_tag_probe cfg c wr p addr mf time).1 := by
  have hmiss : ∀ idx, AddsMiss cfg c
      (if wr then m_wr_miss cfg c addr mf time idx else rd_miss_base cfg c addr mf time idx).1 := by
    intro idx
    split
    · exact m_wr_miss_addsMiss c addr mf time idx
    · exact rd_miss_base_addsMiss c addr mf time idx
  cases p with
  | HIT idx =>
    unfold process_tag_probe
    dsimp only
    split
    · exact (m_wr_hit_spares c addr mf time idx).adds
    · exact (rd_hit_base_spares c addr mf time idx).adds
  | HIT_RESERVED idx => exact hmiss idx
  | MISS idx => exact hmiss idx
  | SECTOR_MISS idx => exact hmiss idx
  | RESERVATION_FAIL =>
    unfold process_tag_probe
    dsimp only
    split
    · exact (wr_miss_no_wa_spares c mf).adds
    · exact SparesMisses.adds ⟨rfl, rfl⟩
  | aborts => exact SparesMisses.adds ⟨rfl, rfl⟩

theorem read_only_cache_access_addsMiss (c : Cache) (addr : Nat) (mf : MemFetch) (time : Nat) :
    AddsMiss cfg c (read_only_cache_access cfg c addr mf time).1 := by
  unfold read_only_cache_access
  lift_lets
  intro p c1
  have hmiss : ∀ idx, AddsMiss cfg c
      (if miss_queue_full cfg c1 0 then (c1, CacheRequestStatus.RESERVATION_FAIL)
        else
          let r := send_read_request cfg c1 addr idx mf time true false
          (r.cache, if r.do_miss then .MISS else .RESERVATION_FAIL)).1 := by
    intro idx
    split
    · exact SparesMisses.adds ⟨rfl, rfl⟩
    · exact (send_read_request_addsMiss c1 addr idx mf time true false).before ⟨rfl, rfl⟩
  cases p with
  | HIT idx => exact SparesMisses.adds ⟨rfl, rfl⟩
  | HIT_RESERVED idx => exact hmiss idx
  | MISS idx => exact hmiss idx
  | SECTOR_MISS idx => exact hmiss idx
  | RESERVATION_FAIL => exact SparesMisses.adds ⟨rfl, rfl⟩
  | aborts => exact SparesMisses.adds ⟨rfl, rfl⟩

theorem cacheAccess_addsMiss (c : Cache) (addr : Nat) (mf : MemFetch) (time : Nat) :
    AddsMiss cfg c (cacheAccess cfg c addr mf time).1 := by
  unfold cacheAccess
  split
  · exact read_only_cache_access_addsMiss c addr mf time
  · unfold data_cache_access
    exact (process_tag_probe_addsMiss _ _ _ addr mf time).before ⟨rfl, rfl⟩

/-! ## Runs -/

/-- The invariant of a cache. -/
def CacheKept (cfg : CacheConfig) (c : Cache) : Prop :=
  MissesKept cfg c.m_mshrs (waitingBlocks c)

theorem CacheKept.addsMiss {c c' : Cache} (h : CacheKept cfg c) (ha : AddsMiss cfg c c')
    (hab : c'.m_mshrs.aborted = false) : CacheKept cfg c' := by
  unfold CacheKept at *
  cases ha with
  | nothing hm hw =>
    rw [hm, hw]
    exact h
  | adds b mf hfull hm hw =>
    rw [hm] at hab
    rw [hm, hw]
    exact h.add hfull hab

theorem fillDone_m_mshrs (cfg : CacheConfig) (c : Cache) (e : ExtraMfFields) (time : Nat) :
    (fillDone cfg c e time).m_mshrs = (c.m_mshrs.mark_ready e.m_block_addr).1 ∧
      (fillDone cfg c e time).m_extra_mf_fields = c.m_extra_mf_fields.erase e := by
  unfold fillDone
  dsimp only
  split <;> exact ⟨rfl, rfl⟩

theorem waitingBlocks_erase {c : Cache} {e : ExtraMfFields} (he : e ∈ c.m_extra_mf_fields) :
    (waitingBlocks c).Perm (e.m_block_addr ::
      (c.m_extra_mf_fields.erase e).map ExtraMfFields.m_block_addr) :=
  (List.perm_cons_erase he).map ExtraMfFields.m_block_addr

theorem CacheKept.filled {c : Cache} (h : CacheKept cfg c) {e : ExtraMfFields}
    (he : e ∈ c.m_extra_mf_fields) (time : Nat) : CacheKept cfg (fillDone cfg c e time) := by
  obtain ⟨hm, hw⟩ := fillDone_m_mshrs cfg c e time
  unfold CacheKept waitingBlocks
  rw [hm, hw]
  exact h.mark_ready (waitingBlocks_erase he)

theorem CacheKept.fill {c : Cache} (h : CacheKept cfg c) (made_here : Bool) (serial time : Nat) :
    CacheKept cfg (baseline_cache_fill cfg c made_here serial time) := by
  unfold baseline_cache_fill
  split
  · exact h
  · rename_i e hfound
    have he : e ∈ c.m_extra_mf_fields := List.mem_of_find?_eq_some hfound
    split
    · exact h.filled he time
    · lift_lets
      intro left
      split
      · -- a part came back, and the rest is still below
        unfold CacheKept waitingBlocks
        have hblocks : (c.m_extra_mf_fields.map fun x =>
            if x = e then { e with pending_read := left } else x).map ExtraMfFields.m_block_addr =
            waitingBlocks c := by
          unfold waitingBlocks
          rw [List.map_map]
          apply List.map_congr_left
          intro x _
          by_cases hx : x = e
          · simp [hx]
          · simp [hx]
        rw [hblocks]
        exact h
      · exact h.filled he time

theorem CacheKept.step {c : Cache} (h : CacheKept cfg c) (a : CacheAction)
    (hab : (happens cfg c a).m_mshrs.aborted = false) : CacheKept cfg (happens cfg c a) := by
  cases a with
  | access mf time => exact h.addsMiss (cacheAccess_addsMiss c mf.addr mf time) hab
  | fill made_here serial time => exact h.fill made_here serial time
  | next_access => exact MissesKept.next_access h
  | cycle full =>
    unfold happens baseline_cache_cycle
    dsimp only
    split <;> exact h
  | flush | invalidate | invalidate_line lineaddr | force_tag_access addr time mask => exact h

theorem cacheKept {ok : Cache → CacheAction → Bool} {c : Cache} (hr : CacheReach cfg ok c) :
    CacheKept cfg c := by
  induction hr with
  | start => exact missesKept_empty
  | step _ hn ih =>
    obtain ⟨a, _, ha⟩ := hn
    obtain ⟨_, rfl, hab⟩ := cacheStep_eq_some cfg ha
    simp only [Cache.hasAborted, Bool.or_eq_false_iff] at hab
    exact ih.step a hab.2

theorem not_aborted {ok : Cache → CacheAction → Bool} {c : Cache} (hr : CacheReach cfg ok c) :
    c.hasAborted = false := by
  cases hr with
  | start => rfl
  | step _ hn =>
    obtain ⟨a, _, ha⟩ := hn
    exact (cacheStep_eq_some cfg ha).2.2

/-- No assertion of the table fails, unless it is asked for a fetch with none ready. -/
theorem CacheKept.m_mshrs_aborted {c : Cache} (h : CacheKept cfg c)
    (hmerge : 0 < cfg.m_mshr_max_merge) (a : CacheAction)
    (hready : a = .next_access → c.m_mshrs.m_current_response ≠ []) :
    (happens cfg c a).m_mshrs.aborted = c.m_mshrs.aborted := by
  cases a with
  | access mf time =>
    have hadds : AddsMiss cfg c (happens cfg c (.access mf time)) :=
      cacheAccess_addsMiss c mf.addr mf time
    cases hadds with
    | nothing hm _ => rw [hm]
    | adds b f hfull hm _ =>
      rw [hm]
      exact MissesKept.add_aborted h hfull hmerge
  | fill made_here serial time =>
    have hdone : ∀ e ∈ c.m_extra_mf_fields,
        (fillDone cfg c e time).m_mshrs.aborted = c.m_mshrs.aborted := by
      intro e he
      rw [(fillDone_m_mshrs cfg c e time).1]
      exact MissesKept.mark_ready_aborted h (waitingBlocks_erase he)
    change (baseline_cache_fill cfg c made_here serial time).m_mshrs.aborted = _
    unfold baseline_cache_fill
    split
    · rfl
    · rename_i e hfound
      have he : e ∈ c.m_extra_mf_fields := List.mem_of_find?_eq_some hfound
      split
      · exact hdone e he
      · lift_lets
        intro left
        split
        · rfl
        · exact hdone e he
  | next_access => exact MissesKept.next_access_aborted h (hready rfl)
  | cycle full =>
    simp only [happens, baseline_cache_cycle]
    split <;> rfl
  | flush | invalidate | invalidate_line lineaddr | force_tag_access addr time mask => rfl

/-- What the MSHRs of a cache keep. -/
structure NoMissLost (cfg : CacheConfig) (c : Cache) : Prop where
  /-- What was added for a block was returned, in order, or is still in its entry. -/
  once_in_order : ∀ b, addedTo b c.m_mshrs.history =
    returnedFrom b c.m_mshrs.history ++ (c.m_mshrs.entry b).m_list
  when_ready : ReturnedWhenReady c.m_mshrs.history
  /-- A block has an entry as long as one of its fetches is not returned. -/
  freed_with_last : ∀ b, c.m_mshrs.probe b = true ↔ (c.m_mshrs.entry b).m_list ≠ []
  entries : c.m_mshrs.m_data.entries.length ≤ cfg.m_mshr_entries
  merged : ∀ b, (c.m_mshrs.entry b).m_list.length ≤ cfg.m_mshr_max_merge
  /-- The flag of an entry remembers every atomic since the entry was made. -/
  atomics : ∀ b, (c.m_mshrs.entry b).m_has_atomic = true ↔
    ∃ mf, .added b mf ∈ sinceFreed b c.m_mshrs.history ∧ mf.isatomic = true
  /-- Every entry is ready, or exactly one fetch for it is below. -/
  on_its_way : c.m_mshrs.m_data.keys.Perm (c.m_mshrs.m_current_response ++ waitingBlocks c)
  /-- Whatever comes next, no assertion of the table fails. -/
  asserted : 0 < cfg.m_mshr_max_merge → ∀ a,
    (a = .next_access → c.m_mshrs.m_current_response ≠ []) →
      (happens cfg c a).m_mshrs.aborted = false

/-- In every run of a cache no miss is lost. -/
theorem no_miss_is_lost {c : Cache} (hr : CacheReach cfg anyAction c) : NoMissLost cfg c := by
  have h : MissesKept cfg c.m_mshrs (waitingBlocks c) := cacheKept hr
  have hruns := not_aborted hr
  simp only [Cache.hasAborted, Bool.or_eq_false_iff] at hruns
  refine ⟨h.ledger, h.returned, ?_, h.entries, h.merged, h.atomics, h.keys_perm, ?_⟩
  · intro b
    constructor
    · exact h.nonempty b
    · intro hlist
      cases hb : c.m_mshrs.probe b with
      | true => rfl
      | false =>
        exfalso
        apply hlist
        unfold MshrTable.entry
        rw [StdMap.findD_of_not_contains c.m_mshrs.m_data {} hb]
  · intro hmerge a hready
    exact (CacheKept.m_mshrs_aborted h hmerge a hready).trans hruns.2

/-- A load of a whole line. -/
def loadLine (serial addr : Nat) : MemFetch :=
  { wholeLine serial addr with type := .GLOBAL_ACC_R, is_write := false }

/-- Two loads of a line that is not there, its fill, and both loads coming back. -/
def twoLoads : List CacheAction :=
  [.access (loadLine 0 0) 1, .access (loadLine 1 0) 2, .fill false 0 9, .next_access, .next_access]

theorem no_miss_is_lost_behind_two_loads :
    returnedFrom 0 (cacheAfter twoLines anyAction twoLoads).m_mshrs.history =
        [loadLine 0 0, loadLine 1 0] ∧
      NoMissLost twoLines (cacheAfter twoLines anyAction twoLoads) :=
  ⟨by decide +kernel, no_miss_is_lost (cacheReach_after twoLines anyAction twoLoads)⟩

end gpgpu_sim_uvm.gpu_cache
