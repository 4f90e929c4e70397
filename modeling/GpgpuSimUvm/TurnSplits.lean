-- The transfers of one turn of the hardware prefetcher. The pages that a turn chooses are split
-- into runs of consecutive pages, which end with a fault, at a gap, or with the last page.
import GpgpuSimUvm.HandledPages
import GpgpuSimUvm.FetchLedger

namespace gpgpu_sim_uvm

variable (cfg : Config)

/-! ## Runs -/

/-- Consecutive ascending pages. -/
def IsRun (r : List Nat) : Prop := r ≠ [] ∧ r.IsChain (fun p q => q = p + 1)

/-- The `PAGE_FAULT` entry in front of a run that ends with one of the faults. -/
def faultMark (faults r : List Nat) : List PcieLatency :=
  if cfg.enable_accurate_simulation then
    (r.getLast?.filter fun p => decide (p ∈ faults)).toList.map fun p =>
      { page_list := [p], type := .PAGE_FAULT }
  else []

/-- What a run adds to the stage queue. -/
def runEntries (faults r : List Nat) : List PcieLatency := faultMark cfg faults r ++ [migration cfg r]

/-- The runs of some pages, one of them for each of the faults `fs`, which it ends with. -/
structure RunsOf (fs ps : List Nat) (runs : List (List Nat)) : Prop where
  ascending : ∀ r ∈ runs, IsRun r
  pages : runs.flatten = ps
  ends : ∀ p ∈ fs, ∃ r ∈ runs, r.getLast? = some p

variable {cfg}

theorem RunsOf.append {fs gs ps qs : List Nat} {rs ss : List (List Nat)} (hr : RunsOf fs ps rs)
    (hs : RunsOf gs qs ss) : RunsOf (fs ++ gs) (ps ++ qs) (rs ++ ss) := by
  refine ⟨?_, ?_, ?_⟩
  · intro r hmem
    rcases List.mem_append.mp hmem with hmem | hmem
    · exact hr.ascending r hmem
    · exact hs.ascending r hmem
  · rw [List.flatten_append, hr.pages, hs.pages]
  · intro p hp
    rcases List.mem_append.mp hp with hp | hp
    · obtain ⟨r, hmem, hlast⟩ := hr.ends p hp
      exact ⟨r, List.mem_append_left _ hmem, hlast⟩
    · obtain ⟨r, hmem, hlast⟩ := hs.ends p hp
      exact ⟨r, List.mem_append_right _ hmem, hlast⟩

theorem runsOf_nil : RunsOf [] [] [] :=
  ⟨fun _ hr => (nomatch hr), rfl, fun _ hp => (nomatch hp)⟩

/-- A run without faults. -/
theorem runsOf_single {r : List Nat} (hne : r ≠ []) (hr : r.IsChain (fun p q => q = p + 1)) :
    RunsOf [] r [r] := by
  refine ⟨?_, List.append_nil r, fun _ hp => nomatch hp⟩
  intro s hs
  rw [List.mem_singleton.mp hs]
  exact ⟨hne, hr⟩

theorem faultMark_free {faults r : List Nat} (h : ∀ p ∈ r, p ∉ faults) :
    faultMark cfg faults r = [] := by
  have hnone : r.getLast?.filter (fun p => decide (p ∈ faults)) = none := by
    rw [Option.filter_eq_none_iff]
    intro p hp
    rw [decide_eq_true_eq]
    exact h p (List.mem_of_getLast? hp)
  rw [faultMark, hnone]
  split <;> rfl

variable (cfg) in
/-- A run without faults that is closed. -/
theorem flushRun_runs {faults cur : List Nat} (hcur : cur.IsChain (fun p q => q = p + 1))
    (hfree : ∀ p ∈ cur, p ∉ faults) :
    ∃ runs, flushRun cfg cur = runs.flatMap (runEntries cfg faults) ∧ RunsOf [] cur runs := by
  unfold flushRun
  split_ifs with hnil
  · subst hnil
    exact ⟨[], rfl, runsOf_nil⟩
  · refine ⟨[cur], ?_, runsOf_single hnil hcur⟩
    simp [runEntries, faultMark_free hfree]

variable (cfg) in
/-- A page that follows the current run makes it longer, and any other starts a new one. -/
theorem close_at_gap {faults cur : List Nat} (hcur : cur.IsChain (fun p q => q = p + 1))
    (hfree : ∀ p ∈ cur, p ∉ faults) (p : Nat) :
    ∃ closed kept runs, RunsOf [] closed runs ∧ closed ++ kept = cur ∧
      (kept ++ [p]).IsChain (fun p q => q = p + 1) ∧
      (if cur.getLast?.any (fun q => decide (p ≠ q + 1)) then [] else cur) = kept ∧
      (if cur.getLast?.any (fun q => decide (p ≠ q + 1)) then flushRun cfg cur else []) =
        runs.flatMap (runEntries cfg faults) := by
  split_ifs with hgap
  · obtain ⟨runs, hruns, hof⟩ := flushRun_runs cfg hcur hfree
    exact ⟨cur, [], runs, hof, List.append_nil cur, List.isChain_singleton p, rfl, hruns⟩
  · refine ⟨[], cur, [], runsOf_nil, rfl, ?_, rfl, rfl⟩
    apply hcur.append (List.isChain_singleton p)
    intro q hq r hr
    rw [Option.mem_def] at hq hr
    cases hr
    simpa [hq] using hgap

variable (cfg) in
/-- A transfer is split into the runs of its pages: its faults end their runs, and no other
run ends with a fault. -/
theorem splitTransfer_runs (faults : List Nat) (ps cur fs : List Nat) (hps : ps.Nodup)
    (hcur : cur.IsChain (fun p q => q = p + 1)) (hfree : ∀ p ∈ cur, p ∉ faults)
    (hfs : fs.Sublist ps) (hfaults : ∀ p ∈ ps, p ∈ faults ↔ p ∈ fs) :
    ∃ runs, splitTransfer cfg ps cur fs = runs.flatMap (runEntries cfg faults) ∧
      RunsOf fs (cur ++ ps) runs := by
  induction ps generalizing cur fs with
  | nil =>
    rw [List.sublist_nil.mp hfs, List.append_nil]
    exact flushRun_runs cfg hcur hfree
  | cons p ps ih =>
    obtain ⟨hp, hnodup⟩ := List.nodup_cons.mp hps
    obtain ⟨closed, kept, before, hclosed, hkept, hchain, hrun, hbefore⟩ :=
      close_at_gap cfg hcur hfree p
    have hkeptfree : ∀ q ∈ kept, q ∉ faults := by
      intro q hq
      apply hfree
      rw [← hkept]
      exact List.mem_append_right _ hq
    simp only [splitTransfer]
    rw [hrun, hbefore]
    by_cases hhead : fs.head? = some p
    · -- the page is the next fault, and ends its run
      rw [if_pos hhead]
      obtain ⟨gs, rfl⟩ : ∃ gs, fs = p :: gs := by
        cases fs with
        | nil => cases hhead
        | cons q gs =>
          cases hhead
          exact ⟨gs, rfl⟩
      have hgs : ∀ q ∈ ps, q ∈ faults ↔ q ∈ gs := by
        intro q hq
        have hne : q ≠ p := by
          rintro rfl
          exact hp hq
        rw [hfaults q (List.mem_cons_of_mem _ hq), List.mem_cons, or_iff_right hne]
      obtain ⟨runs, hruns, hof⟩ := ih [] gs hnodup List.IsChain.nil (fun q hq => absurd hq List.not_mem_nil)
        (List.cons_sublist_cons.mp hfs) hgs
      have hpfault : p ∈ faults := (hfaults p List.mem_cons_self).mpr List.mem_cons_self
      have hmark : faultMark cfg faults (kept ++ [p]) =
          if cfg.enable_accurate_simulation then [{ page_list := [p], type := .PAGE_FAULT }] else [] := by
        simp [faultMark, Option.filter_some, hpfault]
      have hmiddle : RunsOf [p] (kept ++ [p]) [kept ++ [p]] := by
        refine ⟨?_, List.append_nil _, ?_⟩
        · intro r hr
          rw [List.mem_singleton.mp hr]
          exact ⟨List.append_ne_nil_of_right_ne_nil _ (List.cons_ne_nil _ _), hchain⟩
        · intro q hq
          rw [List.mem_singleton.mp hq]
          exact ⟨_, List.mem_singleton_self _, List.getLast?_concat⟩
      refine ⟨before ++ ([kept ++ [p]] ++ runs), ?_, ?_⟩
      · rw [List.tail_cons, hruns]
        simp [runEntries, hmark]
      · have hall := hclosed.append (hmiddle.append hof)
        have hpages : closed ++ (kept ++ [p] ++ ([] ++ ps)) = cur ++ p :: ps := by
          rw [← hkept]
          simp
        rw [hpages] at hall
        exact hall
    · -- the page is no fault, and its run goes on
      rw [if_neg hhead]
      have hsub : fs.Sublist ps := by
        cases hfs with
        | cons _ h => exact h
        | cons_cons _ h => exact absurd rfl hhead
      have hpfree : p ∉ faults := by
        rw [hfaults p List.mem_cons_self]
        exact fun hin => hp (hsub.subset hin)
      have hrunfree : ∀ q ∈ kept ++ [p], q ∉ faults := by
        intro q hq
        rcases List.mem_append.mp hq with hq | hq
        · exact hkeptfree q hq
        · rwa [List.mem_singleton.mp hq]
      obtain ⟨runs, hruns, hof⟩ := ih (kept ++ [p]) fs hnodup hchain hrunfree hsub
        (fun q hq => hfaults q (List.mem_cons_of_mem _ hq))
      refine ⟨before ++ runs, ?_, ?_⟩
      · rw [hruns, List.flatMap_append]
      · have hall := hclosed.append hof
        have hpages : closed ++ (kept ++ [p] ++ ps) = cur ++ p :: ps := by
          rw [← hkept]
          simp
        rw [hpages] at hall
        exact hall

/-! ## The transfers of a turn -/

/-- The transfers of a turn bring each page once, and each has its faults in their order. -/
structure TransfersOf (faults : List Nat) (turn : Turn) : Prop where
  once : (planned turn).Nodup
  listed : ∀ p, p ∈ planned turn ↔ p ∈ turn.temp_req_info
  faulty : ∀ t ∈ turn.transfers, t.2.Sublist t.1 ∧ ∀ p ∈ t.1, p ∈ faults ↔ p ∈ t.2

theorem transfersOf_start (faults : List Nat) : TransfersOf faults {} :=
  ⟨List.nodup_nil, fun _ => Iff.rfl, fun _ ht => (nomatch ht)⟩

/-- One more transfer of pages that are new to the turn. -/
theorem TransfersOf.add {faults : List Nat} {turn : Turn} (h : TransfersOf faults turn)
    {ps fs temp : List Nat} (hps : ps.Nodup) (hnew : ∀ p ∈ ps, p ∉ turn.temp_req_info)
    (htemp : ∀ p, p ∈ temp ↔ p ∈ turn.temp_req_info ∨ p ∈ ps) (hfs : fs.Sublist ps)
    (hfaults : ∀ p ∈ ps, p ∈ faults ↔ p ∈ fs) :
    TransfersOf faults { temp_req_info := temp, transfers := turn.transfers ++ [(ps, fs)] } := by
  refine ⟨?_, ?_, ?_⟩
  · rw [planned_append]
    refine List.nodup_append.mpr ⟨h.once, hps, ?_⟩
    rintro p hp q hq rfl
    exact hnew p hq ((h.listed p).mp hp)
  · intro p
    rw [planned_append, List.mem_append, htemp, h.listed]
  · intro t ht
    rcases List.mem_append.mp ht with ht | ht
    · exact h.faulty t ht
    · rw [List.mem_singleton.mp ht]
      exact ⟨hfs, hfaults⟩

variable (cfg) in
/-- The transfers of a turn are split into the runs of their pages. -/
theorem TransfersOf.runs {faults : List Nat} {turn : Turn} (h : TransfersOf faults turn) :
    ∃ runs, (turn.transfers.flatMap fun t => splitTransfer cfg t.1 [] t.2) =
        runs.flatMap (runEntries cfg faults) ∧
      RunsOf (turn.transfers.flatMap Prod.snd) (planned turn) runs := by
  have hnodup := h.once
  have hfaulty := h.faulty
  unfold planned at hnodup ⊢
  generalize turn.transfers = ts at hnodup hfaulty ⊢
  induction ts with
  | nil => exact ⟨[], rfl, runsOf_nil⟩
  | cons t ts ih =>
    obtain ⟨⟨hsub, hiff⟩, hrest⟩ := List.forall_mem_cons.mp hfaulty
    rw [List.flatMap_cons] at hnodup
    obtain ⟨hfirst, hlast, -⟩ := List.nodup_append.mp hnodup
    obtain ⟨rs, hrs, hof⟩ := ih hlast hrest
    obtain ⟨ss, hss, hsof⟩ := splitTransfer_runs cfg faults t.1 [] t.2 hfirst
      List.IsChain.nil (fun q hq => nomatch hq) hsub hiff
    refine ⟨ss ++ rs, ?_, ?_⟩
    · rw [List.flatMap_cons, List.flatMap_append, hss, hrs]
    · exact hsof.append hof

theorem pagesQueued_runEntries (faults : List Nat) (runs : List (List Nat)) :
    pagesQueued (runs.flatMap (runEntries cfg faults)) = runs.flatten := by
  have hmark : ∀ r, pagesQueued (faultMark cfg faults r) = [] := by
    intro r
    unfold faultMark
    split
    · cases r.getLast?.filter fun p => decide (p ∈ faults) <;> rfl
    · rfl
  induction runs with
  | nil => rfl
  | cons r rs ih =>
    rw [List.flatMap_cons, pagesQueued_append, ih, runEntries, pagesQueued_append, hmark,
      List.nil_append, List.flatten_cons]
    exact congrArg (· ++ rs.flatten) (List.append_nil r)

/-! ## What a turn starts with -/

variable (cfg)

/-- The pages that fault in a turn. -/
def faultyPages (g : Gpu) : List Nat := g.page_fault_this_turn.keys

/-- The faulting pages are managed, not valid, and no page that is asked for. -/
structure TurnReady (g : Gpu) : Prop where
  ground : Ground cfg g
  runs : g.aborted = false
  managed : ∀ p ∈ faultyPages g, Managed g p
  absent : ∀ p ∈ faultyPages g, is_valid g p = false
  fresh : ∀ p ∈ faultyPages g, g.req_info.contains p = false

/-- The pages that a call of `do_hardware_prefetch` enters into `temp_req_info`. -/
def chosenPages (g : Gpu) : List Nat := (chooseMigrations cfg g).2.temp_req_info

/-- One call of `do_hardware_prefetch` splits its work exactly. -/
structure SplitsExactly (g : Gpu) : Prop where
  runs : (do_hardware_prefetch cfg g).aborted = false
  faults : ∀ p ∈ faultyPages g, p ∈ chosenPages cfg g
  absent : ∀ p ∈ chosenPages cfg g, p ∈ faultyPages g ∨ is_valid g p = false
  split : ∃ runs, (do_hardware_prefetch cfg g).pcie_read_stage_queue =
      g.pcie_read_stage_queue ++ runs.flatMap (runEntries cfg (faultyPages g)) ∧
    RunsOf (faultyPages g) runs.flatten runs ∧ runs.flatten.Nodup ∧
      ∀ p, p ∈ runs.flatten ↔ p ∈ chosenPages cfg g

/-- The address that `RANDOM` draws for a fault, the `i`-th of its turn. -/
def drawnAddr (g : Gpu) (i p : Nat) : Nat :=
  (Forest.get_lp_node g.large_page_info (cfg.get_mem_addr p)).elim 0
    (random_addr cfg { g with rand_calls := g.rand_calls + i })

/-- `RANDOM` draws from trees of a page at least, and never the page of a later fault. -/
structure DrawsApart (g : Gpu) : Prop where
  sizes : ∀ p ∈ faultyPages g,
    Forest.rootSize g.large_page_info (cfg.get_mem_addr p) / cfg.page_size ≠ 0
  later : ∀ before p behind, faultyPages g = before ++ p :: behind →
    cfg.get_page_num (drawnAddr cfg g before.length p) ∉ behind

variable {cfg}

/-! ## Fault by fault -/

/-- A state between two faults, or two trees, of a turn. -/
structure TurnAt (g k : Gpu) : Prop where
  ground : SameGround g k
  runs : k.aborted = false
  pages : k.m_data = g.m_data
  requests : k.req_info = g.req_info
  faults : k.page_fault_this_turn = g.page_fault_this_turn
  prefetcher : k.prefetcher = g.prefetcher

namespace TurnAt

variable {g k : Gpu} (h : TurnAt g k)
include h

theorem is_valid (p : Nat) : is_valid k p = gpgpu_sim_uvm.is_valid g p := by
  unfold gpgpu_sim_uvm.is_valid
  rw [h.pages]

theorem updateBlock {a : Nat} (hcovers : Forest.covers g.large_page_info a) (n : Nat) (b : Bool) :
    TurnAt g (updateBlock k a n b) := by
  refine ⟨h.ground.trans (updateBlock_sameGround k a n b), ?_, h.pages, h.requests, h.faults,
    h.prefetcher⟩
  obtain ⟨t, ht⟩ := Forest.get_lp_node_of_covers ((h.ground.covers_iff a).mpr hcovers)
  simp [gpgpu_sim_uvm.updateBlock, h.runs, ht]

end TurnAt

theorem TurnReady.home {g : Gpu} (h : TurnReady cfg g) {p : Nat} (hp : p ∈ faultyPages g) :
    Forest.covers g.large_page_info (cfg.get_mem_addr p) :=
  h.ground.housed p (h.managed p hp)

theorem random_addr_congr {k l : Gpu} {t u : LpTree} (hcalls : k.rand_calls = l.rand_calls)
    (hshape : t.shape = u.shape) : random_addr cfg k t = random_addr cfg l u := by
  unfold random_addr
  rw [hcalls, LpTree.addr_of_shape hshape, LpTree.size_of_shape hshape]

/-- The tree that `RANDOM` draws from, and the address that it draws. -/
theorem TurnAt.draws {g k : Gpu} (h : TurnAt g k) {i p : Nat}
    (hcalls : k.rand_calls = g.rand_calls + i)
    (hhome : Forest.covers g.large_page_info (cfg.get_mem_addr p)) :
    ∃ t, Forest.get_lp_node k.large_page_info (cfg.get_mem_addr p) = some t ∧
      t.size = Forest.rootSize g.large_page_info (cfg.get_mem_addr p) ∧
      random_addr cfg k t = drawnAddr cfg g i p ∧ t ∈ k.large_page_info := by
  obtain ⟨t, ht⟩ := Forest.get_lp_node_of_covers ((h.ground.covers_iff _).mpr hhome)
  have hsize := Forest.rootSize_of_shapes h.ground.shapes (cfg.get_mem_addr p)
  have hdrawn : drawnAddr cfg g i p = (Forest.get_lp_node k.large_page_info (cfg.get_mem_addr p)).elim 0
      (random_addr cfg { g with rand_calls := g.rand_calls + i }) :=
    (Forest.elim_of_shapes h.ground.shapes _ _ fun _ _ hshape =>
      random_addr_congr rfl hshape).symm
  refine ⟨t, ht, ?_, ?_, Forest.mem_of_get_lp_node ht⟩
  · rw [← hsize, Forest.rootSize, ht]
    rfl
  · rw [hdrawn, ht, Option.elim_some]
    exact random_addr_congr hcalls rfl

/-- A drawn address is no page number. -/
theorem TurnReady.drawn_no_fault {g : Gpu} (h : TurnReady cfg g) {i p : Nat}
    (hhome : Forest.covers g.large_page_info (cfg.get_mem_addr p)) :
    drawnAddr cfg g i p ∉ faultyPages g := by
  intro hin
  obtain ⟨t, ht⟩ := Forest.get_lp_node_of_covers hhome
  obtain ⟨u, hu, hcovers⟩ := h.home hin
  have hlow := (h.ground.bounds t (Forest.mem_of_get_lp_node ht)).1
  have hhigh := (h.ground.bounds u hu).2
  have hlimit := h.ground.limit
  have haddr : t.addr ≤ drawnAddr cfg g i p := by
    rw [drawnAddr, ht]
    simp only [Option.elim_some, random_addr]
    exact Nat.le_add_right _ _
  have hpages : drawnAddr cfg g i p * 4096 ≤ cfg.get_mem_addr (drawnAddr cfg g i p) := by
    apply Nat.mul_le_mul_left
    exact Nat.le_of_dvd cfg.page_size_pos cfg.four_k_dvd
  rw [LpTree.covers_iff] at hcovers
  simp only [managedHeapStart, GLOBAL_HEAP_START, GLOBAL_MEM_SIZE_MAX] at hlow
  simp only [MEM_SPACE_LIMIT] at hlimit
  omega

/-- `RANDOM` takes the page that it draws if nothing has asked for it. -/
def takesDrawn (g : Gpu) (temp : List Nat) (q : Nat) : Bool :=
  !is_valid g q && !decide (q ∈ temp) && !g.req_info.contains q

/-- What `RANDOM` does at a fault. -/
theorem TurnAt.drawIfRandom {g k : Gpu} (h : TurnAt g k) (hready : TurnReady cfg g)
    (hrandom : g.prefetcher = .RANDOM) {i p : Nat} (hcalls : k.rand_calls = g.rand_calls + i)
    (hp : p ∈ faultyPages g) (temp : List Nat) :
    (Forest.rootSize g.large_page_info (cfg.get_mem_addr p) / cfg.page_size ≠ 0 →
      TurnAt g (drawIfRandom cfg k temp p).1) ∧
    (Forest.rootSize g.large_page_info (cfg.get_mem_addr p) / cfg.page_size = 0 →
      (drawIfRandom cfg k temp p).1.aborted = true) ∧
    (drawIfRandom cfg k temp p).1.rand_calls = g.rand_calls + (i + 1) ∧
    (drawIfRandom cfg k temp p).2 =
      if takesDrawn g temp (cfg.get_page_num (drawnAddr cfg g i p)) then
        [cfg.get_page_num (drawnAddr cfg g i p)] else [] := by
  obtain ⟨t, ht, hsize, haddr, hmem⟩ := h.draws hcalls (hready.home hp)
  have hnofault : k.page_fault_this_turn.contains (drawnAddr cfg g i p) = false := by
    rw [h.faults]
    have hnot := hready.drawn_no_fault (i := i) (hready.home hp)
    rwa [faultyPages, StdMap.mem_keys, Bool.not_eq_true] at hnot
  have htakes : takesRandomPage cfg k temp (drawnAddr cfg g i p) =
      takesDrawn g temp (cfg.get_page_num (drawnAddr cfg g i p)) := by
    simp only [takesRandomPage, takesDrawn, hnofault, h.is_valid, h.requests, Bool.not_false,
      Bool.and_true]
  have hdraw : gpgpu_sim_uvm.drawIfRandom cfg k temp p = drawRandom cfg k temp t := by
    simp only [gpgpu_sim_uvm.drawIfRandom, h.prefetcher, hrandom, ht]
  rw [hdraw, ← hsize]
  simp only [drawRandom, haddr, htakes]
  refine ⟨?_, ?_, ?_, ?_⟩
  · intro hpos
    have hmanaged : Managed g (cfg.get_page_num (drawnAddr cfg g i p)) := by
      rw [← haddr, ← h.ground.managed_iff]
      exact (hready.ground.same h.ground).random_page ht hpos k
    have hcall : TurnAt g (callRand cfg k t (cfg.get_page_num (drawnAddr cfg g i p))) := by
      refine ⟨h.ground.trans ⟨rfl, fun _ => rfl, rfl, rfl⟩, ?_, h.pages, h.requests, h.faults,
        h.prefetcher⟩
      have hmapped := mapped_of_managed ((h.ground.managed_iff _).mpr hmanaged)
      simp [callRand, h.runs, hpos, hmapped]
    split_ifs
    · have hlogged : ∀ e, TurnAt g ((callRand cfg k t (cfg.get_page_num (drawnAddr cfg g i p))).log e) :=
        fun e => ⟨hcall.ground.trans ⟨rfl, fun _ => rfl, rfl, rfl⟩, hcall.runs, hcall.pages,
          hcall.requests, hcall.faults, hcall.prefetcher⟩
      exact (hlogged _).updateBlock (hready.ground.housed _ hmanaged) _ _
    · exact hcall
  · intro hzero
    split_ifs <;> simp [callRand, gpgpu_sim_uvm.updateBlock, Gpu.log, hzero]
  · split_ifs <;> simp [callRand, gpgpu_sim_uvm.updateBlock, Gpu.log, hcalls, Nat.add_assoc]
  · split_ifs <;> rfl

theorem drawIfRandom_disabled {k : Gpu} (h : k.prefetcher ≠ .RANDOM) (temp : List Nat) (p : Nat) :
    drawIfRandom cfg k temp p = (k, []) := by
  unfold drawIfRandom
  split
  · rename_i hrandom _
    exact absurd hrandom h
  · rfl

/-- The state of a turn behind the faults `before`, with the faults `behind` to come. -/
structure OnesAt (g : Gpu) (before behind : List Nat) (s : Gpu × Turn) : Prop where
  state : TurnAt g s.1
  calls : g.prefetcher = .RANDOM → s.1.rand_calls = g.rand_calls + before.length
  transfers : TransfersOf (faultyPages g) s.2
  ends : s.2.transfers.flatMap Prod.snd = before
  ahead : ∀ p ∈ behind, p ∉ s.2.temp_req_info
  absent : ∀ p ∈ s.2.temp_req_info, p ∈ faultyPages g ∨ is_valid g p = false

theorem onesAt_start {g : Gpu} (hready : TurnReady cfg g) : OnesAt g [] (faultyPages g) (g, {}) := by
  refine ⟨⟨SameGround.refl g, hready.runs, rfl, rfl, rfl, rfl⟩, fun _ => rfl, transfersOf_start _,
    rfl, ?_, ?_⟩
  · exact fun p _ hp => nomatch hp
  · exact fun p hp => nomatch hp

variable (cfg) in
/-- The draw at a fault does no harm. -/
def DrawSafe (g : Gpu) (before : List Nat) (p : Nat) (behind : List Nat) : Prop :=
  g.prefetcher = .RANDOM →
    Forest.rootSize g.large_page_info (cfg.get_mem_addr p) / cfg.page_size ≠ 0 ∧
      cfg.get_page_num (drawnAddr cfg g before.length p) ∉ behind

/-- One fault under `DISBALED` or `RANDOM`. -/
theorem OnesAt.step {g : Gpu} (hready : TurnReady cfg g) {before behind : List Nat} {p : Nat}
    (hfaults : faultyPages g = before ++ p :: behind) {s : Gpu × Turn}
    (h : OnesAt g before (p :: behind) s) (hsafe : DrawSafe cfg g before p behind) :
    OnesAt g (before ++ [p]) behind (prefetchOne cfg s p) := by
  have hp : p ∈ faultyPages g := by
    rw [hfaults]
    exact List.mem_append_right _ List.mem_cons_self
  have hnodup : (before ++ p :: behind).Nodup := by
    rw [← hfaults]
    exact StdMap.keys_nodup _
  obtain ⟨-, htail, hdisjoint⟩ := List.nodup_append.mp hnodup
  let k := updateBlock s.1 (cfg.get_mem_addr p) cfg.page_size true
  have hk : TurnAt g k := h.state.updateBlock (hready.home hp) _ _
  let temp := addPage s.2.temp_req_info p
  -- what is drawn is a new page that does not fault later
  have hdraw : TurnAt g (drawIfRandom cfg k temp p).1 ∧
      (g.prefetcher = .RANDOM →
        (drawIfRandom cfg k temp p).1.rand_calls = g.rand_calls + (before ++ [p]).length) ∧
      ∃ qs, (drawIfRandom cfg k temp p).2 = qs ∧ qs.Nodup ∧
        ∀ q ∈ qs, q ∉ temp ∧ is_valid g q = false ∧ q ∉ behind := by
    by_cases hrandom : g.prefetcher = .RANDOM
    · obtain ⟨hpos, hlater⟩ := hsafe hrandom
      obtain ⟨hstate, -, hcalls, hdrawn⟩ := hk.drawIfRandom hready hrandom (h.calls hrandom) hp temp
      refine ⟨hstate hpos, fun _ => by rw [hcalls, List.length_append]; rfl, _, hdrawn, ?_, ?_⟩
      · split_ifs
        · exact List.nodup_singleton _
        · exact List.nodup_nil
      · intro q hq
        split_ifs at hq with htakes
        · rw [List.mem_singleton.mp hq]
          simp only [takesDrawn, Bool.and_eq_true, Bool.not_eq_true', decide_eq_false_iff_not]
            at htakes
          exact ⟨htakes.1.2, htakes.1.1, hlater⟩
        · cases hq
    · rw [drawIfRandom_disabled (by rw [hk.prefetcher]; exact hrandom)]
      exact ⟨hk, fun hyes => absurd hyes hrandom, [], rfl, List.nodup_nil, fun q hq => (nomatch hq)⟩
  obtain ⟨hstate, hcalls, qs, hqs, hqsnodup, hnew⟩ := hdraw
  have htemp : ∀ q, q ∈ qs.foldl addPage temp ↔ q ∈ s.2.temp_req_info ∨ q ∈ p :: qs := by
    intro q
    rw [mem_addPages, mem_addPage, List.mem_cons, or_assoc]
  have hpnew : p ∉ qs := fun hin => (hnew p hin).1 (mem_addPage.mpr (Or.inr rfl))
  have hstep : (prefetchOne cfg s p).2 =
      ⟨qs.foldl addPage temp, s.2.transfers ++ [(p :: qs, [p])]⟩ := by
    rw [← hqs]
    rfl
  refine ⟨hstate, hcalls, ?_, ?_, ?_, ?_⟩
  · rw [hstep]
    apply h.transfers.add (List.nodup_cons.mpr ⟨hpnew, hqsnodup⟩) _ htemp
    · exact List.cons_sublist_cons.mpr (List.nil_sublist qs)
    · intro q hq
      rw [List.mem_singleton]
      refine ⟨fun hfault => ?_, fun heq => by rw [heq]; exact hp⟩
      rcases List.mem_cons.mp hq with heq | hq
      · exact heq
      · -- a drawn page faults neither earlier nor later
        obtain ⟨hfresh, -, hlater⟩ := hnew q hq
        rw [hfaults] at hfault
        rcases List.mem_append.mp hfault with hfault | hfault
        · have hdone : q ∈ s.2.temp_req_info := by
            rw [← h.transfers.listed]
            rw [← h.ends] at hfault
            obtain ⟨t, ht, hqt⟩ := List.mem_flatMap.mp hfault
            exact List.mem_flatMap.mpr ⟨t, ht, (h.transfers.faulty t ht).1.subset hqt⟩
          exact absurd (mem_addPage.mpr (Or.inl hdone)) hfresh
        · rcases List.mem_cons.mp hfault with heq | hfault
          · exact heq
          · exact absurd hfault hlater
    · intro q hq
      rcases List.mem_cons.mp hq with rfl | hq
      · exact h.ahead q List.mem_cons_self
      · exact fun hin => (hnew q hq).1 (mem_addPage.mpr (Or.inl hin))
  · rw [hstep, List.flatMap_append, h.ends]
    rfl
  · rw [hstep]
    intro q hq hin
    rcases (htemp q).mp hin with hin | hin
    · exact h.ahead q (List.mem_cons_of_mem _ hq) hin
    · rcases List.mem_cons.mp hin with rfl | hin
      · exact (List.nodup_cons.mp htail).1 hq
      · exact (hnew q hin).2.2 hq
  · rw [hstep]
    intro q hq
    rcases (htemp q).mp hq with hq | hq
    · exact h.absent q hq
    · rcases List.mem_cons.mp hq with rfl | hq
      · exact Or.inl hp
      · exact Or.inr (hnew q hq).2.1

/-- The faults of a turn, from some fault on. -/
theorem OnesAt.run {g : Gpu} (hready : TurnReady cfg g) {before behind : List Nat}
    (hfaults : faultyPages g = before ++ behind) {s : Gpu × Turn} (h : OnesAt g before behind s)
    (hsafe : ∀ mid p rest, behind = mid ++ p :: rest → DrawSafe cfg g (before ++ mid) p rest) :
    OnesAt g (faultyPages g) [] (behind.foldl (prefetchOne cfg) s) := by
  induction behind generalizing before s with
  | nil =>
    rw [List.append_nil] at hfaults
    rwa [hfaults]
  | cons p behind ih =>
    have hfirst : DrawSafe cfg g before p behind := by
      have hnone := hsafe [] p behind rfl
      rwa [List.append_nil] at hnone
    have hrest : faultyPages g = before ++ [p] ++ behind := by
      rw [hfaults, List.append_assoc]
      rfl
    apply ih hrest (h.step hready hfaults hfirst)
    intro mid q rest heq
    rw [List.append_assoc]
    apply hsafe (p :: mid) q rest
    rw [heq]
    rfl

theorem planned_prefetchOne (s : Gpu × Turn) (p : Nat) :
    planned (prefetchOne cfg s p).2 = planned s.2 ++
      p :: (drawIfRandom cfg (updateBlock s.1 (cfg.get_mem_addr p) cfg.page_size true)
        (addPage s.2.temp_req_info p) p).2 := by
  simp only [prefetchOne]
  exact planned_append _ _ _

/-- A turn that cannot end well: an undefined step was taken, a page is planned twice, or a
page is planned that is still to fault. -/
def Spoiled (behind : List Nat) (s : Gpu × Turn) : Prop :=
  s.1.aborted = true ∨ ¬ (planned s.2).Nodup ∨ ∃ q ∈ planned s.2, q ∈ behind

theorem Spoiled.step {behind : List Nat} {s : Gpu × Turn} {p : Nat} (h : Spoiled (p :: behind) s) :
    Spoiled behind (prefetchOne cfg s p) := by
  unfold Spoiled
  rw [planned_prefetchOne]
  rcases h with habort | hdouble | ⟨q, hq, hbehind⟩
  · left
    by_contra hruns
    rw [Bool.not_eq_true] at hruns
    rw [(prefetchOne_grows cfg s p).aborted hruns] at habort
    cases habort
  · exact Or.inr (Or.inl fun hnodup => hdouble (List.nodup_append.mp hnodup).1)
  · right
    rcases List.mem_cons.mp hbehind with rfl | hbehind
    · -- the planned page faults and is planned again
      exact Or.inl fun hnodup => (List.nodup_append.mp hnodup).2.2 q hq q List.mem_cons_self rfl
    · exact Or.inr ⟨q, List.mem_append_left _ hq, hbehind⟩

theorem Spoiled.run {behind : List Nat} {s : Gpu × Turn} (h : Spoiled behind s) :
    Spoiled [] (behind.foldl (prefetchOne cfg) s) := by
  induction behind generalizing s with
  | nil => exact h
  | cons p behind ih => exact ih h.step

/-- A harmful draw spoils the turn. -/
theorem OnesAt.harm {g : Gpu} (hready : TurnReady cfg g) {before behind : List Nat} {p : Nat}
    (hfaults : faultyPages g = before ++ p :: behind) {s : Gpu × Turn}
    (h : OnesAt g before (p :: behind) s) (hharm : ¬ DrawSafe cfg g before p behind) :
    Spoiled behind (prefetchOne cfg s p) := by
  obtain ⟨hrandom, hwrong⟩ := Classical.not_imp.mp hharm
  have hp : p ∈ faultyPages g := by
    rw [hfaults]
    exact List.mem_append_right _ List.mem_cons_self
  have hk := h.state.updateBlock (hready.home hp) cfg.page_size true
  obtain ⟨-, hzero, -, hdrawn⟩ := hk.drawIfRandom hready hrandom (h.calls hrandom) hp
    (addPage s.2.temp_req_info p)
  by_cases hsize : Forest.rootSize g.large_page_info (cfg.get_mem_addr p) / cfg.page_size = 0
  · exact Or.inl (hzero hsize)
  · -- the drawn page faults later
    obtain ⟨q, hqdef⟩ : ∃ q, cfg.get_page_num (drawnAddr cfg g before.length p) = q := ⟨_, rfl⟩
    rw [hqdef] at hwrong hdrawn
    have hlater : q ∈ behind := by
      by_contra hnot
      exact hwrong ⟨hsize, hnot⟩
    have hq : q ∈ faultyPages g := by
      rw [hfaults]
      exact List.mem_append_right _ (List.mem_cons_of_mem _ hlater)
    have hnodup : (before ++ p :: behind).Nodup := by
      rw [← hfaults]
      exact StdMap.keys_nodup _
    have hne : q ≠ p := by
      rintro rfl
      exact (List.nodup_cons.mp (List.nodup_append.mp hnodup).2.1).1 hlater
    have htemp : q ∉ addPage s.2.temp_req_info p := by
      rw [mem_addPage, not_or]
      exact ⟨h.ahead q (List.mem_cons_of_mem _ hlater), hne⟩
    have htakes : takesDrawn g (addPage s.2.temp_req_info p) q = true := by
      simp [takesDrawn, hready.absent q hq, hready.fresh q hq, htemp]
    refine Or.inr (Or.inr ⟨q, ?_, hlater⟩)
    rw [planned_prefetchOne, hdrawn, if_pos htakes]
    exact List.mem_append_right _ (List.mem_cons_of_mem _ (List.mem_singleton_self q))

/-- A turn with a harmful draw is spoiled in the end. -/
theorem OnesAt.spoiled {g : Gpu} (hready : TurnReady cfg g) {before behind : List Nat}
    (hfaults : faultyPages g = before ++ behind) {s : Gpu × Turn} (h : OnesAt g before behind s)
    {mid rest : List Nat} {p : Nat} (hbehind : behind = mid ++ p :: rest)
    (hharm : ¬ DrawSafe cfg g (before ++ mid) p rest) :
    Spoiled [] (behind.foldl (prefetchOne cfg) s) := by
  induction mid generalizing before behind s with
  | nil =>
    rw [List.append_nil] at hharm
    subst hbehind
    exact (h.harm hready hfaults hharm).run
  | cons q mid ih =>
    subst hbehind
    by_cases hsafe : DrawSafe cfg g before q (mid ++ p :: rest)
    · have hrest : faultyPages g = before ++ [q] ++ (mid ++ p :: rest) := by
        rw [hfaults, List.append_assoc]
        rfl
      apply ih hrest (h.step hready hfaults hsafe) rfl
      rwa [List.append_assoc]
    · exact (h.harm hready hfaults hsafe).run

/-! ## Tree by tree -/

/-- The faults of the tree at `k`, in their order. -/
def faultsOf (cfg : Config) (g : Gpu) (k : Nat) : List Nat :=
  (faultyPages g).filter fun p =>
    decide (Forest.rootAddr g.large_page_info (cfg.get_mem_addr p) = k)

theorem mem_faultsOf {g : Gpu} {k p : Nat} : p ∈ faultsOf cfg g k ↔
    p ∈ faultyPages g ∧ Forest.rootAddr g.large_page_info (cfg.get_mem_addr p) = k := by
  rw [faultsOf, List.mem_filter, decide_eq_true_eq]

theorem findD_lp_pf_groups (g : Gpu) (k : Nat) :
    (lp_pf_groups cfg g).findD k [] = (faultsOf cfg g k).map cfg.get_mem_addr := by
  unfold lp_pf_groups faultsOf faultyPages
  rw [StdMap.findD_grouped]
  rfl

theorem contains_lp_pf_groups (g : Gpu) (k : Nat) : (lp_pf_groups cfg g).contains k = true ↔
    ∃ p ∈ faultyPages g, Forest.rootAddr g.large_page_info (cfg.get_mem_addr p) = k := by
  unfold lp_pf_groups faultyPages
  rw [StdMap.contains_grouped]
  simp [StdMap.contains]

/-- A block of the tree at `k`. -/
structure BlockOf (g : Gpu) (k b : Nat) : Prop where
  aligned : MIN_PREFETCH_SIZE ∣ b
  home : ∀ x, b ≤ x → x < b + MIN_PREFETCH_SIZE →
    Forest.covers g.large_page_info x ∧ Forest.rootAddr g.large_page_info x = k

theorem BlockOf.covered {g : Gpu} {k b : Nat} (h : BlockOf g k b) : BlockCovered g b :=
  fun x hx => (h.home x hx.1 hx.2).1

theorem Ground.blockOf_leaf {g : Gpu} (h : Ground cfg g) {t : LpTree} (ht : t ∈ g.large_page_info)
    {b : Nat} (hb : b ∈ t.leaves.map LpData.addr) : BlockOf g t.addr b := by
  obtain ⟨htiled, haligned, -⟩ := h.trees t ht
  refine ⟨?_, ?_⟩
  · obtain ⟨n, -, hleaves⟩ := htiled.leaves_addr
    rw [hleaves] at hb
    obtain ⟨i, -, rfl⟩ := List.mem_map.mp hb
    exact (Nat.dvd_add_iff_right haligned).mp (Dvd.intro_left i rfl)
  · intro x hlow hhigh
    obtain ⟨d, hd, rfl⟩ := List.mem_map.mp hb
    obtain ⟨hfirst, hlast⟩ := htiled.leaf_within hd
    have hcovers : t.covers x = true := by
      rw [LpTree.covers_iff]
      omega
    refine ⟨⟨t, ht, hcovers⟩, ?_⟩
    rw [Forest.rootAddr, h.laid.get_lp_node ht hcovers]
    rfl

/-- Trees stand in the order of their addresses. -/
theorem Ground.lt_of_rootAddr {g : Gpu} (h : Ground cfg g) {x y : Nat}
    (hx : Forest.covers g.large_page_info x) (hy : Forest.covers g.large_page_info y)
    (hroots : Forest.rootAddr g.large_page_info x < Forest.rootAddr g.large_page_info y) :
    x < y := by
  obtain ⟨t, ht, htx⟩ := hx
  obtain ⟨u, hu, huy⟩ := hy
  have hpos := (h.trees u hu).1.size_pos
  rw [Forest.rootAddr, Forest.rootAddr, h.laid.get_lp_node ht htx, h.laid.get_lp_node hu huy,
    Option.elim_some, Option.elim_some] at hroots
  rw [LpTree.covers_iff] at htx huy
  by_contra hle
  -- else the first tree has the start of the second
  have hstart : t.covers u.addr = true := by
    rw [LpTree.covers_iff]
    omega
  have hself : u.covers u.addr = true := by
    rw [LpTree.covers_iff]
    omega
  have hsame := (h.laid.get_lp_node ht hstart).symm.trans (h.laid.get_lp_node hu hself)
  rw [Option.some.inj hsame] at hroots
  exact absurd hroots (lt_irrefl _)

/-- A state among the faults of the tree at `k`, and the blocks of the tree so far. -/
structure GroupAt (g : Gpu) (k : Nat) (s : Gpu × BlockSet) : Prop where
  state : TurnAt g s.1
  blocks : ∀ b, s.2.contains b = true → BlockOf g k b

/-- One of the blocks has the address. -/
def InBlocks (bs : BlockSet) (a : Nat) : Prop :=
  ∃ b, bs.contains b = true ∧ b ≤ a ∧ a < b + MIN_PREFETCH_SIZE

theorem InBlocks.mono {bs cs : BlockSet} {a : Nat} (h : InBlocks bs a)
    (hcs : ∀ b, bs.contains b = true → cs.contains b = true) : InBlocks cs a := by
  obtain ⟨b, hb, hwithin⟩ := h
  exact ⟨b, hcs b hb, hwithin⟩

theorem GroupAt.fault {g : Gpu} (hg : Ground cfg g) {k : Nat} {s : Gpu × BlockSet}
    (h : GroupAt g k s) {a : Nat} (hhome : Forest.covers g.large_page_info a)
    (hroot : Forest.rootAddr g.large_page_info a = k) :
    GroupAt g k (scheduleFault s a) ∧ InBlocks (scheduleFault s a).2 a := by
  obtain ⟨t, ht⟩ := Forest.get_lp_node_of_covers hhome
  obtain ⟨hmem, htiled, hcovers⟩ := hg.tree_of_covers ht
  have hblock : Forest.get_basic_block s.1.large_page_info a = (t.basicBlock a).addr := by
    rw [Forest.get_basic_block_of_shapes h.state.ground.shapes, Forest.get_basic_block, ht]
    rfl
  have htk : t.addr = k := by
    rw [← hroot, Forest.rootAddr, ht]
    rfl
  have hof : BlockOf g k (t.basicBlock a).addr := by
    rw [← htk]
    exact hg.blockOf_leaf hmem (List.mem_map_of_mem (LpTree.basicBlock_mem_leaves t a))
  obtain ⟨-, -, hlow, hhigh⟩ := htiled.block_bounds hcovers
  refine ⟨⟨h.state.updateBlock hhome _ _, ?_⟩, (t.basicBlock a).addr, ?_, hlow, hhigh⟩
  · intro b hb
    simp only [scheduleFault, hblock] at hb
    exact leaf_added hof h.blocks hb
  · simp [scheduleFault, hblock, StdMap.contains_alter]

theorem GroupAt.faults {g : Gpu} (hg : Ground cfg g) {k : Nat} {faults : List Nat}
    (hfaults : ∀ a ∈ faults, Forest.covers g.large_page_info a ∧
      Forest.rootAddr g.large_page_info a = k) {s : Gpu × BlockSet} (h : GroupAt g k s) :
    GroupAt g k (faults.foldl scheduleFault s) ∧
      ∀ a, InBlocks s.2 a ∨ a ∈ faults → InBlocks (faults.foldl scheduleFault s).2 a := by
  induction faults generalizing s with
  | nil =>
    refine ⟨h, fun a ha => ?_⟩
    rcases ha with ha | ha
    · exact ha
    · cases ha
  | cons f faults ih =>
    obtain ⟨hcovers, hroot⟩ := hfaults f List.mem_cons_self
    obtain ⟨hfirst, hin⟩ := h.fault hg hcovers hroot
    obtain ⟨hlast, hall⟩ := ih (fun a ha => hfaults a (List.mem_cons_of_mem _ ha)) hfirst
    refine ⟨hlast, fun a ha => hall a ?_⟩
    rcases ha with ha | ha
    · refine Or.inl (ha.mono fun b hb => ?_)
      simp [scheduleFault, StdMap.contains_alter, hb]
    · rcases List.mem_cons.mp ha with rfl | ha
      · exact Or.inl hin
      · exact Or.inr ha

/-- A traversal of the tree takes no block out of the set. -/
theorem contains_fill_lp_tree (t : LpTree) (bs : BlockSet) {b : Nat} (hb : bs.contains b = true) :
    (t.fill_lp_tree bs).2.contains b = true := by
  induction t generalizing bs with
  | leaf d =>
    rw [LpTree.fill_lp_tree]
    split_ifs
    · simp [StdMap.contains_alter, hb]
    · exact hb
  | node d l r ihl ihr => exact ihr _ (ihl bs hb)

theorem contains_traverse_and_fill_lp_tree (t : LpTree) (bs : BlockSet) {b : Nat}
    (hb : bs.contains b = true) : (t.traverse_and_fill_lp_tree bs).2.contains b = true := by
  induction t generalizing bs with
  | leaf d => exact hb
  | node d l r ihl ihr =>
    have hchildren := ihr _ (ihl bs hb)
    simp only [LpTree.traverse_and_fill_lp_tree]
    split_ifs
    · exact contains_fill_lp_tree _ _ hchildren
    · exact hchildren

theorem GroupAt.fill {g : Gpu} (hg : Ground cfg g) {k : Nat} {s : Gpu × BlockSet}
    (h : GroupAt g k s) (hroot : ∃ t ∈ g.large_page_info, t.addr = k) :
    GroupAt g k (fillTree s.1 k s.2) ∧
      ∀ b, s.2.contains b = true → (fillTree s.1 k s.2).2.contains b = true := by
  obtain ⟨t, ht, rfl⟩ := hroot
  have hpos := (hg.trees t ht).1.size_pos
  have hself : t.covers t.addr = true := by
    rw [LpTree.covers_iff]
    omega
  have hnode := hg.laid.get_lp_node ht hself
  -- the tree as it is now
  have hnow := Forest.find_of_shapes h.state.ground.shapes t.addr
  rw [hnode, Option.map_some] at hnow
  obtain ⟨u, hu, hshape⟩ := Option.map_eq_some_iff.mp hnow
  have hstate : TurnAt g (fillTree s.1 t.addr s.2).1 := by
    refine ⟨h.state.ground.trans ⟨?_, fun _ => rfl, rfl, rfl⟩, h.state.runs, h.state.pages,
      h.state.requests, h.state.faults, h.state.prefetcher⟩
    simp only [fillTree]
    split_ifs
    · exact Forest.shapes_modifyTree (fun v => LpTree.shape_traverse_and_fill_lp_tree v _) _ _
    · rfl
  refine ⟨⟨hstate, ?_⟩, ?_⟩
  · intro b hb
    simp only [fillTree, hu, Option.elim_some] at hb
    split_ifs at hb
    · apply addsLeaves_traverse_and_fill u _ _ _ h.blocks b hb
      intro c hc
      rw [LpTree.leaves_of_shape hshape] at hc
      exact hg.blockOf_leaf ht hc
    · exact h.blocks b hb
  · intro b hb
    simp only [fillTree, hu, Option.elim_some]
    split_ifs
    · exact contains_traverse_and_fill_lp_tree u _ hb
    · exact hb

theorem turnAt_collectBlock {g : Gpu} (hg : Ground cfg g) {s : Gpu × List Nat × List Nat}
    (h : TurnAt g s.1) {k b : Nat} (hb : BlockOf g k b) : TurnAt g (collectBlock cfg s b).1 := by
  refine ⟨h.ground.trans ⟨rfl, fun _ => rfl, rfl, rfl⟩, ?_, h.pages, h.requests, h.faults,
    h.prefetcher⟩
  have hmapped : rangeMapped cfg s.1 b MIN_PREFETCH_SIZE = true := by
    rw [rangeMapped, List.all_eq_true]
    intro p hp
    exact mapped_of_managed ((h.ground.managed_iff p).mpr (hg.block_pages hb.covered hp))
  simp [collectBlock, h.runs, hmapped]

/-- The pages of a block lie behind those of an earlier one. -/
theorem pages_of_later_block {b c p q : Nat} (hb : MIN_PREFETCH_SIZE ∣ b) (hc : MIN_PREFETCH_SIZE ∣ c)
    (hlt : b < c) (hp : p ∈ pagesOfRange cfg b MIN_PREFETCH_SIZE)
    (hq : q ∈ pagesOfRange cfg c MIN_PREFETCH_SIZE) : p ≤ q := by
  have hpos : 0 < MIN_PREFETCH_SIZE := by decide
  obtain ⟨x, -, hx, rfl⟩ := address_of_pagesOfRange hpos hp
  obtain ⟨y, hy, -, rfl⟩ := address_of_pagesOfRange hpos hq
  apply Nat.div_le_div_right
  obtain ⟨i, rfl⟩ := hb
  obtain ⟨j, rfl⟩ := hc
  have hij : i < j := lt_of_mul_lt_mul_left hlt (Nat.zero_le _)
  have hnext := Nat.mul_le_mul_left MIN_PREFETCH_SIZE (Nat.succ_le_of_lt hij)
  rw [Nat.mul_succ] at hnext
  omega

/-- What is collected from the blocks of a tree: their invalid pages that are new to the
turn, in ascending order. -/
theorem turnAt_collectBlocks {g : Gpu} (hg : Ground cfg g) {k : Nat} {bbs : List Nat}
    (hbbs : ∀ b ∈ bbs, BlockOf g k b) (hsorted : bbs.Pairwise (· < ·))
    {s : Gpu × List Nat × List Nat} (h : TurnAt g s.1) :
    TurnAt g (bbs.foldl (collectBlock cfg) s).1 ∧
      ∃ new, (bbs.foldl (collectBlock cfg) s).2 = (s.2.1 ++ new, s.2.2 ++ new) ∧
        new.Pairwise (· < ·) ∧ ∀ q, q ∈ new ↔ q ∉ s.2.1 ∧ is_valid g q = false ∧
          ∃ b ∈ bbs, q ∈ pagesOfRange cfg b MIN_PREFETCH_SIZE := by
  induction bbs generalizing s with
  | nil => exact ⟨h, [], by simp, List.Pairwise.nil, by simp⟩
  | cons b bbs ih =>
    obtain ⟨hbehind, htail⟩ := List.pairwise_cons.mp hsorted
    have hrest : ∀ c ∈ bbs, BlockOf g k c := fun c hc => hbbs c (List.mem_cons_of_mem _ hc)
    have hb := hbbs b List.mem_cons_self
    obtain ⟨hstate, new, hnew, hasc, hmem⟩ := ih hrest htail (turnAt_collectBlock hg h hb)
    let fresh := (get_faulty_pages cfg s.1 b MIN_PREFETCH_SIZE).filter fun p => decide (p ∉ s.2.1)
    have hfresh : ∀ q, q ∈ fresh ↔ q ∉ s.2.1 ∧ is_valid g q = false ∧
        q ∈ pagesOfRange cfg b MIN_PREFETCH_SIZE := by
      intro q
      simp only [fresh, get_faulty_pages, List.mem_filter, h.is_valid, decide_eq_true_eq,
        Bool.not_eq_true']
      tauto
    have hcollected : (collectBlock cfg s b).2 = (s.2.1 ++ fresh, s.2.2 ++ fresh) := rfl
    rw [hcollected] at hnew hmem
    refine ⟨hstate, fresh ++ new, ?_, ?_, ?_⟩
    · rw [List.foldl_cons, hnew, List.append_assoc, List.append_assoc]
    · refine List.pairwise_append.mpr ⟨?_, hasc, ?_⟩
      · have hrange : (pagesOfRange cfg b MIN_PREFETCH_SIZE).Pairwise (· < ·) :=
          List.pairwise_lt_range'
        exact (hrange.filter _).filter _
      · intro p hp q hq
        obtain ⟨hqnew, -, c, hc, hqc⟩ := (hmem q).mp hq
        have hle := pages_of_later_block hb.aligned (hrest c hc).aligned (hbehind c hc)
          ((hfresh p).mp hp).2.2 hqc
        have hne : p ≠ q := by
          rintro rfl
          exact hqnew (List.mem_append_right _ hp)
        omega
    · intro q
      rw [List.mem_append, hfresh, hmem, List.exists_mem_cons_iff, List.mem_append, not_or, hfresh]
      tauto

/-- A turn behind the trees at `done`. -/
structure GroupsAt (cfg : Config) (g : Gpu) (done : List Nat) (s : Gpu × Turn) : Prop where
  state : TurnAt g s.1
  transfers : TransfersOf (faultyPages g) s.2
  ends : ∀ k ∈ done, ∀ p ∈ faultsOf cfg g k, p ∈ s.2.transfers.flatMap Prod.snd
  ahead : ∀ p ∈ s.2.temp_req_info, p ∈ faultyPages g →
    Forest.rootAddr g.large_page_info (cfg.get_mem_addr p) ∈ done
  absent : ∀ p ∈ s.2.temp_req_info, p ∈ faultyPages g ∨ is_valid g p = false

theorem groupsAt_start {g : Gpu} (hready : TurnReady cfg g) : GroupsAt cfg g [] (g, {}) := by
  refine ⟨⟨SameGround.refl g, hready.runs, rfl, rfl, rfl, rfl⟩, transfersOf_start _, ?_, ?_, ?_⟩
  · exact fun k hk => nomatch hk
  · exact fun p hp => nomatch hp
  · exact fun p hp => nomatch hp

theorem StdMap.pairwise_keys {V : Type} (m : StdMap Nat V) : m.keys.Pairwise (· < ·) :=
  List.pairwise_map.mpr m.sorted

theorem mem_pagesOfRange_of_block {b a : Nat} (hlow : b ≤ a) (hhigh : a < b + MIN_PREFETCH_SIZE) :
    cfg.get_page_num a ∈ pagesOfRange cfg b MIN_PREFETCH_SIZE :=
  page_mem_pagesOfRange (a := ⟨b, MIN_PREFETCH_SIZE, true⟩) ⟨hlow, hhigh⟩

/-- Among the pages of the blocks of a tree, the faults of later trees are not found. -/
theorem BlockOf.root_le {g : Gpu} (hready : TurnReady cfg g) {k b p : Nat} (hb : BlockOf g k b)
    (hp : p ∈ pagesOfRange cfg b MIN_PREFETCH_SIZE) (hfault : p ∈ faultyPages g) :
    Forest.rootAddr g.large_page_info (cfg.get_mem_addr p) ≤ k := by
  have hpos : 0 < MIN_PREFETCH_SIZE := by decide
  obtain ⟨x, hlow, hhigh, rfl⟩ := address_of_pagesOfRange hpos hp
  obtain ⟨hhome, hroot⟩ := hb.home x hlow hhigh
  by_contra hlater
  rw [← hroot, Nat.not_le] at hlater
  have hlt := hready.ground.lt_of_rootAddr hhome (hready.home hfault) hlater
  have hle := cfg.get_mem_addr_le x
  omega

/-- The faults of one tree. -/
theorem GroupsAt.step {g : Gpu} (hready : TurnReady cfg g) {done rest : List Nat} {k : Nat}
    (hkeys : (lp_pf_groups cfg g).keys = done ++ k :: rest) {s : Gpu × Turn}
    (h : GroupsAt cfg g done s) :
    GroupsAt cfg g (done ++ [k])
      (prefetchGroup cfg s (k, (faultsOf cfg g k).map cfg.get_mem_addr)) := by
  have hg := hready.ground
  -- the blocks of the tree
  have hfaults : ∀ a ∈ (faultsOf cfg g k).map cfg.get_mem_addr,
      Forest.covers g.large_page_info a ∧ Forest.rootAddr g.large_page_info a = k := by
    intro a ha
    obtain ⟨p, hp, rfl⟩ := List.mem_map.mp ha
    exact ⟨hready.home (mem_faultsOf.mp hp).1, (mem_faultsOf.mp hp).2⟩
  have hempty : GroupAt g k (s.1, (.empty : BlockSet)) := ⟨h.state, fun b hb => nomatch hb⟩
  obtain ⟨hscheduled, hin⟩ := hempty.faults hg hfaults
  have hroot : ∃ t ∈ g.large_page_info, t.addr = k := by
    have hkey : k ∈ (lp_pf_groups cfg g).keys := by
      rw [hkeys]
      exact List.mem_append_right _ List.mem_cons_self
    rw [StdMap.mem_keys, contains_lp_pf_groups] at hkey
    obtain ⟨p, hp, hroot⟩ := hkey
    obtain ⟨t, ht, hcovers⟩ := hready.home hp
    rw [Forest.rootAddr, hg.laid.get_lp_node ht hcovers] at hroot
    exact ⟨t, ht, hroot⟩
  obtain ⟨hfilled, hkept⟩ := hscheduled.fill hg hroot
  -- the pages that are collected
  obtain ⟨hstate, new, hnew, hasc, hmem⟩ := turnAt_collectBlocks hg
    (fun b hb => hfilled.blocks b ((StdMap.mem_keys _ b).mp hb)) (StdMap.pairwise_keys _)
    (s := ((fillTree (scheduleFaults s.1 ((faultsOf cfg g k).map cfg.get_mem_addr)).1 k
      (scheduleFaults s.1 ((faultsOf cfg g k).map cfg.get_mem_addr)).2).1,
        s.2.temp_req_info, [])) hfilled.state
  have hstep : (prefetchGroup cfg s (k, (faultsOf cfg g k).map cfg.get_mem_addr)).2 =
      ⟨s.2.temp_req_info ++ new, s.2.transfers ++ [(new, faultsOf cfg g k)]⟩ := by
    have hpages : ((faultsOf cfg g k).map cfg.get_mem_addr).map cfg.get_page_num =
        faultsOf cfg g k := by
      rw [List.map_map]
      exact (List.map_congr_left fun p _ => cfg.get_page_num_get_mem_addr p).trans (List.map_id _)
    have hcollected := congrArg Prod.snd hnew
    have htemp := congrArg Prod.fst hnew
    rw [List.nil_append] at hcollected
    simp only [prefetchGroup, hpages]
    exact congrArg₂ (fun a b => Turn.mk a (s.2.transfers ++ [(b, faultsOf cfg g k)])) htemp hcollected
  have hsorted := StdMap.pairwise_keys (lp_pf_groups cfg g)
  rw [hkeys] at hsorted
  obtain ⟨-, hbehind, hbefore⟩ := List.pairwise_append.mp hsorted
  have hnotdone : k ∉ done := fun hin => absurd (hbefore k hin k List.mem_cons_self) (lt_irrefl k)
  -- a fault among them is one of this tree
  have hroots : ∀ p ∈ new, p ∈ faultyPages g →
      Forest.rootAddr g.large_page_info (cfg.get_mem_addr p) = k := by
    intro p hp hfault
    obtain ⟨hpnew, -, b, hb, hpb⟩ := (hmem p).mp hp
    have hle := (hfilled.blocks b ((StdMap.mem_keys _ b).mp hb)).root_le hready hpb hfault
    have hkey : Forest.rootAddr g.large_page_info (cfg.get_mem_addr p) ∈
        (lp_pf_groups cfg g).keys := by
      rw [StdMap.mem_keys, contains_lp_pf_groups]
      exact ⟨p, hfault, rfl⟩
    rw [hkeys] at hkey
    rcases List.mem_append.mp hkey with hdone | hkey
    · obtain ⟨q, hq, hsame⟩ := List.mem_flatMap.mp
        (h.ends _ hdone p (mem_faultsOf.mpr ⟨hfault, rfl⟩))
      have hplanned := List.mem_flatMap.mpr ⟨q, hq, (h.transfers.faulty q hq).1.subset hsame⟩
      exact absurd ((h.transfers.listed p).mp hplanned) hpnew
    · rcases List.mem_cons.mp hkey with heq | hlater
      · exact heq
      · have hlt := (List.pairwise_cons.mp hbehind).1 _ hlater
        omega
  have hfound : ∀ p ∈ faultsOf cfg g k, p ∈ new := by
    intro p hp
    obtain ⟨hfault, hroot⟩ := mem_faultsOf.mp hp
    obtain ⟨b, hb, hlow, hhigh⟩ :=
      (hin _ (Or.inr (List.mem_map_of_mem hp))).mono hkept
    refine (hmem p).mpr ⟨fun htemp => ?_, hready.absent p hfault, b, ?_, ?_⟩
    · have hdone := h.ahead p htemp hfault
      rw [hroot] at hdone
      exact hnotdone hdone
    · exact (StdMap.mem_keys _ b).mpr hb
    · rw [← cfg.get_page_num_get_mem_addr p]
      exact mem_pagesOfRange_of_block hlow hhigh
  refine ⟨hstate, ?_, ?_, ?_, ?_⟩
  · rw [hstep]
    apply h.transfers.add hasc.nodup
    · exact fun p hp => ((hmem p).mp hp).1
    · exact fun p => List.mem_append
    · have hfs : (faultsOf cfg g k).Pairwise (· < ·) :=
        (StdMap.pairwise_keys g.page_fault_this_turn).filter _
      exact List.sublist_of_subperm_of_pairwise (List.subperm_of_subset hfs.nodup hfound) hfs hasc
    · intro p hp
      rw [mem_faultsOf]
      exact ⟨fun hfault => ⟨hfault, hroots p hp hfault⟩, fun hof => hof.1⟩
  · rw [hstep]
    intro j hj p hp
    rw [List.flatMap_append]
    rcases List.mem_append.mp hj with hj | hj
    · exact List.mem_append_left _ (h.ends j hj p hp)
    · rw [List.mem_singleton.mp hj] at hp
      apply List.mem_append_right
      simpa using hp
  · rw [hstep]
    intro p hp hfault
    rcases List.mem_append.mp hp with hp | hp
    · exact List.mem_append_left _ (h.ahead p hp hfault)
    · rw [hroots p hp hfault]
      exact List.mem_append_right _ (List.mem_singleton_self k)
  · rw [hstep]
    intro p hp
    rcases List.mem_append.mp hp with hp | hp
    · exact h.absent p hp
    · exact Or.inr ((hmem p).mp hp).2.1

/-- The trees of a turn, from some tree on. -/
theorem GroupsAt.run {g : Gpu} (hready : TurnReady cfg g) {before behind : List (Nat × List Nat)}
    (hentries : (lp_pf_groups cfg g).entries = before ++ behind) {s : Gpu × Turn}
    (h : GroupsAt cfg g (before.map Prod.fst) s) :
    GroupsAt cfg g (lp_pf_groups cfg g).keys (behind.foldl (prefetchGroup cfg) s) := by
  induction behind generalizing before s with
  | nil =>
    rw [List.append_nil] at hentries
    rwa [StdMap.keys, hentries]
  | cons e behind ih =>
    have hkeys : (lp_pf_groups cfg g).keys =
        before.map Prod.fst ++ e.1 :: behind.map Prod.fst := by
      rw [StdMap.keys, hentries, List.map_append, List.map_cons]
    have hfaults : e = (e.1, (faultsOf cfg g e.1).map cfg.get_mem_addr) := by
      have hmem : e ∈ (lp_pf_groups cfg g).entries := by
        rw [hentries]
        exact List.mem_append_right _ List.mem_cons_self
      rw [← findD_lp_pf_groups, StdMap.findD_of_mem _ _ hmem]
    have hrest : (lp_pf_groups cfg g).entries = before ++ [e] ++ behind := by
      rw [hentries, List.append_assoc]
      rfl
    have hstep := h.step hready hkeys
    rw [← hfaults] at hstep
    apply ih hrest
    rwa [List.map_append]

/-! ## The whole turn -/

/-- The transfers that a turn has chosen. -/
structure Chosen (g : Gpu) (s : Gpu × Turn) : Prop where
  state : TurnAt g s.1
  transfers : TransfersOf (faultyPages g) s.2
  ends : ∀ p ∈ faultyPages g, p ∈ s.2.transfers.flatMap Prod.snd
  absent : ∀ p ∈ s.2.temp_req_info, p ∈ faultyPages g ∨ is_valid g p = false

theorem DrawsApart.safe {g : Gpu} (h : g.prefetcher = .RANDOM → DrawsApart cfg g)
    {before : List Nat} {p : Nat} {behind : List Nat} (hfaults : faultyPages g = before ++ p :: behind) :
    DrawSafe cfg g before p behind := by
  intro hrandom
  refine ⟨(h hrandom).sizes p ?_, (h hrandom).later before p behind hfaults⟩
  rw [hfaults]
  exact List.mem_append_right _ List.mem_cons_self

theorem chosen_chooseMigrations {g : Gpu} (hready : TurnReady cfg g)
    (hsafe : g.prefetcher = .RANDOM → DrawsApart cfg g) : Chosen g (chooseMigrations cfg g) := by
  unfold chooseMigrations
  split_ifs
  · have hall := (onesAt_start hready).run hready rfl
      (fun mid p rest heq => DrawsApart.safe hsafe heq)
    refine ⟨hall.state, hall.transfers, ?_, hall.absent⟩
    intro p hp
    have hends := hall.ends
    rw [← hends] at hp
    exact hp
  · have hstart : GroupsAt cfg g (([] : List (Nat × List Nat)).map Prod.fst) (g, {}) :=
      groupsAt_start hready
    have hall := hstart.run hready rfl
    refine ⟨hall.state, hall.transfers, ?_, hall.absent⟩
    intro p hp
    apply hall.ends (Forest.rootAddr g.large_page_info (cfg.get_mem_addr p)) _ p
    · exact mem_faultsOf.mpr ⟨hp, rfl⟩
    · rw [StdMap.mem_keys, contains_lp_pf_groups]
      exact ⟨p, hp, rfl⟩

theorem chooseMigrations_nil {g : Gpu} (h : g.page_fault_this_turn.entries = []) :
    chooseMigrations cfg g = (g, {}) := by
  have hkeys : g.page_fault_this_turn.keys = [] := by
    rw [StdMap.keys, h]
    rfl
  simp only [chooseMigrations, lp_pf_groups, hkeys]
  split_ifs <;> rfl

theorem queue_do_hardware_prefetch (g : Gpu) :
    (do_hardware_prefetch cfg g).pcie_read_stage_queue = g.pcie_read_stage_queue ++
      (chooseMigrations cfg g).2.transfers.flatMap fun t => splitTransfer cfg t.1 [] t.2 := by
  unfold do_hardware_prefetch
  split_ifs with hnone
  · rw [chooseMigrations_nil hnone]
    exact (List.append_nil _).symm
  · rw [noteOversubscription_frame]
    simp only [stageTurn]
    rw [fileFaults_frame]
    simp only
    rw [chooseMigrations_frame]

theorem findD_touched (temp : List Nat) (m : StdMap Nat (List MemFetch)) (q : Nat) :
    (temp.foldl (fun m p => m.alter p [] id) m).findD q [] = m.findD q [] := by
  induction temp generalizing m with
  | nil => rfl
  | cons p temp ih =>
    rw [List.foldl_cons, ih]
    by_cases hq : q = p
    · subst hq
      exact m.findD_alter_self q [] [] id
    · exact m.findD_alter_ne [] [] id hq

/-- Faults of different pages, none of them asked for, find their MSHR entries empty. -/
theorem fileFaults_runs {es : List (Nat × List MemFetch)} (hes : (es.map Prod.fst).Nodup) {g : Gpu}
    (hfree : ∀ e ∈ es, g.req_info.findD e.1 [] = []) :
    (es.foldl fileFault g).aborted = g.aborted := by
  induction es generalizing g with
  | nil => rfl
  | cons e es ih =>
    obtain ⟨hnot, hnodup⟩ := List.nodup_cons.mp hes
    rw [List.foldl_cons, ih hnodup]
    · simp [fileFault, hfree e List.mem_cons_self]
    · intro f hf
      have hne : f.1 ≠ e.1 := by
        intro heq
        rw [← heq] at hnot
        exact hnot (List.mem_map_of_mem hf)
      simp only [fileFault]
      rw [g.req_info.findD_alter_ne [] [] _ hne]
      exact hfree f (List.mem_cons_of_mem _ hf)

/-- A turn fails only while it chooses. -/
theorem aborted_do_hardware_prefetch {g : Gpu} (hready : TurnReady cfg g) :
    (do_hardware_prefetch cfg g).aborted = (chooseMigrations cfg g).1.aborted := by
  unfold do_hardware_prefetch
  split_ifs with hnone
  · rw [chooseMigrations_nil hnone]
  · rw [noteOversubscription_frame]
    simp only [stageTurn, fileFaults]
    rw [fileFaults_runs]
    · rw [chooseMigrations_frame]
      exact StdMap.keys_nodup _
    · intro e he
      rw [chooseMigrations_frame] at he ⊢
      rw [findD_touched]
      apply StdMap.findD_of_not_contains
      exact hready.fresh e.1 (List.mem_map_of_mem he)

theorem Chosen.splits {g : Gpu} (hready : TurnReady cfg g) (h : Chosen g (chooseMigrations cfg g)) :
    SplitsExactly cfg g := by
  have hlisted := h.transfers.listed
  refine ⟨?_, ?_, h.absent, ?_⟩
  · rw [aborted_do_hardware_prefetch hready]
    exact h.state.runs
  · intro p hp
    obtain ⟨t, ht, hpt⟩ := List.mem_flatMap.mp (h.ends p hp)
    exact (hlisted p).mp (List.mem_flatMap.mpr ⟨t, ht, (h.transfers.faulty t ht).1.subset hpt⟩)
  · obtain ⟨runs, hruns, hof⟩ := h.transfers.runs cfg
    refine ⟨runs, ?_, ⟨hof.ascending, rfl, ?_⟩, ?_, ?_⟩
    · rw [queue_do_hardware_prefetch, hruns]
    · exact fun p hp => hof.ends p (h.ends p hp)
    · rw [hof.pages]
      exact h.transfers.once
    · intro p
      rw [hof.pages]
      exact hlisted p

/-- A turn that splits exactly plans no page twice. -/
theorem SplitsExactly.once {g : Gpu} (h : SplitsExactly cfg g) :
    (planned (chooseMigrations cfg g).2).Nodup := by
  obtain ⟨runs, hqueue, -, hnodup, -⟩ := h.split
  rw [queue_do_hardware_prefetch] at hqueue
  have hpages := congrArg pagesQueued (List.append_cancel_left hqueue)
  rw [pagesQueued_transfers, pagesQueued_runEntries] at hpages
  rwa [hpages]

variable (cfg) in
/-- One call splits its work exactly if and only if `RANDOM` does not draw from a tree below a
page, nor a page that is one of the later faults of the turn. -/
theorem turn_splits_exactly_iff {g : Gpu} (hready : TurnReady cfg g) :
    SplitsExactly cfg g ↔ (g.prefetcher = .RANDOM → DrawsApart cfg g) := by
  constructor
  · intro hsplit hrandom
    -- a harmful draw would spoil the turn
    have hsafe : ∀ before p behind, faultyPages g = before ++ p :: behind →
        DrawSafe cfg g before p behind := by
      intro before p behind hfaults
      by_contra hharm
      have hspoiled := (onesAt_start hready).spoiled hready rfl hfaults
        (by rwa [List.nil_append])
      have hones : chooseMigrations cfg g = (faultyPages g).foldl (prefetchOne cfg) (g, {}) := by
        unfold chooseMigrations
        rw [if_pos (Or.inr hrandom)]
        rfl
      rw [← hones] at hspoiled
      rcases hspoiled with habort | hdouble | ⟨q, -, hq⟩
      · rw [← aborted_do_hardware_prefetch hready, hsplit.runs] at habort
        cases habort
      · exact hdouble hsplit.once
      · cases hq
    refine ⟨?_, fun before p behind hfaults => (hsafe before p behind hfaults hrandom).2⟩
    intro p hp
    obtain ⟨before, behind, hfaults⟩ := List.append_of_mem hp
    exact (hsafe before p behind hfaults hrandom).1
  · exact fun hsafe => (chosen_chooseMigrations hready hsafe).splits hready

/-! ## The turns of a run -/

/-- The state of a cycle of the GMMU in which it calls `do_hardware_prefetch`. -/
def atTurn (cfg : Config) (g : Gpu) : Gpu :=
  page_table_walk cfg (read_schedule cfg (read_done cfg (write_back_schedule cfg
    (write_back_done cfg (eviction_check cfg g)))))

/-- In every cycle of every run that gets there, a turn starts as it should. -/
theorem turnReady {g : Gpu} (hr : Reachable cfg g) (hruns : (atTurn cfg g).aborted = false) :
    TurnReady cfg (atTurn cfg g) := by
  have h12 := (eviction_check_handlesFollow cfg g).trans (write_back_done_handlesFollow cfg _)
  have h14 := (h12.trans (write_back_schedule_handlesFollow cfg _)).trans
    (read_done_handlesFollow cfg _)
  have h16 := (h14.trans (read_schedule_handlesFollow cfg _)).trans
    (page_table_walk_handlesFollow cfg _)
  have h : Handles cfg (atTurn cfg g) := h16.keeps (handles cfg hr) ⟨hruns, fun _ _ => rfl⟩
  have hempty : Coming (read_schedule cfg (read_done cfg (write_back_schedule cfg
      (write_back_done cfg (eviction_check cfg g))))) [] := by
    refine ⟨List.nodup_nil, fun p hp => (nomatch hp), fun p hp => (nomatch hp), fun p hp => ?_⟩
    rw [read_schedule_frame, read_done_frame, write_back_schedule_frame] at hp
    simp only [write_back_done] at hp
    rw [eviction_check_frame] at hp
    have hkey := (StdMap.mem_keys _ p).mpr hp
    rw [StdMap.keys, turn_empty cfg hr] at hkey
    cases hkey
  have hcoming := coming_page_table_walk cfg hempty
  refine ⟨h.toGround, hruns, h.faults, ?_, ?_⟩
  · exact fun p hp => (hcoming.faulting p ((StdMap.mem_keys _ p).mp hp)).1
  · exact fun p hp => (hcoming.faulting p ((StdMap.mem_keys _ p).mp hp)).2

/-- `RANDOM`, with the same draw each time. -/
def drawing (r : Nat) : Config :=
  { smallConfig with hardware_prefetch := .RANDOM, rand := fun _ => r }

/-- Two cores load from the first two pages, and both fetches are to be walked. -/
def twoFaults : List Action :=
  [.cudaMallocManaged 65536 65536] ++ loadOn 0 [pageAccess 0 .GLOBAL_ACC_R 1] ++
    loadOn 1 [pageAccess 1 .GLOBAL_ACC_R 2] ++ deviceCycles 1

theorem turnReady_twoFaults {r : Nat}
    (hruns : (atTurn (drawing r) (stateAfter (drawing r) twoFaults)).aborted = false) :
    TurnReady (drawing r) (atTurn (drawing r) (stateAfter (drawing r) twoFaults)) :=
  turnReady (reachable_stateAfter (drawing r) twoFaults) hruns

/-- The third page is drawn, which no fetch asked for. -/
theorem a_draw_of_the_third_page_splits_exactly :
    (faultyPages (atTurn (drawing 2) (stateAfter (drawing 2) twoFaults))).length = 2 ∧
      SplitsExactly (drawing 2) (atTurn (drawing 2) (stateAfter (drawing 2) twoFaults)) := by
  have hready : TurnReady (drawing 2) (atTurn (drawing 2) (stateAfter (drawing 2) twoFaults)) :=
    turnReady_twoFaults (by decide +kernel)
  refine ⟨by decide +kernel, (turn_splits_exactly_iff (drawing 2) hready).mpr fun _ => ⟨?_, ?_⟩⟩
  · decide +kernel
  · intro before p behind hfaults hlater
    have hdrawn : ∀ p ∈ faultyPages (atTurn (drawing 2) (stateAfter (drawing 2) twoFaults)),
        (drawing 2).get_page_num (drawnAddr (drawing 2)
          (atTurn (drawing 2) (stateAfter (drawing 2) twoFaults)) 0 p) ∉
            faultyPages (atTurn (drawing 2) (stateAfter (drawing 2) twoFaults)) := by
      decide +kernel
    have hp : p ∈ faultyPages (atTurn (drawing 2) (stateAfter (drawing 2) twoFaults)) := by
      rw [hfaults]
      exact List.mem_append_right _ List.mem_cons_self
    apply hdrawn p hp
    rw [hfaults]
    exact List.mem_append_right _ (List.mem_cons_of_mem _ hlater)

/-- The second page is drawn for the first, and is planned again when it faults itself. -/
theorem a_draw_of_the_second_page_is_planned_twice :
    ¬ ∀ (cfg : Config) (g : Gpu), TurnReady cfg g → SplitsExactly cfg g := by
  intro h
  have hready : TurnReady (drawing 1) (atTurn (drawing 1) (stateAfter (drawing 1) twoFaults)) :=
    turnReady_twoFaults (by decide +kernel)
  have hdouble : ¬ (planned (chooseMigrations (drawing 1)
      (atTurn (drawing 1) (stateAfter (drawing 1) twoFaults))).2).Nodup := by
    decide +kernel
  exact hdouble (h (drawing 1) _ hready).once

end gpgpu_sim_uvm
