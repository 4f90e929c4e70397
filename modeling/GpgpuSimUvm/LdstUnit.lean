-- The load/store unit (shader.cc) and the cluster queues between it and the
-- GMMU: the TLB, the far fetches of the access queue, and the accesses that
-- go on to the L1 cache or the interconnect.
import GpgpuSimUvm.Cycle

namespace gpgpu_sim_uvm

variable (cfg : Config)

def setLdst (g : Gpu) (sid : Nat) (u : Ldst) : Nat → Ldst :=
  fun s => if s = sid then u else g.ldst s

theorem setLdst_self (g : Gpu) (sid : Nat) (u : Ldst) : setLdst g sid u sid = u := if_pos rfl

theorem setLdst_ne (g : Gpu) (u : Ldst) {sid s : Nat} (h : s ≠ sid) :
    setLdst g sid u s = g.ldst s :=
  if_neg h

/-- A change of one unit that spares a field of it spares that field of all. -/
theorem unit_same {B : Type} (field : Ldst → B) {g : Gpu} {units : Nat → Ldst} {sid : Nat}
    {u : Ldst} (hunits : units = setLdst g sid u) (h : field u = field (g.ldst sid)) (s : Nat) :
    field (units s) = field (g.ldst s) := by
  rw [hunits]
  by_cases hs : s = sid
  · rw [hs, setLdst_self, h]
  · rw [setLdst_ne g u hs]

/-! ## Reservations -/

def reserve_pages_insert (m : StdMap Nat (List Nat)) (a : MemAccess) : StdMap Nat (List Nat) :=
  m.alter (cfg.get_page_num a.addr) [] fun us => if a.uid ∈ us then us else us ++ [a.uid]

/-- The page and the access of a reservation. -/
def reservation (a : MemAccess) : Nat × Nat := (cfg.get_page_num a.addr, a.uid)

/-- The access holds a reservation of its page. -/
def isReserved (g : Gpu) (a : MemAccess) : Bool :=
  decide (a.uid ∈ g.reserve_pages.findD (cfg.get_page_num a.addr) [])

/-- Takes one reservation of the page back. Both assertions ask that it is there. -/
def reserve_pages_remove (g : Gpu) (a : MemAccess) : Gpu :=
  let page_num := cfg.get_page_num a.addr
  let left := (g.reserve_pages.findD page_num []).erase a.uid
  { g with
    reserve_pages :=
      if left = [] then g.reserve_pages.erase page_num
      else g.reserve_pages.alter page_num [] fun _ => left
    released := reservation cfg a :: g.released
    release_failed := g.release_failed || !isReserved cfg g a
    aborted := g.aborted || !isReserved cfg g a }

/-! ## The TLB -/

/-- `tlb` is full at exactly `tlb_size` entries. -/
def refresh_tlb (tlb : List Nat) (page_num : Nat) : List Nat :=
  if page_num ∈ tlb then tlb.filter (fun p => decide (p ≠ page_num)) ++ [page_num]
  else (if tlb.length = cfg.tlb_size then tlb.tail else tlb) ++ [page_num]

/-! ## The access cycle -/

/-- The flags that an access leaves on its page. -/
def markPage (m : StdMap Nat MemStorage) (a : MemAccess) : StdMap Nat MemStorage :=
  let page_num := cfg.get_page_num a.addr
  let m := set_page_access m page_num
  if a.type = .GLOBAL_ACC_W then set_page_dirty m page_num else m

/-- The unit took a reply for the page that was served by DMA. -/
def servedDirectly (g : Gpu) (sid p : Nat) : Bool :=
  (g.ldst sid).taken.any fun mf => decide (mf ∈ g.m_dma ∧ cfg.get_page_num mf.access.addr = p)

/-- The flags and the TLB entry of an access that hits. -/
def useTlbEntry (g : Gpu) (sid : Nat) (a : MemAccess) : Gpu :=
  let u := g.ldst sid
  let page_num := cfg.get_page_num a.addr
  { g with
    history := .tlb_hit (is_valid g page_num) (servedDirectly cfg g sid page_num) :: g.history
    m_data := markPage cfg g.m_data a
    ldst := setLdst g sid { u with
      tlb := refresh_tlb cfg u.tlb page_num
      looked_up := u.looked_up ++ [a] } }

/-- A TLB hit of the access in front. -/
def tlbHit (g : Gpu) (sid : Nat) (a : MemAccess) : Gpu :=
  refresh_valid_pages cfg
    (useTlbEntry cfg (check_write_stage_queue cfg g (cfg.get_page_num a.addr)) sid a) a.addr

/-- A TLB miss of the access in front, which becomes a fetch to the GMMU. -/
def tlbMiss (g : Gpu) (sid : Nat) (w : WarpInst) (a : MemAccess) (rest : List MemAccess) : Gpu :=
  let mf : MemFetch := { serial := g.next_fetch, sid := sid, access := a, inst := w.info }
  let u := g.ldst sid
  { g with
    next_fetch := g.next_fetch + 1
    ldst := setLdst g sid { u with
      m_dispatch_reg := some { w with accessq := rest }
      m_cu_gmmu_queue := u.m_cu_gmmu_queue ++ [mf]
      managed_access := u.managed_access ++ [mf]
      sent := u.sent ++ [a] } }

/-- `is_page_managed` of an access. -/
def isManaged (g : Gpu) (a : MemAccess) : Bool := is_page_managed cfg g a.addr a.size

/-- The counters of the accesses that the unit has not met before, all on the
page of the access in front. -/
def countAccesses (g : Gpu) (sid : Nat) (a : MemAccess) (rest : List MemAccess) : Gpu :=
  let page_no := cfg.get_page_num a.addr
  { g with
    new_stats := (a :: rest).foldl
      (fun st b =>
        if b.isGlobal && !decide ((sid, b.uid) ∈ st.ma_latency) then
          st.countAccess sid b.uid page_no (isManaged cfg g b) (decide (page_no ∈ (g.ldst sid).tlb))
        else st) g.new_stats }

/-- The entries that the calls of `is_page_managed` leave in the page table. -/
def touchAccesses (g : Gpu) (a : MemAccess) (rest : List MemAccess) : Gpu :=
  { g with
    m_data := (a :: (a :: rest).filter MemAccess.isGlobal).foldl
      (fun m b => touchPage cfg m b.addr b.size) g.m_data }

/-- What the walk over the queue does to it before anything else. -/
def meetAccesses (g : Gpu) (sid : Nat) (a : MemAccess) (rest : List MemAccess) : Gpu :=
  touchAccesses cfg (countAccesses cfg g sid a rest) a rest

/-- The counters of the trees and the reservations of a managed access, made
for every access of the queue. -/
def noteAccess (g : Gpu) (a : MemAccess) (rest : List MemAccess) : Gpu :=
  { g with
    large_page_info :=
      Forest.inc_bb_access_counter
        (Forest.update_access_type g.large_page_info a.addr
          (if a.type = .GLOBAL_ACC_W then 2 else 1)) a.addr
    reserve_pages := (a :: rest).foldl (reserve_pages_insert cfg) g.reserve_pages
    reserved := (a :: rest).map (reservation cfg) ++ g.reserved
    history := .noted ((a :: rest).all (isManaged cfg g)) :: g.history
    aborted := g.aborted || (Forest.get_lp_node g.large_page_info a.addr).isNone }

/-- The far fetch of the access in front, of a managed page. -/
def farFetch (g : Gpu) (sid : Nat) (w : WarpInst) (a : MemAccess) (rest : List MemAccess) :
    Gpu × Bool :=
  if cfg.get_page_num a.addr ∈ (g.ldst sid).tlb then (tlbHit cfg g sid a, true)
  else (tlbMiss g sid w a rest, decide (rest = []))

/-- `access_cycle`, with whether the unit goes on with the instruction. -/
def access_cycle (g : Gpu) (sid : Nat) : Gpu × Bool :=
  match (g.ldst sid).m_dispatch_reg with
  | none => (g, true)
  | some w =>
    match w.accessq with
    | [] => (g, true)
    | a :: rest =>
      if !isManaged cfg g a || !a.isGlobal then (meetAccesses cfg g sid a rest, true)
      else farFetch cfg (noteAccess cfg (meetAccesses cfg g sid a rest) a rest) sid w a rest

/-! ## The memory cycle -/

/-- How the memory below answers in one cycle. -/
structure Port where
  /-- The accesses that it takes: free banks of the L1, or room in the
  interconnect. -/
  takes : Nat
  /-- An access of the L1 is a hit. -/
  hit : Bool
  /-- The L1 sends the write of a store on. -/
  write_sent : Bool

/-- `bypassL1D` for the access queue. -/
def bypassQueue (i : InstInfo) : Bool :=
  i.cache_global || !cfg.has_L1D || (i.is_global && cfg.gmem_skip_L1D && !i.cache_l1)

/-- `bypassL1D` for a reply of the GMMU. -/
def bypassReply (i : InstInfo) : Bool :=
  i.cache_global || !cfg.has_L1D || (i.is_global && cfg.gmem_skip_L1D)

def releaseRead (g : Gpu) (a : MemAccess) : Gpu :=
  if a.type = .GLOBAL_ACC_R ∧ isManaged cfg g a then reserve_pages_remove cfg g a
  else g

/-- The L1 is given the accesses of the queue, and has no latency queue. -/
def isDirect (i : InstInfo) : Bool := !bypassQueue cfg i && decide (cfg.l1_latency = 0)

/-- The number of accesses that leave the queue in this cycle. -/
def drained (w : WarpInst) (p : Port) : Nat :=
  if bypassQueue cfg w.info ∨ cfg.l1_latency = 0 then min p.takes 1 else min p.takes cfg.l1_banks

/-- The accesses that go down in this cycle. An L1 without latency is given the
access at the back. -/
def sentAccesses (w : WarpInst) (p : Port) : List MemAccess :=
  if isDirect cfg w.info then w.accessq.getLast?.toList.take (drained cfg w p)
  else w.accessq.take (drained cfg w p)

/-- The access whose reservation goes when the queue drains, if any. -/
def releasedByQueue (w : WarpInst) (p : Port) : Option MemAccess :=
  if bypassQueue cfg w.info ∨ cfg.l1_latency = 0 then (sentAccesses cfg w p).head? else none

/-- The L1 sends an access on, or waits for one that it sent before. -/
def goesOn (a : MemAccess) (hit write_sent : Bool) : Bool :=
  if a.isWrite then write_sent else !hit

/-- Where an access of the queue is next, if it does not end in the L1. -/
def wayDown (i : InstInfo) (p : Port) (a : MemAccess) : Option Way :=
  if bypassQueue cfg i then some .icnt
  else if cfg.l1_latency = 0 then (if goesOn a p.hit p.write_sent then some .l1 else none)
  else some .l1_latency_queue

/-- What holds of an access of the queue that goes down. -/
def sentFromQueue (g : Gpu) (sid : Nat) (a : MemAccess) : Sent where
  access := a
  managed := isManaged cfg g a
  reserved := isReserved cfg g a
  translated := decide (a ∈ (g.ldst sid).looked_up)
  valid := is_valid g (cfg.get_page_num a.addr)
  marked := is_page_dirty g (cfg.get_page_num a.addr)
  direct := false

def sentEvents (g : Gpu) (sid : Nat) (w : WarpInst) (p : Port) (a : MemAccess) : List Event :=
  .left_queue (sentFromQueue cfg g sid a) (decide (w.accessq.head? ≠ some a)) ::
    if isDirect cfg w.info then
      [.direct_access w.accessq.length, .cached .queue a (isManaged cfg g a) p.hit p.write_sent]
    else []

/-- Notes the pages of the stores among some accesses. -/
def storePages (pages : List Nat) (as : List MemAccess) : List Nat :=
  (as.filter MemAccess.isWrite).map (fun a => cfg.get_page_num a.addr) ++ pages

/-- The accesses of this cycle leave the queue and go down. -/
def sendAccesses (g : Gpu) (sid : Nat) (w : WarpInst) (p : Port) : Gpu :=
  let u := g.ldst sid
  let as := sentAccesses cfg w p
  { g with
    ldst := setLdst g sid { u with
      m_dispatch_reg := some { w with accessq := w.accessq.drop (drained cfg w p) }
      in_flight := u.in_flight ++
        as.filterMap fun a => (wayDown cfg w.info p a).map fun way => ⟨a, w.info, way⟩
      sent := u.sent ++ as }
    sends := as.map (sentFromQueue cfg g sid) ++ g.sends
    stored_pages := storePages cfg g.stored_pages as
    history := (as.flatMap (sentEvents cfg g sid w p)).reverse ++ g.history }

def releaseIf (g : Gpu) (a : Option MemAccess) : Gpu := a.elim g (releaseRead cfg g)

/-- The access queue goes on to the L1 or to the interconnect. -/
def drainQueue (g : Gpu) (sid : Nat) (w : WarpInst) (p : Port) : Gpu :=
  releaseIf cfg (sendAccesses cfg g sid w p) (releasedByQueue cfg w p)

/-- Where the access of a reply is next, if it does not end in the L1. -/
def wayOn (mf : MemFetch) (p : Port) : Option Way :=
  if bypassReply cfg mf.inst then some .icnt
  else if goesOn mf.access p.hit p.write_sent then some .l1 else none

/-- What holds of the access of a reply, which marks its page as it goes. -/
def sentFromReply (g : Gpu) (mf : MemFetch) : Sent where
  access := mf.access
  managed := isManaged cfg g mf.access
  reserved := isReserved cfg g mf.access
  translated := decide (mf ∈ g.walked)
  valid := is_valid g (cfg.get_page_num mf.access.addr)
  marked := (pageOf (markPage cfg g.m_data mf.access) (cfg.get_page_num mf.access.addr)).dirty
  direct := decide (mf ∈ g.m_dma)

def replyEvents (g : Gpu) (mf : MemFetch) (p : Port) : List Event :=
  let page_num := cfg.get_page_num mf.access.addr
  .reply_taken page_num (is_valid g page_num) ::
    if bypassReply cfg mf.inst then []
    else [.cached .reply mf.access (isManaged cfg g mf.access) p.hit p.write_sent]

/-- The reply in front leaves its queue, its page is marked and enters the TLB. -/
def useReply (g : Gpu) (sid : Nat) (mf : MemFetch) (rest : List MemFetch) (p : Port) : Gpu :=
  let u := g.ldst sid
  { g with
    m_data := markPage cfg g.m_data mf.access
    ldst := setLdst g sid { u with
      m_gmmu_cu_queue := rest
      managed_access := u.managed_access.erase mf
      taken := mf :: u.taken
      in_flight := u.in_flight ++
        (wayOn cfg mf p).toList.map fun way => ⟨mf.access, mf.inst, way⟩
      tlb := refresh_tlb cfg u.tlb (cfg.get_page_num mf.access.addr) }
    sends := sentFromReply cfg g mf :: g.sends
    stored_pages := storePages cfg g.stored_pages [mf.access]
    history := (replyEvents cfg g mf p).reverse ++ g.history }

/-- The reservation that a reply gives back. A miss in the L1 keeps it. -/
def releasedByReply (mf : MemFetch) (p : Port) : Option MemAccess :=
  if bypassReply cfg mf.inst || p.hit then some mf.access else none

/-- The fetch in front of the replies goes on to the L1 or the interconnect. -/
def takeReply (g : Gpu) (sid : Nat) (mf : MemFetch) (rest : List MemFetch) (p : Port) : Gpu :=
  refresh_valid_pages cfg
    (releaseIf cfg (useReply cfg g sid mf rest p) (releasedByReply cfg mf p)) mf.access.addr

/-- `memory_cycle`, with whether the instruction is done. -/
def memory_cycle (g : Gpu) (sid : Nat) (p : Port) : Gpu × Bool :=
  let u := g.ldst sid
  match u.m_dispatch_reg.filter (fun w => decide (w.accessq ≠ [])), u.m_gmmu_cu_queue with
  | some w, _ => (drainQueue cfg g sid w p, decide (w.accessq.drop (drained cfg w p) = []))
  | none, [] => (g, true)
  | none, mf :: rest => (if p.takes = 0 then g else takeReply cfg g sid mf rest p, true)

/-- The instruction leaves the dispatch register. -/
def retire (g : Gpu) (sid : Nat) : Gpu :=
  let u := g.ldst sid
  { g with
    ldst := setLdst g sid { u with m_dispatch_reg := none }
    retired :=
      if u.m_dispatch_reg.isSome then (u.dispatched, u.sent) :: g.retired else g.retired }

/-- The part of `ldst_unit::cycle` behind the dispatch register. -/
def ldst_cycle (g : Gpu) (sid : Nat) (p : Port) : Gpu :=
  let s := access_cycle cfg g sid
  if s.2 then
    let t := memory_cycle cfg s.1 sid p
    if t.2 then retire t.1 sid else t.1
  else s.1

/-! ## The cluster -/

/-- The replies of a cluster go to their cores, one in a cycle. -/
def cluster_reply (g : Gpu) (c : Nat) : Gpu :=
  match g.m_gmmu_cu_queue c with
  | [] => g
  | mf :: rest =>
    let u := g.ldst mf.sid
    { g with
      m_gmmu_cu_queue := fun d => if d = c then rest else g.m_gmmu_cu_queue d
      ldst := setLdst g mf.sid { u with m_gmmu_cu_queue := u.m_gmmu_cu_queue ++ [mf] } }

/-- The fetch in front of one core goes to the front of the cluster's queue. -/
def core_request (c : Nat) (g : Gpu) (sid : Nat) : Gpu :=
  match (g.ldst sid).m_cu_gmmu_queue with
  | [] => g
  | mf :: rest =>
    { g with
      m_cu_gmmu_queue := fun d => if d = c then mf :: g.m_cu_gmmu_queue d else g.m_cu_gmmu_queue d
      ldst := setLdst g sid { g.ldst sid with m_cu_gmmu_queue := rest } }

/-- `icnt_cycle` of a cluster, the replies of the memory apart. -/
def icnt_cycle (g : Gpu) (c : Nat) : Gpu :=
  (List.range' (c * cfg.n_simt_cores_per_cluster) cfg.n_simt_cores_per_cluster).foldl
    (core_request c) (cluster_reply g c)

end gpgpu_sim_uvm
