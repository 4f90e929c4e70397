-- The traffic of the local interconnect: under both arbiters the packets of an
-- input for an output arrive there in the order in which they were pushed.
import GpgpuSimUvm.LocalInterconnect
import GpgpuSimUvm.Machines

namespace gpgpu_sim_uvm

namespace xbar_router

variable {α : Type} {r : xbar_router α}

/-! ## What an advance does -/

/-- The router with other pointers of its arbiters. -/
def withPointers (r : xbar_router α) (next_node : Nat → Nat) (next_node_id count : Nat) :
    xbar_router α :=
  { r with next_node := next_node, next_node_id := next_node_id, grant_cycles_count := count }

theorem send_cons {node_id : Nat} {p : Packet α} {rest : List (Packet α)}
    (h : r.in_buffers node_id = p :: rest) :
    r.send node_id =
      { r with
        out_buffers := Function.update r.out_buffers p.output_deviceID
          (r.out_buffers p.output_deviceID ++ [p])
        in_buffers := Function.update r.in_buffers node_id rest } := by
  unfold send
  rw [h]

theorem in_buffers_send {node_id : Nat} {p : Packet α} {rest : List (Packet α)}
    (h : r.in_buffers node_id = p :: rest) (i : Nat) :
    (r.send node_id).in_buffers i = if i = node_id then rest else r.in_buffers i := by
  rw [send_cons h]
  exact Function.update_apply r.in_buffers node_id rest i

theorem out_buffers_send {node_id : Nat} {p : Packet α} {rest : List (Packet α)}
    (h : r.in_buffers node_id = p :: rest) (o : Nat) :
    (r.send node_id).out_buffers o =
      if o = p.output_deviceID then r.out_buffers o ++ [p] else r.out_buffers o := by
  rw [send_cons h]
  refine (Function.update_apply r.out_buffers _ _ o).trans ?_
  split
  · rename_i heq
    rw [heq]
  · rfl

/-- The rest of the router stays as it is. -/
theorem send_rest (r : xbar_router α) (node_id : Nat) :
    (r.send node_id).total_nodes = r.total_nodes ∧
      (r.send node_id).in_buffer_limit = r.in_buffer_limit ∧
      (r.send node_id).out_buffer_limit = r.out_buffer_limit := by
  unfold send
  split <;> exact ⟨rfl, rfl, rfl⟩

theorem requests_iff {i node_id : Nat} :
    r.requests i node_id = true ↔
      ∃ p rest, r.in_buffers node_id = p :: rest ∧ p.output_deviceID = i := by
  unfold requests
  cases r.in_buffers node_id <;> simp

/-- A turn of the round robin does nothing, or the packet of its node goes over. -/
theorem RR_turn_cases (s : xbar_router α × (Nat → Bool)) (node_id : Nat) :
    (RR_turn s node_id = s ∧ ∀ p rest, s.1.in_buffers node_id = p :: rest →
      s.1.Has_Buffer_Out p.output_deviceID 1 = true → s.2 p.output_deviceID = true) ∨
    ∃ p rest, s.1.in_buffers node_id = p :: rest ∧
      s.1.Has_Buffer_Out p.output_deviceID 1 = true ∧ s.2 p.output_deviceID = false ∧
      RR_turn s node_id = (s.1.send node_id, Function.update s.2 p.output_deviceID true) := by
  unfold RR_turn
  rcases s.1.in_buffers node_id with _ | ⟨p, rest⟩
  · exact .inl ⟨rfl, by simp⟩
  · simp only [List.head?_cons]
    split
    · rename_i h
      simp only [Bool.and_eq_true, Bool.not_eq_true'] at h
      exact .inr ⟨p, rest, rfl, h.1, h.2, rfl⟩
    · rename_i h
      refine .inl ⟨rfl, ?_⟩
      rintro q l heq hroom
      obtain ⟨rfl, rfl⟩ := List.cons.inj heq
      simpa [hroom] using h

/-- A turn of iSLIP does nothing, or the first node from the pointer of its output
on that has a packet for it sends this packet. -/
theorem iSLIP_turn_cases (r : xbar_router α) (i : Nat) :
    (r.iSLIP_turn i = r ∧ (r.Has_Buffer_Out i 1 = true → ∀ j < r.total_nodes,
      r.requests i ((j + r.next_node i) % r.total_nodes) = false)) ∨
    ∃ j p rest, j < r.total_nodes ∧
      (∀ k < j, r.requests i ((k + r.next_node i) % r.total_nodes) = false) ∧
      r.in_buffers ((j + r.next_node i) % r.total_nodes) = p :: rest ∧ p.output_deviceID = i ∧
      r.Has_Buffer_Out i 1 = true ∧
      r.iSLIP_turn i = (r.send ((j + r.next_node i) % r.total_nodes)).withPointers
        (if r.grant_cycles_count = 1 then
          Function.update r.next_node i
            (((j + r.next_node i) % r.total_nodes + 1) % r.total_nodes)
        else r.next_node) r.next_node_id r.grant_cycles_count := by
  unfold iSLIP_turn
  split
  · rename_i hroom
    unfold nodesFrom
    rw [List.find?_map]
    rcases hfind : (List.range r.total_nodes).find?
        (r.requests i ∘ fun j => (j + r.next_node i) % r.total_nodes) with _ | j
    · refine .inl ⟨rfl, fun _ j hj => ?_⟩
      exact Bool.eq_false_iff.mpr (List.find?_eq_none.mp hfind j (List.mem_range.mpr hj))
    · obtain ⟨hreq, hj, hbefore⟩ := List.find?_range_eq_some.mp hfind
      obtain ⟨p, rest, hbuf, hp⟩ := requests_iff.mp hreq
      refine .inr ⟨j, p, rest, List.mem_range.mp hj, fun k hk => ?_, hbuf, hp, hroom, ?_⟩
      · simpa using hbefore k hk
      · simp only [Option.map_some]
        rw [send_cons hbuf]
        split <;> rfl
  · rename_i hroom
    exact .inl ⟨rfl, fun h => absurd h hroom⟩

/-- A property is kept by an advance when it is kept by each packet that goes
over to an output with room, and by the pointers of the arbiters. -/
theorem Advance_induction {Q : xbar_router α → Prop}
    (hsend : ∀ r node_id p rest, Q r → r.in_buffers node_id = p :: rest →
      r.Has_Buffer_Out p.output_deviceID 1 = true → Q (r.send node_id))
    (hpointers : ∀ r next_node next_node_id count, Q r →
      Q (r.withPointers next_node next_node_id count)) (h : Q r) : Q r.Advance := by
  have hrr : ∀ (l : List Nat) (s : xbar_router α × (Nat → Bool)), Q s.1 →
      Q (l.foldl RR_turn s).1 := by
    intro l
    induction l with
    | nil => exact fun s hs => hs
    | cons n l ih =>
      intro s hs
      refine ih _ ?_
      obtain ⟨heq, -⟩ | ⟨p, rest, hbuf, hroom, -, heq⟩ := RR_turn_cases s n
      · rwa [heq]
      · rw [heq]
        exact hsend s.1 n p rest hs hbuf hroom
  have hislip : ∀ (l : List Nat) (r : xbar_router α), Q r → Q (l.foldl iSLIP_turn r) := by
    intro l
    induction l with
    | nil => exact fun r hr => hr
    | cons i l ih =>
      intro r hr
      refine ih _ ?_
      obtain ⟨heq, -⟩ | ⟨j, p, rest, -, -, hbuf, rfl, hroom, heq⟩ := iSLIP_turn_cases r i
      · rwa [heq]
      · rw [heq]
        exact hpointers _ _ _ _ (hsend r _ p rest hr hbuf hroom)
  unfold Advance
  split
  · exact hpointers _ _ _ _ (hrr _ (r, fun _ => false) h)
  · exact hpointers _ _ _ _ (hislip _ r h)

/-! ## Packets in their buffers -/

/-- The packets are at nodes that there are and go to such nodes, and the buffers
are within their limits. -/
structure Placed (r : xbar_router α) : Prop where
  nodes : ∀ i, ∀ p ∈ r.in_buffers i, i < r.total_nodes ∧ p.output_deviceID < r.total_nodes
  outputs : ∀ o, ∀ p ∈ r.out_buffers o, o < r.total_nodes ∧ p.output_deviceID = o
  in_fits : ∀ i, (r.in_buffers i).length ≤ r.in_buffer_limit
  out_fits : ∀ o, (r.out_buffers o).length ≤ r.out_buffer_limit

theorem mem_in_buffers_send {node_id : Nat} {i : Nat} {q : Packet α}
    (hq : q ∈ (r.send node_id).in_buffers i) : q ∈ r.in_buffers i := by
  rcases hbuf : r.in_buffers node_id with _ | ⟨p, rest⟩
  · simpa [send, hbuf] using hq
  · rw [in_buffers_send hbuf] at hq
    split at hq
    · rename_i hi
      rw [hi, hbuf]
      exact List.mem_cons_of_mem _ hq
    · exact hq

theorem Placed.send {node_id : Nat} {p : Packet α} {rest : List (Packet α)} (h : Placed r)
    (hbuf : r.in_buffers node_id = p :: rest)
    (hroom : r.Has_Buffer_Out p.output_deviceID 1 = true) : Placed (r.send node_id) := by
  have hp := h.nodes node_id p (by simp [hbuf])
  obtain ⟨htotal, hinl, houtl⟩ := send_rest r node_id
  refine ⟨fun i q hq => ?_, fun o q hq => ?_, fun i => ?_, fun o => ?_⟩
  · rw [htotal]
    exact h.nodes i q (mem_in_buffers_send hq)
  · rw [htotal]
    rw [out_buffers_send hbuf] at hq
    split at hq
    · rename_i ho
      rcases List.mem_append.mp hq with hq | hq
      · exact h.outputs o q hq
      · rw [List.mem_singleton.mp hq, ho]
        exact ⟨hp.2, rfl⟩
    · exact h.outputs o q hq
  · have hlen := h.in_fits i
    rw [in_buffers_send hbuf, hinl]
    split
    · rename_i hi
      rw [hi, hbuf, List.length_cons] at hlen
      omega
    · exact hlen
  · rw [out_buffers_send hbuf, houtl]
    split
    · rename_i ho
      unfold Has_Buffer_Out at hroom
      rw [ho, List.length_append, List.length_singleton]
      exact of_decide_eq_true hroom
    · exact h.out_fits o

/-- What a push leaves. -/
theorem Push_eq_some {input output : Nat} {data : α} {r' : xbar_router α}
    (hrun : r.Push input output data = some r') :
    input < r.total_nodes ∧ r'.out_buffers = r.out_buffers ∧ r'.total_nodes = r.total_nodes ∧
      r'.in_buffer_limit = r.in_buffer_limit ∧ r'.out_buffer_limit = r.out_buffer_limit ∧
      ∀ i, r'.in_buffers i = r.in_buffers i ++ if i = input then [⟨data, output⟩] else [] := by
  unfold Push at hrun
  split at hrun
  · rename_i hinput
    obtain rfl := Option.some.inj hrun
    refine ⟨hinput, rfl, rfl, rfl, rfl, fun i => ?_⟩
    refine (Function.update_apply r.in_buffers input _ i).trans ?_
    by_cases hi : i = input
    · simp [hi]
    · simp [hi]
  · simp at hrun

theorem Placed.push {input output : Nat} {data : α} {r' : xbar_router α} (h : Placed r)
    (hroom : r.Has_Buffer_In input 1 = true) (houtput : output < r.total_nodes)
    (hrun : r.Push input output data = some r') : Placed r' := by
  obtain ⟨hinput, hout, htotal, hinl, houtl, hin⟩ := Push_eq_some hrun
  refine ⟨fun i q hq => ?_, ?_, fun i => ?_, ?_⟩
  · rw [htotal]
    rw [hin] at hq
    rcases List.mem_append.mp hq with hq | hq
    · exact h.nodes i q hq
    · split at hq
      · rename_i hi
        rw [List.mem_singleton.mp hq, hi]
        exact ⟨hinput, houtput⟩
      · simp at hq
  · rw [hout, htotal]
    exact h.outputs
  · rw [hin, hinl]
    split
    · rename_i hi
      unfold Has_Buffer_In at hroom
      rw [hi, List.length_append, List.length_singleton]
      exact of_decide_eq_true hroom
    · rw [List.append_nil]
      exact h.in_fits i
  · rw [hout, houtl]
    exact h.out_fits

/-- What a pop leaves. -/
theorem Pop_eq_some {output : Nat} {x : Option α} {r' : xbar_router α}
    (hrun : r.Pop output = some (x, r')) :
    r'.in_buffers = r.in_buffers ∧ r'.total_nodes = r.total_nodes ∧
      r'.in_buffer_limit = r.in_buffer_limit ∧ r'.out_buffer_limit = r.out_buffer_limit ∧
      ((x = none ∧ r' = r) ∨ ∃ p, x = some p.data ∧
        ∀ o, r.out_buffers o = (if o = output then [p] else []) ++ r'.out_buffers o) := by
  unfold Pop at hrun
  split at hrun
  · split at hrun
    · obtain ⟨rfl, rfl⟩ := Prod.mk.inj (Option.some.inj hrun)
      exact ⟨rfl, rfl, rfl, rfl, .inl ⟨rfl, rfl⟩⟩
    · rename_i p rest hout
      obtain ⟨rfl, rfl⟩ := Prod.mk.inj (Option.some.inj hrun)
      refine ⟨rfl, rfl, rfl, rfl, .inr ⟨p, rfl, fun o => ?_⟩⟩
      have hbuf := Function.update_apply r.out_buffers output rest o
      refine Eq.trans ?_ (congrArg ((if o = output then [p] else []) ++ ·) hbuf.symm)
      by_cases ho : o = output
      · simp [ho, hout]
      · simp [ho]
  · simp at hrun

theorem Placed.pop {output : Nat} {x : Option α} {r' : xbar_router α} (h : Placed r)
    (hrun : r.Pop output = some (x, r')) : Placed r' := by
  obtain ⟨hin, htotal, hinl, houtl, ⟨-, rfl⟩ | ⟨p, -, hout⟩⟩ := Pop_eq_some hrun
  · exact h
  · refine ⟨?_, fun o q hq => ?_, ?_, fun o => ?_⟩
    · rw [hin, htotal]
      exact h.nodes
    · rw [htotal]
      refine h.outputs o q ?_
      rw [hout]
      exact List.mem_append_right _ hq
    · rw [hin, hinl]
      exact h.in_fits
    · have hlen := h.out_fits o
      rw [hout, List.length_append] at hlen
      rw [houtl]
      omega

/-! ## Packets between their input and their output -/

section

variable (source : α → Nat)

/-- The packets from input `i` for output `o` that the router holds, those in the
output buffer first. -/
def transit (r : xbar_router α) (i o : Nat) : List α :=
  ((r.out_buffers o).filter fun p => source p.data = i).map Packet.data ++
    ((r.in_buffers i).filter fun p => p.output_deviceID = o).map Packet.data

/-- The packets lie where they belong. `mine` are the inputs of the router. -/
structure Routed (mine : Nat → Prop) (r : xbar_router α) : Prop extends Placed r where
  input : ∀ i, ∀ p ∈ r.in_buffers i, source p.data = i ∧ mine i
  output : ∀ o, ∀ p ∈ r.out_buffers o, mine (source p.data)

end

section

variable {source : α → Nat} {mine : Nat → Prop}

theorem transit_send {node_id : Nat} {p : Packet α} {rest : List (Packet α)}
    (h : Routed source mine r) (hbuf : r.in_buffers node_id = p :: rest) (i o : Nat) :
    (r.send node_id).transit source i o = r.transit source i o := by
  have hsource : source p.data = node_id := (h.input node_id p (by simp [hbuf])).1
  unfold transit
  rw [in_buffers_send hbuf, out_buffers_send hbuf]
  by_cases hi : i = node_id
  · subst hi
    by_cases ho : o = p.output_deviceID
    · subst ho
      simp [hbuf, hsource]
    · simp [hbuf, ho, Ne.symm ho]
  · have hne : ¬ source p.data = i := fun hcon => hi (hcon.symm.trans hsource)
    by_cases ho : o = p.output_deviceID
    · simp [hne, hi, ho]
    · simp [hi, ho]

theorem Routed.send {node_id : Nat} {p : Packet α} {rest : List (Packet α)}
    (h : Routed source mine r) (hbuf : r.in_buffers node_id = p :: rest)
    (hroom : r.Has_Buffer_Out p.output_deviceID 1 = true) :
    Routed source mine (r.send node_id) := by
  have hp := h.input node_id p (by simp [hbuf])
  refine ⟨h.toPlaced.send hbuf hroom, fun i q hq => h.input i q (mem_in_buffers_send hq),
    fun o q hq => ?_⟩
  rw [out_buffers_send hbuf] at hq
  split at hq
  · rcases List.mem_append.mp hq with hq | hq
    · exact h.output o q hq
    · rw [List.mem_singleton.mp hq]
      exact hp.1 ▸ hp.2
  · exact h.output o q hq

/-- An advance moves packets on, and that is all: the same packets are on their
way between any two nodes. -/
theorem Routed.advance (h : Routed source mine r) :
    Routed source mine r.Advance ∧ r.Advance.total_nodes = r.total_nodes ∧
      ∀ i o, r.Advance.transit source i o = r.transit source i o := by
  refine Advance_induction (Q := fun r' => Routed source mine r' ∧
    r'.total_nodes = r.total_nodes ∧ ∀ i o, r'.transit source i o = r.transit source i o)
    ?_ ?_ ⟨h, rfl, fun _ _ => rfl⟩
  · rintro r' n p rest ⟨hr, hnodes, htransit⟩ hbuf hroom
    refine ⟨hr.send hbuf hroom, (send_rest r' n).1.trans hnodes, fun i o => ?_⟩
    rw [transit_send hr hbuf, htransit]
  · rintro r' f k c ⟨hr, hnodes, htransit⟩
    exact ⟨⟨⟨hr.nodes, hr.outputs, hr.in_fits, hr.out_fits⟩, hr.input, hr.output⟩, hnodes, htransit⟩

/-- A router that is not busy holds no packet. -/
theorem Routed.transit_of_idle (h : Routed source mine r) (hidle : r.Busy = false) (i o : Nat) :
    r.transit source i o = [] := by
  have hempty : ∀ n < r.total_nodes, r.in_buffers n = [] ∧ r.out_buffers n = [] := by
    intro n hn
    unfold Busy at hidle
    rw [List.any_eq_false] at hidle
    have := hidle n (List.mem_range.mpr hn)
    simpa using this
  have hin : r.in_buffers i = [] := by
    by_contra hne
    obtain ⟨p, hp⟩ := List.exists_mem_of_ne_nil _ hne
    exact hne (hempty i (h.nodes i p hp).1).1
  have hout : r.out_buffers o = [] := by
    by_contra hne
    obtain ⟨p, hp⟩ := List.exists_mem_of_ne_nil _ hne
    exact hne (hempty o (h.outputs o p hp).1).2
  simp [transit, hin, hout]

/-- A packet that is pushed is the last on its way. -/
theorem Routed.push (h : Routed source mine r) {input output : Nat} {data : α}
    (hroom : r.Has_Buffer_In input 1 = true) (houtput : output < r.total_nodes)
    (hsource : source data = input) (hmine : mine input) {r' : xbar_router α}
    (hrun : r.Push input output data = some r') :
    Routed source mine r' ∧ r'.total_nodes = r.total_nodes ∧
      ∀ i o, r'.transit source i o =
        r.transit source i o ++ if i = input ∧ o = output then [data] else [] := by
  obtain ⟨-, hout, htotal, -, -, hin⟩ := Push_eq_some hrun
  refine ⟨⟨h.toPlaced.push hroom houtput hrun, fun i q hq => ?_, ?_⟩, htotal, fun i o => ?_⟩
  · rw [hin] at hq
    rcases List.mem_append.mp hq with hq | hq
    · exact h.input i q hq
    · split at hq
      · rename_i hi
        rw [List.mem_singleton.mp hq, hi]
        exact ⟨hsource, hmine⟩
      · simp at hq
  · rw [hout]
    exact h.output
  · unfold transit
    rw [hout, hin]
    by_cases hi : i = input
    · by_cases ho : o = output
      · simp [hi, ho]
      · simp [hi, ho, Ne.symm ho]
    · simp [hi]

/-- A packet that is popped was the first on its way. -/
theorem Routed.pop (h : Routed source mine r) {output : Nat} {x : Option α} {r' : xbar_router α}
    (hrun : r.Pop output = some (x, r')) :
    Routed source mine r' ∧ r'.total_nodes = r.total_nodes ∧
      (∀ d ∈ x, mine (source d)) ∧
      ∀ i o, r.transit source i o =
        (x.toList.filter fun d => o = output ∧ source d = i) ++ r'.transit source i o := by
  have hplaced := h.toPlaced.pop hrun
  obtain ⟨hin, htotal, -, -, ⟨rfl, rfl⟩ | ⟨p, rfl, hout⟩⟩ := Pop_eq_some hrun
  · exact ⟨h, rfl, by simp, by simp⟩
  · refine ⟨⟨hplaced, ?_, fun o q hq => h.output o q ?_⟩, htotal, ?_, fun i o => ?_⟩
    · rw [hin]
      exact h.input
    · rw [hout]
      exact List.mem_append_right _ hq
    · intro d hd
      obtain rfl : p.data = d := by simpa using hd
      exact h.output output p (by simp [hout])
    · unfold transit
      rw [hout, hin]
      by_cases ho : o = output
      · by_cases hi : source p.data = i <;> simp [ho, hi]
      · simp [ho]

end

end xbar_router

/-! ## The traffic of a run -/

inductive IcntCall (α : Type)
  | push (input_deviceID output_deviceID : Nat) (data : α)
  | pop (ouput_deviceID : Nat)
  | advance
  deriving DecidableEq, Repr

def IcntCall.isAdvance {α : Type} : IcntCall α → Bool
  | .advance => true
  | _ => false

/-- The interconnect, and what was pushed and popped so far. -/
structure Traffic (α : Type) where
  icnt : LocalInterconnect α
  pushed : List (Nat × Nat × α) := []
  popped : List (Nat × α) := []

/-- The interconnect as it is created. -/
def Traffic.start {α : Type} (n_shader n_mem : Nat) (m_inct_config : inct_config) : Traffic α where
  icnt := .CreateInterconnect n_shader n_mem m_inct_config

namespace Traffic

variable {α : Type}

/-- A call of the simulator. Packets are only pushed to nodes that there are. -/
def step (t : Traffic α) : IcntCall α → Option (Traffic α)
  | .push i o data =>
    if o < t.icnt.n_shader + t.icnt.n_mem then
      (t.icnt.Push i o data).map fun icnt =>
        { t with icnt, pushed := t.pushed ++ [(i, o, data)] }
    else none
  | .pop o =>
    (t.icnt.Pop o).map fun x =>
      { t with icnt := x.2, popped := t.popped ++ x.1.toList.map fun data => (o, data) }
  | .advance => some { t with icnt := t.icnt.Advance }

/-- What was pushed from `i` for `o`. -/
def sent (t : Traffic α) (i o : Nat) : List α :=
  (t.pushed.filter fun e => e.1 = i ∧ e.2.1 = o).map fun e => e.2.2

/-- What came out at `o` from `i`. -/
def arrived (source : α → Nat) (t : Traffic α) (i o : Nat) : List α :=
  (t.popped.filter fun e => e.1 = o ∧ source e.2 = i).map Prod.snd

/-- The calls name the node that a packet is from. -/
def Named (source : α → Nat) : IcntCall α → Prop
  | .push i _ data => source data = i
  | _ => True

end Traffic

/-- What the interconnect holds from `i` for `o`. -/
def LocalInterconnect.inFlight {α : Type} (source : α → Nat) (l : LocalInterconnect α)
    (i o : Nat) : List α :=
  match l.net[l.pushNet i]? with
  | some r => r.transit source i o
  | none => []

section

variable {α : Type} {source : α → Nat} {t t' : Traffic α}

namespace LocalInterconnect

variable {l : LocalInterconnect α}

/-- Network `k` replaced. -/
theorem inFlight_set {k : Nat} {r : xbar_router α} (hk : k < l.net.length) (i o : Nat) :
    ({ l with net := l.net.set k r } : LocalInterconnect α).inFlight source i o =
      if l.pushNet i = k then r.transit source i o else l.inFlight source i o := by
  change (match (l.net.set k r)[l.pushNet i]? with
    | some r => r.transit source i o
    | none => []) = _
  unfold inFlight
  rw [List.getElem?_set]
  by_cases h : k = l.pushNet i
  · rw [if_pos h, if_pos hk, if_pos h.symm]
  · rw [if_neg h, if_neg (Ne.symm h)]

theorem inFlight_of_net {i o : Nat} {r : xbar_router α} (h : l.net[l.pushNet i]? = some r) :
    l.inFlight source i o = r.transit source i o := by
  unfold inFlight
  rw [h]

end LocalInterconnect

namespace Traffic

/-- The invariant of a run. -/
structure Ordered (source : α → Nat) (t : Traffic α) : Prop where
  routed : ∀ k (r : xbar_router α), t.icnt.net[k]? = some r →
    r.Routed source (fun i => t.icnt.pushNet i = k) ∧
      r.total_nodes = t.icnt.n_shader + t.icnt.n_mem
  order : ∀ i o, t.sent i o = t.arrived source i o ++ t.icnt.inFlight source i o

/-- The networks stay routed when one of them is replaced. -/
theorem Ordered.routed_set (h : t.Ordered source) {k : Nat} {r' : xbar_router α}
    (hrouted : r'.Routed source fun i => t.icnt.pushNet i = k)
    (htotal : r'.total_nodes = t.icnt.n_shader + t.icnt.n_mem) (k' : Nat) (s : xbar_router α)
    (hs : (t.icnt.net.set k r')[k']? = some s) :
    s.Routed source (fun i => t.icnt.pushNet i = k') ∧
      s.total_nodes = t.icnt.n_shader + t.icnt.n_mem := by
  rw [List.getElem?_set] at hs
  split at hs
  · rename_i hk
    split at hs
    · obtain rfl := Option.some.inj hs
      exact hk ▸ ⟨hrouted, htotal⟩
    · simp at hs
  · exact h.routed k' s hs

theorem Ordered.push (h : t.Ordered source) {i o : Nat} {data : α}
    (hsource : source data = i) (hrun : t.step (.push i o data) = some t') :
    t'.Ordered source := by
  unfold step LocalInterconnect.Push at hrun
  simp only at hrun
  split at hrun
  · rename_i ho
    obtain ⟨l, hl, rfl⟩ := Option.map_eq_some_iff.mp hrun
    obtain ⟨r, hr, hl⟩ := Option.bind_eq_some_iff.mp hl
    split at hl
    · rename_i hroom
      obtain ⟨r', hpush, rfl⟩ := Option.map_eq_some_iff.mp hl
      obtain ⟨hrouted, htotal⟩ := h.routed _ r hr
      obtain ⟨hrouted', htotal', htransit⟩ :=
        hrouted.push hroom (htotal ▸ ho) hsource rfl hpush
      have hk : t.icnt.pushNet i < t.icnt.net.length := (List.getElem?_eq_some_iff.mp hr).1
      refine ⟨h.routed_set hrouted' (htotal'.trans htotal), fun i' o' => ?_⟩
      have hsent : ((t.pushed ++ [(i, o, data)]).filter fun e => e.1 = i' ∧ e.2.1 = o').map
          (fun e => e.2.2) = t.sent i' o' ++ if i' = i ∧ o' = o then [data] else [] := by
        unfold sent
        by_cases hio : i = i' ∧ o = o'
        · obtain ⟨rfl, rfl⟩ := hio
          simp
        · have hio' : ¬ (i' = i ∧ o' = o) := fun hcon => hio ⟨hcon.1.symm, hcon.2.symm⟩
          simp [hio, hio']
      refine hsent.trans ?_
      rw [h.order i' o', List.append_assoc]
      refine congrArg (t.arrived source i' o' ++ ·) ?_
      rw [LocalInterconnect.inFlight_set hk]
      by_cases hnet : t.icnt.pushNet i' = t.icnt.pushNet i
      · rw [if_pos hnet, htransit, LocalInterconnect.inFlight_of_net (hnet ▸ hr)]
      · have hne : ¬ (i' = i ∧ o' = o) := fun hcon => hnet (hcon.1 ▸ rfl)
        rw [if_neg hnet, if_neg hne, List.append_nil]
    · simp at hl
  · simp at hrun

theorem Ordered.pop (h : t.Ordered source) {o : Nat} (hrun : t.step (.pop o) = some t') :
    t'.Ordered source := by
  unfold step LocalInterconnect.Pop at hrun
  simp only at hrun
  obtain ⟨⟨x, l⟩, hl, rfl⟩ := Option.map_eq_some_iff.mp hrun
  obtain ⟨r, hr, hl⟩ := Option.bind_eq_some_iff.mp hl
  obtain ⟨⟨x', r'⟩, hpop, heq⟩ := Option.map_eq_some_iff.mp hl
  obtain ⟨rfl, rfl⟩ := Prod.mk.inj heq
  obtain ⟨hrouted, htotal⟩ := h.routed _ r hr
  obtain ⟨hrouted', htotal', hmine, htransit⟩ := hrouted.pop hpop
  have hk : t.icnt.popNet o < t.icnt.net.length := (List.getElem?_eq_some_iff.mp hr).1
  refine ⟨h.routed_set hrouted' (htotal'.trans htotal), fun i' o' => ?_⟩
  have harrived : ((t.popped ++ x'.toList.map fun data => (o, data)).filter
      fun e => e.1 = o' ∧ source e.2 = i').map Prod.snd =
      t.arrived source i' o' ++ x'.toList.filter fun d => o' = o ∧ source d = i' := by
    unfold arrived
    cases x' with
    | none => simp
    | some d =>
      by_cases ho : o = o'
      · subst ho
        by_cases hd : source d = i' <;> simp [hd]
      · simp [ho, Ne.symm ho]
  refine (h.order i' o').trans (Eq.trans ?_ (congrArg (· ++ _) harrived.symm))
  rw [List.append_assoc]
  refine congrArg (t.arrived source i' o' ++ ·) ?_
  rw [LocalInterconnect.inFlight_set hk]
  by_cases hnet : t.icnt.pushNet i' = t.icnt.popNet o
  · rw [if_pos hnet, LocalInterconnect.inFlight_of_net (hnet ▸ hr), htransit]
  · have hnone : (x'.toList.filter fun d => o' = o ∧ source d = i') = [] := by
      refine List.filter_eq_nil_iff.mpr fun d hd => ?_
      have hd := hmine d (by simpa using hd)
      simp only [decide_eq_true_eq, not_and]
      exact fun _ hcon => hnet (hcon ▸ hd)
    rw [if_neg hnet, hnone, List.nil_append]

theorem Ordered.advance (h : t.Ordered source) (hrun : t.step .advance = some t') :
    t'.Ordered source := by
  obtain rfl := Option.some.inj hrun
  refine ⟨fun k s hs => ?_, fun i o => ?_⟩
  · obtain ⟨r, hr, rfl⟩ := Option.map_eq_some_iff.mp ((List.getElem?_map ..).symm.trans hs)
    obtain ⟨hrouted, htotal⟩ := h.routed k r hr
    obtain ⟨hrouted', htotal', -⟩ := hrouted.advance
    exact ⟨hrouted', htotal'.trans htotal⟩
  · refine (h.order i o).trans (congrArg (t.arrived source i o ++ ·) ?_)
    have hnet : t.icnt.Advance.net[t.icnt.Advance.pushNet i]? =
        (t.icnt.net[t.icnt.pushNet i]?).map xbar_router.Advance := List.getElem?_map ..
    unfold LocalInterconnect.inFlight
    rw [hnet]
    rcases hr : t.icnt.net[t.icnt.pushNet i]? with _ | r
    · rfl
    · exact ((h.routed _ r hr).1.advance.2.2 i o).symm

theorem Ordered.step {c : IcntCall α} (h : t.Ordered source) (hc : Named source c)
    (hrun : t.step c = some t') : t'.Ordered source := by
  cases c with
  | push i o data => exact h.push hc hrun
  | pop o => exact h.pop hrun
  | advance => exact h.advance hrun

/-- It holds of the interconnect as it is created, and after any calls. -/
theorem Ordered.run {n_shader n_mem : Nat} {config : inct_config} {calls : List (IcntCall α)}
    (hnamed : ∀ c ∈ calls, Named source c)
    (hrun : machines.run Traffic.step (start n_shader n_mem config) calls = some t) :
    t.Ordered source := by
  have hstart : (start (α := α) n_shader n_mem config).Ordered source := by
    have hnet : ∀ (k : Nat) (r : xbar_router α),
        (start (α := α) n_shader n_mem config).icnt.net[k]? = some r →
          r = .new n_shader n_mem config := by
      intro k r hr
      exact List.eq_of_mem_replicate (List.mem_of_getElem? hr)
    refine ⟨fun k r hr => ?_, fun i o => ?_⟩
    · rw [hnet k r hr]
      refine ⟨⟨⟨?_, ?_, ?_, ?_⟩, ?_, ?_⟩, rfl⟩ <;> simp [xbar_router.new]
    · unfold LocalInterconnect.inFlight
      split
      · rename_i r hr
        rw [hnet _ r hr]
        rfl
      · rfl
  exact machines.keeps_run (fun _ _ _ => Ordered.step) hnamed hstart hrun

end Traffic

/-! ## The order of the packets -/

/-- Under both arbiters, what comes out of the interconnect at a node from another
one came in for it in that order: the packets not yet out are in the buffers, none
is lost and none comes twice. Nothing is on its way when the interconnect is idle. -/
theorem packets_arrive_in_order {n_shader n_mem : Nat} {config : inct_config}
    {calls : List (IcntCall α)} (hnamed : ∀ c ∈ calls, Traffic.Named source c)
    (hrun : machines.run Traffic.step (Traffic.start n_shader n_mem config) calls = some t) :
    (∀ i o, t.sent i o = t.arrived source i o ++ t.icnt.inFlight source i o) ∧
      (t.icnt.Busy = false → ∀ i o, t.sent i o = t.arrived source i o) ∧
      ∀ r ∈ t.icnt.net, ∀ n, (r.in_buffers n).length ≤ r.in_buffer_limit ∧
        (r.out_buffers n).length ≤ r.out_buffer_limit := by
  have h := Traffic.Ordered.run hnamed hrun
  refine ⟨h.order, fun hidle i o => ?_, fun r hr n => ?_⟩
  · have hnone : t.icnt.inFlight source i o = [] := by
      unfold LocalInterconnect.inFlight
      split
      · rename_i r hr
        have hbusy := List.any_eq_false.mp hidle r (List.mem_of_getElem? hr)
        exact (h.routed _ r hr).1.transit_of_idle (Bool.eq_false_iff.mpr hbusy) i o
      · rfl
    rw [h.order i o, hnone, List.append_nil]
  · obtain ⟨k, hk⟩ := List.mem_iff_getElem?.mp hr
    obtain ⟨hrouted, -⟩ := h.routed k r hk
    exact ⟨hrouted.in_fits n, hrouted.out_fits n⟩

/-- Two clusters and a partition: the requests 10 and 11 of cluster 0 and 20 of
cluster 1 are pushed, and two of them are popped. -/
theorem two_requests_arrive : ∃ t,
    machines.run Traffic.step (Traffic.start 2 1 ⟨2, 2, 2, .iSLIP, 1⟩)
      [.push 0 2 10, .push 1 2 20, .push 0 2 11, .advance, .advance, .pop 2, .pop 2, .advance] =
        some t ∧
      t.arrived (· / 10 - 1) 0 2 = [10] ∧ t.arrived (· / 10 - 1) 1 2 = [20] ∧
      t.icnt.inFlight (· / 10 - 1) 0 2 = [11] ∧
      ∀ i o, t.sent i o = t.arrived (· / 10 - 1) i o ++ t.icnt.inFlight (· / 10 - 1) i o := by
  have hruns : (machines.run Traffic.step (Traffic.start 2 1 ⟨2, 2, 2, .iSLIP, 1⟩)
      [.push 0 2 10, .push 1 2 20, .push 0 2 11, .advance, .advance, .pop 2, .pop 2,
        .advance]).map (fun t => (t.arrived (· / 10 - 1) 0 2, t.arrived (· / 10 - 1) 1 2,
          t.icnt.inFlight (· / 10 - 1) 0 2)) = some ([10], [20], [11]) := rfl
  obtain ⟨t, hrun, heq⟩ := Option.map_eq_some_iff.mp hruns
  simp only [Prod.mk.injEq] at heq
  refine ⟨t, hrun, heq.1, heq.2.1, heq.2.2, (packets_arrive_in_order ?_ hrun).1⟩
  simp [Traffic.Named]

end

end gpgpu_sim_uvm
