-- No packet starves in the local interconnect: under both arbiters a packet at the
-- front of its input goes over within a fixed number of advances with room.
import GpgpuSimUvm.CrossbarLaws

namespace gpgpu_sim_uvm

namespace xbar_router

variable {α : Type} {r r' : xbar_router α}

/-! ## Distances around the nodes -/

/-- How many nodes come before `n` when one begins at `first` and goes around. -/
def ahead (total first n : Nat) : Nat := (n + total - first) % total

theorem ahead_eq {total first d : Nat} (hd : d < total) (hfirst : first < total) :
    ahead total first ((d + first) % total) = d := by
  unfold ahead
  by_cases hwrap : d + first < total
  · rw [Nat.mod_eq_of_lt hwrap, show d + first + total - first = d + total by omega,
      Nat.add_mod_right, Nat.mod_eq_of_lt hd]
  · have hmod : (d + first) % total = d + first - total := by
      rw [Nat.mod_eq_sub_mod (by omega), Nat.mod_eq_of_lt (by omega)]
    rw [hmod, show d + first - total + total - first = d by omega, Nat.mod_eq_of_lt hd]

/-- A node is at its distance. -/
theorem exists_ahead {total first n : Nat} (hn : n < total) (hfirst : first < total) :
    ∃ d < total, n = (d + first) % total ∧ ahead total first n = d := by
  refine ⟨ahead total first n, Nat.mod_lt _ (by omega), ?_, rfl⟩
  unfold ahead
  rw [Nat.mod_add_mod, show n + total - first + first = n + total by omega, Nat.add_mod_right,
    Nat.mod_eq_of_lt hn]

/-- The distance from the node after the `j`th one. -/
theorem ahead_after {total first d j : Nat} (hd : d < total) (hj : j < d) :
    ahead total (((j + first) % total + 1) % total) ((d + first) % total) = d - j - 1 := by
  have hmod : (d + first) % total =
      (d - j - 1 + ((j + first) % total + 1) % total) % total := by
    rw [Nat.add_mod_mod, ← Nat.add_assoc, Nat.add_right_comm, Nat.add_mod_mod]
    congr 1
    omega
  rw [hmod]
  exact ahead_eq (by omega) (Nat.mod_lt _ (by omega))

/-! ## A packet that waits -/

/-- The packet `p` at the front of node `n`, with `l` behind it, goes over. -/
def Passes (r : xbar_router α) (n : Nat) (p : Packet α) (l : List (Packet α))
    (r' : xbar_router α) : Prop :=
  r'.in_buffers n <:+ l ∧
    r'.out_buffers p.output_deviceID = r.out_buffers p.output_deviceID ++ [p]

theorem in_buffers_send_suffix (r : xbar_router α) (node_id n : Nat) :
    (r.send node_id).in_buffers n <:+ r.in_buffers n := by
  rcases hbuf : r.in_buffers node_id with _ | ⟨p, rest⟩
  · simp [send, hbuf]
  · rw [in_buffers_send hbuf]
    split
    · rename_i hn
      rw [hn, hbuf]
      exact List.suffix_cons p rest
    · exact List.suffix_refl _

/-! ## The round robin -/

/-- What the turns of the round robin do for output `o` and for node `n`. -/
structure Rounds (o n : Nat) (s s' : xbar_router α × (Nat → Bool)) : Prop where
  input : s'.1.in_buffers n <:+ s.1.in_buffers n
  limit : s'.1.out_buffer_limit = s.1.out_buffer_limit
  /-- An output takes one packet. -/
  issued : s.2 o = true → s'.2 o = true ∧ s'.1.out_buffers o = s.1.out_buffers o
  free : s'.2 o = false → s'.1.out_buffers o = s.1.out_buffers o

theorem RR_turn_rounds (o n m : Nat) (s : xbar_router α × (Nat → Bool)) :
    Rounds o n s (RR_turn s m) ∧ (m ≠ n → (RR_turn s m).1.in_buffers n = s.1.in_buffers n) := by
  obtain ⟨heq, -⟩ | ⟨p, rest, hbuf, -, hfree, heq⟩ := RR_turn_cases s m
  · rw [heq]
    exact ⟨⟨List.suffix_refl _, rfl, fun h => ⟨h, rfl⟩, fun _ => rfl⟩, fun _ => rfl⟩
  · rw [heq]
    refine ⟨⟨in_buffers_send_suffix _ _ _, (send_rest _ _).2.2, fun h => ?_, fun h => ?_⟩,
      fun hne => ?_⟩
    · have hne : o ≠ p.output_deviceID := by
        rintro rfl
        simp [hfree] at h
      exact ⟨(Function.update_of_ne hne ..).trans h, by rw [out_buffers_send hbuf, if_neg hne]⟩
    · have hne : o ≠ p.output_deviceID := by
        rintro rfl
        simp at h
      simp only [out_buffers_send hbuf, if_neg hne]
    · simp only [in_buffers_send hbuf, if_neg hne.symm]

theorem Rounds.trans {o n : Nat} {s s' s'' : xbar_router α × (Nat → Bool)} (h : Rounds o n s s')
    (h' : Rounds o n s' s'') : Rounds o n s s'' := by
  refine ⟨h'.input.trans h.input, h'.limit.trans h.limit, fun hs => ?_, fun hs => ?_⟩
  · obtain ⟨hs', hout⟩ := h.issued hs
    obtain ⟨hs'', hout'⟩ := h'.issued hs'
    exact ⟨hs'', hout'.trans hout⟩
  · have hs' : s'.2 o = false := by
      by_contra hcon
      simpa [hs] using (h'.issued (by simpa using hcon)).1
    exact (h'.free hs).trans (h.free hs')

theorem foldl_RR_turn_rounds (o n : Nat) (l : List Nat) (s : xbar_router α × (Nat → Bool)) :
    Rounds o n s (l.foldl RR_turn s) ∧
      (n ∉ l → (l.foldl RR_turn s).1.in_buffers n = s.1.in_buffers n) := by
  induction l generalizing s with
  | nil => exact ⟨⟨List.suffix_refl _, rfl, fun h => ⟨h, rfl⟩, fun _ => rfl⟩, fun _ => rfl⟩
  | cons m l ih =>
    obtain ⟨hturn, hsame⟩ := RR_turn_rounds o n m s
    obtain ⟨hrest, hsame'⟩ := ih (RR_turn s m)
    refine ⟨hturn.trans hrest, fun hn => ?_⟩
    simp only [List.mem_cons, not_or] at hn
    exact (hsame' hn.2).trans (hsame (Ne.symm hn.1))

/-- The nodes before `n` and those behind it. -/
theorem nodesFrom_split {first d : Nat} (hd : d < r.total_nodes) (hfirst : first < r.total_nodes) :
    ∃ front back, r.nodesFrom first = front ++ (d + first) % r.total_nodes :: back ∧
      (d + first) % r.total_nodes ∉ front ∧ (d + first) % r.total_nodes ∉ back ∧
      front.length = d := by
  obtain ⟨front, back, hsplit⟩ := List.append_of_mem (List.mem_range.mpr hd)
  have hnodup : (front ++ d :: back).Nodup := hsplit ▸ List.nodup_range
  have hmem : ∀ j ∈ front ++ d :: back, j < r.total_nodes :=
    fun j hj => List.mem_range.mp (hsplit ▸ hj)
  have hapart : ∀ j ∈ front ++ d :: back, (j + first) % r.total_nodes =
      (d + first) % r.total_nodes → j = d := by
    intro j hj heq
    rw [← ahead_eq (hmem j hj) hfirst, heq, ahead_eq hd hfirst]
  refine ⟨front.map fun j => (j + first) % r.total_nodes,
    back.map fun j => (j + first) % r.total_nodes, ?_, ?_, ?_, ?_⟩
  · unfold nodesFrom
    rw [hsplit, List.map_append, List.map_cons]
  · intro hcon
    obtain ⟨j, hj, heq⟩ := List.mem_map.mp hcon
    obtain rfl := hapart j (by simp [hj]) heq
    exact (List.nodup_append.mp hnodup).2.2 j hj j (by simp) rfl
  · intro hcon
    obtain ⟨j, hj, heq⟩ := List.mem_map.mp hcon
    obtain rfl := hapart j (by simp [hj]) heq
    exact (List.nodup_cons.mp (List.nodup_append.mp hnodup).2.1).1 hj
  · have hget : (List.range r.total_nodes)[front.length]? = some d := by
      rw [hsplit]
      simp
    obtain ⟨hlt, heq⟩ := List.getElem?_eq_some_iff.mp hget
    rw [List.length_map, ← heq, List.getElem_range]

/-- An advance of the round robin sends the packet that waits, or brings its node
nearer to the front. -/
theorem RR_Advance_passes {n : Nat} {p : Packet α} {l : List (Packet α)}
    (hbuf : r.in_buffers n = p :: l) (hn : n < r.total_nodes)
    (hfirst : r.next_node_id < r.total_nodes)
    (hroom : r.Has_Buffer_Out p.output_deviceID 1 = true) :
    r.Passes n p l r.RR_Advance ∨
      r.RR_Advance.in_buffers n = p :: l ∧
        ahead r.total_nodes r.RR_Advance.next_node_id n + 1 =
          ahead r.total_nodes r.next_node_id n := by
  obtain ⟨d, hd, hnd, hahead⟩ := exists_ahead hn hfirst
  obtain ⟨front, back, hnodes, hfront, hback, hlen⟩ := nodesFrom_split hd hfirst
  rw [← hnd] at hnodes hfront hback
  unfold RR_Advance
  simp only [hnodes, List.foldl_append, List.foldl_cons]
  obtain ⟨hbefore, hsame⟩ := foldl_RR_turn_rounds p.output_deviceID n front (r, fun _ => false)
  set s := front.foldl RR_turn (r, fun _ => false)
  have hbuf' : s.1.in_buffers n = p :: l := (hsame hfront).trans hbuf
  obtain ⟨hbehind, hsame'⟩ := foldl_RR_turn_rounds p.output_deviceID n back (RR_turn s n)
  obtain ⟨heq, hissued⟩ | ⟨q, rest, hbuf'', -, hfree, heq⟩ := RR_turn_cases s n
  · right
    refine ⟨?_, ?_⟩
    · rw [hsame' hback, heq]
      exact hbuf'
    · have hpos : d ≠ 0 := by
        -- the first node of the round finds its output free
        rintro rfl
        obtain rfl := List.length_eq_zero_iff.mp hlen
        have := hissued p l hbuf' hroom
        simp [s] at this
      have hafter := @ahead_after r.total_nodes r.next_node_id d 0 hd (Nat.pos_of_ne_zero hpos)
      rw [Nat.zero_add, Nat.mod_eq_of_lt hfirst, ← hnd] at hafter
      rw [hafter, hahead]
      omega
  · left
    obtain ⟨rfl, rfl⟩ := List.cons.inj (hbuf'.symm.trans hbuf'')
    have hsent : (RR_turn s n).2 p.output_deviceID = true := by simp [heq]
    refine ⟨?_, ?_⟩
    · refine hbehind.input.trans ?_
      rw [heq]
      simp only [in_buffers_send hbuf', if_pos]
      exact List.suffix_refl _
    · rw [(hbehind.issued hsent).2, heq]
      simp only [out_buffers_send hbuf', if_pos, hbefore.free hfree]

/-! ## iSLIP -/

/-- What the turns of the other outputs leave for output `o` and node `n`. -/
structure Aside (o n : Nat) (r r' : xbar_router α) : Prop where
  input : r'.in_buffers n <:+ r.in_buffers n
  front : ∀ p l, r.in_buffers n = p :: l → p.output_deviceID = o → r'.in_buffers n = p :: l
  output : r'.out_buffers o = r.out_buffers o
  limit : r'.out_buffer_limit = r.out_buffer_limit
  pointer : r'.next_node o = r.next_node o
  nodes : r'.total_nodes = r.total_nodes
  count : r'.grant_cycles_count = r.grant_cycles_count

theorem Aside.refl (o n : Nat) (r : xbar_router α) : Aside o n r r :=
  ⟨List.suffix_refl _, fun _ _ h _ => h, rfl, rfl, rfl, rfl, rfl⟩

theorem iSLIP_turn_aside {o i : Nat} (n : Nat) (hne : i ≠ o) (r : xbar_router α) :
    Aside o n r (r.iSLIP_turn i) := by
  obtain ⟨heq, -⟩ | ⟨j, p, rest, -, -, hbuf, rfl, -, heq⟩ := iSLIP_turn_cases r i
  · rw [heq]
    exact .refl o n r
  · rw [heq]
    refine ⟨in_buffers_send_suffix _ _ _, fun q l hq ho => ?_, ?_, (send_rest _ _).2.2, ?_,
      (send_rest _ _).1, rfl⟩
    · have hother : n ≠ (j + r.next_node p.output_deviceID) % r.total_nodes := by
        rintro rfl
        obtain ⟨rfl, -⟩ := List.cons.inj (hbuf.symm.trans hq)
        exact hne ho
      exact (in_buffers_send hbuf n).trans ((if_neg hother).trans hq)
    · exact (out_buffers_send hbuf o).trans (if_neg hne.symm)
    · unfold withPointers
      simp only
      split
      · exact Function.update_of_ne hne.symm ..
      · rfl

theorem foldl_iSLIP_turn_aside {o : Nat} (n : Nat) {l : List Nat} (ho : o ∉ l)
    (r : xbar_router α) : Aside o n r (l.foldl iSLIP_turn r) := by
  induction l generalizing r with
  | nil => exact .refl o n r
  | cons i l ih =>
    simp only [List.mem_cons, not_or] at ho
    have hturn := iSLIP_turn_aside n (Ne.symm ho.1) r
    have hrest := ih ho.2 (r.iSLIP_turn i)
    exact ⟨hrest.input.trans hturn.input,
      fun p l hp hout => hrest.front p l (hturn.front p l hp hout) hout,
      hrest.output.trans hturn.output, hrest.limit.trans hturn.limit,
      hrest.pointer.trans hturn.pointer, hrest.nodes.trans hturn.nodes,
      hrest.count.trans hturn.count⟩

/-- An advance of iSLIP sends the packet that waits, or another node is served: the
pointer of the output then stays, or goes on past this node. -/
theorem iSLIP_Advance_passes {n : Nat} {p : Packet α} {l : List (Packet α)}
    (hbuf : r.in_buffers n = p :: l) (hn : n < r.total_nodes)
    (ho : p.output_deviceID < r.total_nodes)
    (hpointer : r.next_node p.output_deviceID < r.total_nodes)
    (hroom : r.Has_Buffer_Out p.output_deviceID 1 = true) :
    r.Passes n p l r.iSLIP_Advance ∨
      r.iSLIP_Advance.in_buffers n = p :: l ∧
        0 < ahead r.total_nodes (r.next_node p.output_deviceID) n ∧
        if r.grant_cycles_count = 1 then
          r.iSLIP_Advance.grant_cycles_count = r.grant_cycles ∧
            ahead r.total_nodes (r.iSLIP_Advance.next_node p.output_deviceID) n <
              ahead r.total_nodes (r.next_node p.output_deviceID) n
        else
          r.iSLIP_Advance.grant_cycles_count = (r.grant_cycles_count + (2 ^ 32 - 1)) % 2 ^ 32 ∧
            r.iSLIP_Advance.next_node p.output_deviceID = r.next_node p.output_deviceID := by
  obtain ⟨front, back, hsplit⟩ := List.append_of_mem (List.mem_range.mpr ho)
  have hnodup : (front ++ p.output_deviceID :: back).Nodup := hsplit ▸ List.nodup_range
  have hfront : p.output_deviceID ∉ front :=
    fun hcon => (List.nodup_append.mp hnodup).2.2 _ hcon _ (by simp) rfl
  have hback : p.output_deviceID ∉ back := (List.nodup_cons.mp (List.nodup_append.mp hnodup).2.1).1
  unfold iSLIP_Advance
  rw [hsplit, List.foldl_append, List.foldl_cons]
  have hbefore := foldl_iSLIP_turn_aside n hfront r
  set s := front.foldl iSLIP_turn r
  have hbehind := foldl_iSLIP_turn_aside n hback (s.iSLIP_turn p.output_deviceID)
  set u := back.foldl iSLIP_turn (s.iSLIP_turn p.output_deviceID)
  have hbuf' : s.in_buffers n = p :: l := hbefore.front p l hbuf rfl
  have hroom' : s.Has_Buffer_Out p.output_deviceID 1 = true := by
    unfold Has_Buffer_Out at hroom ⊢
    rwa [hbefore.output, hbefore.limit]
  obtain ⟨d, hd, hnd, hahead⟩ := exists_ahead hn hpointer
  have hasks : s.requests p.output_deviceID
      ((d + s.next_node p.output_deviceID) % s.total_nodes) = true := by
    rw [hbefore.pointer, hbefore.nodes, ← hnd]
    exact requests_iff.mpr ⟨p, l, hbuf', rfl⟩
  obtain ⟨-, hnone⟩ | ⟨j, q, rest, hj, hfirst, hbuf'', hq, -, heq⟩ :=
    iSLIP_turn_cases s p.output_deviceID
  · have := hnone hroom' d (hbefore.nodes ▸ hd)
    simp [hasks] at this
  · have hjd : j ≤ d := by
      by_contra hcon
      have := hfirst d (by omega)
      simp [hasks] at this
    rw [hbefore.pointer, hbefore.nodes] at hbuf'' heq
    rcases Nat.eq_or_lt_of_le hjd with rfl | hlt
    · left
      rw [← hnd] at hbuf'' heq
      obtain ⟨rfl, rfl⟩ := List.cons.inj (hbuf'.symm.trans hbuf'')
      refine ⟨hbehind.input.trans ?_, hbehind.output.trans ?_⟩
      · rw [heq]
        exact (in_buffers_send hbuf' n).trans (if_pos rfl) ▸ List.suffix_refl _
      · rw [heq]
        refine (out_buffers_send hbuf' _).trans ((if_pos rfl).trans ?_)
        rw [hbefore.output]
    · right
      have hother : n ≠ (j + r.next_node p.output_deviceID) % r.total_nodes := by
        intro hcon
        have hjj := ahead_eq (Nat.lt_trans hlt hd) hpointer
        rw [← hcon, hahead] at hjj
        omega
      have hstill : u.in_buffers n = p :: l := by
        refine hbehind.front p l ?_ rfl
        rw [heq]
        exact (in_buffers_send hbuf'' n).trans ((if_neg hother).trans hbuf')
      have hactive : r.active = true :=
        List.any_eq_true.mpr ⟨n, List.mem_range.mpr hn, by simp [hbuf]⟩
      refine ⟨hstill, by omega, ?_⟩
      simp only [hactive, if_true]
      have hpointer' : u.next_node p.output_deviceID =
          if r.grant_cycles_count = 1 then
            ((j + r.next_node p.output_deviceID) % r.total_nodes + 1) % r.total_nodes
          else r.next_node p.output_deviceID := by
        rw [hbehind.pointer, heq]
        unfold withPointers
        simp only [hbefore.count]
        split
        · exact Function.update_self ..
        · exact hbefore.pointer
      rw [hpointer']
      split
      · refine ⟨rfl, ?_⟩
        rw [hahead, hnd, ahead_after hd hlt]
        omega
      · exact ⟨rfl, rfl⟩

/-! ## The pointers of the arbiters -/

/-- An `unsigned` count is at 1 this many advances after it was set. -/
def span (count : Nat) : Nat := if count = 0 then 2 ^ 32 else count

/-- A count that is not at 1 comes down by one. -/
theorem span_step {count : Nat} (hcount : count < 2 ^ 32) (hone : count ≠ 1) :
    span ((count + (2 ^ 32 - 1)) % 2 ^ 32) + 1 = span count := by
  unfold span
  split <;> split <;> omega

/-- The pointers are at nodes that there are, and the count is on its way down. -/
structure Pointed (r : xbar_router α) : Prop where
  node_id : r.next_node_id < r.total_nodes
  nodes : ∀ o, r.next_node o < r.total_nodes
  grant : r.grant_cycles < 2 ^ 32
  count : r.grant_cycles_count < 2 ^ 32
  left : span r.grant_cycles_count ≤ span r.grant_cycles

/-- What a router is configured to be. -/
def SameConfig (r r' : xbar_router α) : Prop :=
  r'.total_nodes = r.total_nodes ∧ r'.arbit_type = r.arbit_type ∧ r'.grant_cycles = r.grant_cycles

def SamePointers (r r' : xbar_router α) : Prop :=
  r'.next_node = r.next_node ∧ r'.next_node_id = r.next_node_id ∧
    r'.grant_cycles_count = r.grant_cycles_count

theorem Pointed.of_same (h : Pointed r) (hconfig : SameConfig r r')
    (hpointers : SamePointers r r') : Pointed r' := by
  obtain ⟨htotal, -, hgrant⟩ := hconfig
  obtain ⟨hnode, hid, hcount⟩ := hpointers
  refine ⟨?_, fun o => ?_, ?_, ?_, ?_⟩
  · rw [hid, htotal]
    exact h.node_id
  · rw [hnode, htotal]
    exact h.nodes o
  · rw [hgrant]
    exact h.grant
  · rw [hcount]
    exact h.count
  · rw [hcount, hgrant]
    exact h.left

theorem send_same (r : xbar_router α) (n : Nat) :
    SameConfig r (r.send n) ∧ SamePointers r (r.send n) := by
  unfold send
  split <;> exact ⟨⟨rfl, rfl, rfl⟩, rfl, rfl, rfl⟩

theorem Push_same {input output : Nat} {data : α} (hrun : r.Push input output data = some r') :
    SameConfig r r' ∧ SamePointers r r' := by
  unfold Push at hrun
  split at hrun
  · obtain rfl := Option.some.inj hrun
    exact ⟨⟨rfl, rfl, rfl⟩, rfl, rfl, rfl⟩
  · simp at hrun

theorem Pop_same {output : Nat} {x : Option α} (hrun : r.Pop output = some (x, r')) :
    SameConfig r r' ∧ SamePointers r r' := by
  unfold Pop at hrun
  split at hrun
  · split at hrun <;> obtain ⟨-, rfl⟩ := Prod.mk.inj (Option.some.inj hrun) <;>
      exact ⟨⟨rfl, rfl, rfl⟩, rfl, rfl, rfl⟩
  · simp at hrun

theorem Advance_config (r : xbar_router α) : SameConfig r r.Advance := by
  refine Advance_induction (Q := SameConfig r) ?_ (fun _ _ _ _ h => h) ⟨rfl, rfl, rfl⟩
  intro r' n _ _ h _ _
  obtain ⟨htotal, harbit, hgrant⟩ := (send_same r' n).1
  exact ⟨htotal.trans h.1, harbit.trans h.2.1, hgrant.trans h.2.2⟩

theorem foldl_RR_turn_pointed (h : Pointed r) (l : List Nat) (issued : Nat → Bool) :
    Pointed (l.foldl RR_turn (r, issued)).1 := by
  induction l generalizing r issued with
  | nil => exact h
  | cons n l ih =>
    obtain ⟨heq, -⟩ | ⟨p, rest, -, -, -, heq⟩ := RR_turn_cases (r, issued) n
    · rw [List.foldl_cons, heq]
      exact ih h issued
    · rw [List.foldl_cons, heq]
      obtain ⟨hconfig, hpointers⟩ := send_same r n
      exact ih (h.of_same hconfig hpointers) _

theorem foldl_iSLIP_turn_pointed (h : Pointed r) (l : List Nat) :
    Pointed (l.foldl iSLIP_turn r) ∧ (l.foldl iSLIP_turn r).grant_cycles = r.grant_cycles := by
  induction l generalizing r with
  | nil => exact ⟨h, rfl⟩
  | cons i l ih =>
    obtain ⟨heq, -⟩ | ⟨j, p, rest, -, -, -, -, -, heq⟩ := iSLIP_turn_cases r i
    · rw [List.foldl_cons, heq]
      exact ih h
    · obtain ⟨htotal, -, hgrant⟩ := (send_same r ((j + r.next_node i) % r.total_nodes)).1
      have hnext : ∀ o, (if r.grant_cycles_count = 1 then
          Function.update r.next_node i (((j + r.next_node i) % r.total_nodes + 1) % r.total_nodes)
          else r.next_node) o < r.total_nodes := by
        intro o
        split
        · rw [Function.update_apply]
          split
          · exact Nat.mod_lt _ (Nat.zero_lt_of_lt h.node_id)
          · exact h.nodes o
        · exact h.nodes o
      have hpointed : Pointed (r.iSLIP_turn i) := by
        rw [heq]
        exact ⟨Nat.lt_of_lt_of_eq h.node_id htotal.symm,
          fun o => Nat.lt_of_lt_of_eq (hnext o) htotal.symm, lt_of_eq_of_lt hgrant h.grant, h.count,
          le_of_le_of_eq h.left (congrArg span hgrant.symm)⟩
      obtain ⟨hfold, hgrant'⟩ := ih hpointed
      rw [heq] at hfold hgrant'
      rw [List.foldl_cons, heq]
      exact ⟨hfold, hgrant'.trans hgrant⟩

theorem Pointed.advance (h : Pointed r) : Pointed r.Advance := by
  have hpos : 0 < r.total_nodes := Nat.zero_lt_of_lt h.node_id
  have htotal := (Advance_config r).1
  revert htotal
  unfold Advance
  split
  · intro htotal
    have hfold := foldl_RR_turn_pointed h (r.nodesFrom r.next_node_id) fun _ => false
    exact ⟨htotal ▸ Nat.mod_lt _ hpos, hfold.nodes, hfold.grant, hfold.count, hfold.left⟩
  · intro _
    obtain ⟨hfold, hgrant⟩ := foldl_iSLIP_turn_pointed h (List.range r.total_nodes)
    have hgrant' := h.grant
    have hcount := h.count
    have hleft := h.left
    unfold iSLIP_Advance
    refine ⟨hfold.node_id, hfold.nodes, hfold.grant, ?_, ?_⟩
    · simp only
      split
      · split
        · exact hgrant'
        · exact Nat.mod_lt _ (by decide)
      · exact hcount
    · simp only [hgrant]
      split
      · split
        · exact Nat.le_refl _
        · rename_i hone
          have hspan := span_step hcount hone
          omega
      · exact hleft

/-! ## The rank of a packet that waits -/

/-- How many advances with room the front packet of `n` for `o` waits at most. -/
def rank (r : xbar_router α) (n o : Nat) : Nat :=
  match r.arbit_type with
  | .NAIVE_RR => ahead r.total_nodes r.next_node_id n
  | .iSLIP =>
    ahead r.total_nodes (r.next_node o) n * span r.grant_cycles -
      (span r.grant_cycles - span r.grant_cycles_count)

theorem Pointed.advance_passes (h : Pointed r) {n : Nat} {p : Packet α} {l : List (Packet α)}
    (hbuf : r.in_buffers n = p :: l) (hn : n < r.total_nodes)
    (ho : p.output_deviceID < r.total_nodes)
    (hroom : r.Has_Buffer_Out p.output_deviceID 1 = true) :
    r.Passes n p l r.Advance ∨ r.Advance.in_buffers n = p :: l ∧
      r.Advance.rank n p.output_deviceID + 1 ≤ r.rank n p.output_deviceID := by
  obtain ⟨htotal, harbit, hgrant⟩ := Advance_config r
  unfold rank
  rw [harbit, htotal, hgrant]
  rcases harbit' : r.arbit_type
  all_goals simp only [Advance, harbit']
  · refine (RR_Advance_passes hbuf hn h.node_id hroom).imp_right fun ⟨hbuf', hahead⟩ => ?_
    exact ⟨hbuf', Nat.le_of_eq hahead⟩
  · refine (iSLIP_Advance_passes hbuf hn ho (h.nodes _) hroom).imp_right ?_
    rintro ⟨hbuf', hpos, hpointer⟩
    refine ⟨hbuf', ?_⟩
    have hleft := h.left
    have hcount := h.count
    have hpos' : 0 < span r.grant_cycles_count := by
      unfold span
      split <;> omega
    have hmul : span r.grant_cycles ≤
        ahead r.total_nodes (r.next_node p.output_deviceID) n * span r.grant_cycles :=
      Nat.le_mul_of_pos_left _ hpos
    split at hpointer
    · rename_i hone
      -- the pointer has moved on, and the count begins again
      have hmul' := Nat.mul_le_mul_right (span r.grant_cycles) (Nat.succ_le_of_lt hpointer.2)
      rw [Nat.succ_mul] at hmul'
      have hspan : span r.grant_cycles_count = 1 := by simp [span, hone]
      rw [hpointer.1, hspan]
      omega
    · rename_i hone
      have hspan := span_step hcount hone
      rw [hpointer.1, hpointer.2]
      omega

theorem rank_of_same (hconfig : SameConfig r r') (hpointers : SamePointers r r') (n o : Nat) :
    r'.rank n o = r.rank n o := by
  obtain ⟨htotal, harbit, hgrant⟩ := hconfig
  obtain ⟨hnode, hid, hcount⟩ := hpointers
  unfold rank
  rw [htotal, harbit, hgrant, hnode, hid, hcount]

/-- The advances with room that a packet waits at most before the one that takes it. -/
def patience (config : inct_config) (total_nodes : Nat) : Nat :=
  match config.arbiter_algo with
  | .NAIVE_RR => total_nodes - 1
  | .iSLIP => (total_nodes - 1) * span config.grant_cycles

/-- A router of this configuration, with its packets and its pointers in order. -/
structure Sound (config : inct_config) (total_nodes : Nat) (r : xbar_router α) : Prop where
  placed : Placed r
  total : r.total_nodes = total_nodes
  arbiter : r.arbit_type = config.arbiter_algo
  grant : r.grant_cycles = config.grant_cycles
  pointed : 0 < total_nodes → Pointed r

section

variable {config : inct_config} {total_nodes : Nat}

theorem Sound.of_same (h : Sound config total_nodes r) (hplaced : Placed r')
    (hconfig : SameConfig r r') (hpointed : Pointed r → Pointed r') :
    Sound config total_nodes r' :=
  ⟨hplaced, hconfig.1.trans h.total, hconfig.2.1.trans h.arbiter, hconfig.2.2.trans h.grant,
    fun hpos => hpointed (h.pointed hpos)⟩

theorem Sound.rank_le (h : Sound config total_nodes r) (hpos : 0 < total_nodes) (n o : Nat) :
    r.rank n o ≤ patience config total_nodes := by
  have hahead : ∀ first, ahead total_nodes first n ≤ total_nodes - 1 :=
    fun first => Nat.le_sub_one_of_lt (Nat.mod_lt _ hpos)
  unfold rank patience
  rw [h.arbiter, h.total, h.grant]
  cases config.arbiter_algo with
  | NAIVE_RR => exact hahead _
  | iSLIP => exact Nat.le_trans (Nat.sub_le _ _) (Nat.mul_le_mul_right _ (hahead _))

theorem Sound.new (hgrant : config.grant_cycles < 2 ^ 32) (n_shader n_mem : Nat) :
    Sound config (n_shader + n_mem) (.new n_shader n_mem config : xbar_router α) := by
  refine ⟨⟨?_, ?_, ?_, ?_⟩, rfl, rfl, rfl, fun hpos => ⟨hpos, fun _ => hpos, hgrant, hgrant,
    Nat.le_refl _⟩⟩ <;> simp [xbar_router.new]

end

/-! ## Calls -/

/-- What a call of the interconnect does to one of its networks. -/
inductive Called (r : xbar_router α) : IcntCall α → xbar_router α → Prop
  | push {i o : Nat} {data : α} {r' : xbar_router α} (hroom : r.Has_Buffer_In i 1 = true)
    (ho : o < r.total_nodes) (hrun : r.Push i o data = some r') : Called r (.push i o data) r'
  | pop {o : Nat} {x : Option α} {r' : xbar_router α} (hrun : r.Pop o = some (x, r')) :
    Called r (.pop o) r'
  | apart {c : IcntCall α} (hc : c.isAdvance = false) : Called r c r
  | advance : Called r .advance r.Advance

theorem Placed.advance (h : Placed r) : Placed r.Advance := by
  refine Advance_induction (Q := Placed) ?_ ?_ h
  · exact fun r' n p rest hr hbuf hroom => hr.send hbuf hroom
  · exact fun r' _ _ _ hr => ⟨hr.nodes, hr.outputs, hr.in_fits, hr.out_fits⟩

theorem Sound.called {config : inct_config} {total_nodes : Nat} {c : IcntCall α}
    (h : Sound config total_nodes r) (hcall : r.Called c r') : Sound config total_nodes r' := by
  cases hcall with
  | push hroom ho hrun =>
    obtain ⟨hconfig, hpointers⟩ := Push_same hrun
    exact h.of_same (h.placed.push hroom ho hrun) hconfig (·.of_same hconfig hpointers)
  | pop hrun =>
    obtain ⟨hconfig, hpointers⟩ := Pop_same hrun
    exact h.of_same (h.placed.pop hrun) hconfig (·.of_same hconfig hpointers)
  | apart => exact h
  | advance => exact h.of_same h.placed.advance (Advance_config r) Pointed.advance

/-- A call passes the packet that waits on, or leaves it in front: an advance with
room then lowers its rank, and the other calls leave the rank as it is. -/
theorem Sound.waits {config : inct_config} {total_nodes : Nat} {c : IcntCall α} {n : Nat}
    {p : Packet α} {l : List (Packet α)} (h : Sound config total_nodes r)
    (hcall : r.Called c r') (hbuf : r.in_buffers n = p :: l)
    (hroom : c.isAdvance = true → r.Has_Buffer_Out p.output_deviceID 1 = true) :
    (c = .advance ∧ r.Passes n p l r') ∨
      (∃ more, r'.in_buffers n = p :: (l ++ more)) ∧
        r'.rank n p.output_deviceID + (if c.isAdvance then 1 else 0) ≤
          r.rank n p.output_deviceID := by
  have hnodes := h.placed.nodes n p (by simp [hbuf])
  have hpointed := h.pointed (h.total ▸ Nat.zero_lt_of_lt hnodes.1)
  cases hcall with
  | push hin ho hrun =>
    right
    obtain ⟨hconfig, hpointers⟩ := Push_same hrun
    obtain ⟨-, -, -, -, -, hpush⟩ := Push_eq_some hrun
    refine ⟨⟨_, by rw [hpush, hbuf, List.cons_append]⟩, ?_⟩
    simp [rank_of_same hconfig hpointers, IcntCall.isAdvance]
  | pop hrun =>
    right
    obtain ⟨hconfig, hpointers⟩ := Pop_same hrun
    obtain ⟨hpop, -⟩ := Pop_eq_some hrun
    refine ⟨⟨[], by rw [hpop, hbuf, List.append_nil]⟩, ?_⟩
    simp [rank_of_same hconfig hpointers, IcntCall.isAdvance]
  | apart hc =>
    right
    refine ⟨⟨[], by rw [hbuf, List.append_nil]⟩, ?_⟩
    simp [hc]
  | advance =>
    refine (hpointed.advance_passes hbuf hnodes.1 hnodes.2 (hroom rfl)).imp (⟨rfl, ·⟩) ?_
    rintro ⟨hbuf', hrank⟩
    refine ⟨⟨[], by rw [hbuf', List.append_nil]⟩, ?_⟩
    simpa [IcntCall.isAdvance] using hrank

end xbar_router

/-! ## The networks -/

namespace Traffic

variable {α : Type} {t t' : Traffic α} {config : inct_config} {total_nodes : Nat}

/-- Each network is in order. -/
structure Sound (config : inct_config) (total_nodes : Nat) (t : Traffic α) : Prop where
  nodes : t.icnt.n_shader + t.icnt.n_mem = total_nodes
  nets : ∀ r ∈ t.icnt.net, xbar_router.Sound config total_nodes r

/-- A call is one for each network. -/
theorem Sound.step_net (h : t.Sound config total_nodes) {c : IcntCall α} (hrun : t.step c = some t') :
    t'.icnt.n_shader + t'.icnt.n_mem = total_nodes ∧
      t'.icnt.net.length = t.icnt.net.length ∧
      ∀ (k : Nat) (r : xbar_router α), t.icnt.net[k]? = some r →
        ∃ r', t'.icnt.net[k]? = some r' ∧ r.Called c r' := by
  have hset : ∀ (j : Nat) (s s' : xbar_router α), t.icnt.net[j]? = some s →
      c.isAdvance = false → s.Called c s' →
      ∀ (k : Nat) (r : xbar_router α), t.icnt.net[k]? = some r →
        ∃ r', (t.icnt.net.set j s')[k]? = some r' ∧ r.Called c r' := by
    intro j s s' hs hc hcall k r hr
    rw [List.getElem?_set]
    by_cases hjk : j = k
    · subst hjk
      obtain rfl := Option.some.inj (hs.symm.trans hr)
      exact ⟨s', by rw [if_pos rfl, if_pos (List.getElem?_eq_some_iff.mp hr).1], hcall⟩
    · exact ⟨r, by rw [if_neg hjk, hr], .apart hc⟩
  cases c with
  | push i o data =>
    unfold step LocalInterconnect.Push at hrun
    simp only at hrun
    split at hrun
    · rename_i ho
      obtain ⟨l, hl, rfl⟩ := Option.map_eq_some_iff.mp hrun
      obtain ⟨r, hr, hl⟩ := Option.bind_eq_some_iff.mp hl
      split at hl
      · rename_i hroom
        obtain ⟨r', hpush, rfl⟩ := Option.map_eq_some_iff.mp hl
        have htotal := h.nodes.trans (h.nets r (List.mem_of_getElem? hr)).total.symm
        exact ⟨h.nodes, List.length_set, hset _ r r' hr rfl (.push hroom (htotal ▸ ho) hpush)⟩
      · simp at hl
    · simp at hrun
  | pop o =>
    unfold step LocalInterconnect.Pop at hrun
    simp only at hrun
    obtain ⟨⟨x, l⟩, hl, rfl⟩ := Option.map_eq_some_iff.mp hrun
    obtain ⟨r, hr, hl⟩ := Option.bind_eq_some_iff.mp hl
    obtain ⟨⟨x', r'⟩, hpop, heq⟩ := Option.map_eq_some_iff.mp hl
    obtain ⟨rfl, rfl⟩ := Prod.mk.inj heq
    exact ⟨h.nodes, List.length_set, hset _ r r' hr rfl (.pop hpop)⟩
  | advance =>
    obtain rfl := Option.some.inj hrun
    refine ⟨h.nodes, List.length_map .., fun k r hr => ?_⟩
    exact ⟨r.Advance, by simp [LocalInterconnect.Advance, hr], .advance⟩

theorem Sound.step {c : IcntCall α} (h : t.Sound config total_nodes)
    (hrun : t.step c = some t') : t'.Sound config total_nodes := by
  obtain ⟨hnodes, hlen, hnet⟩ := h.step_net hrun
  refine ⟨hnodes, fun r' hr' => ?_⟩
  obtain ⟨k, hk⟩ := List.mem_iff_getElem?.mp hr'
  have hlt : k < t.icnt.net.length := hlen ▸ (List.getElem?_eq_some_iff.mp hk).1
  obtain ⟨s', hs', hcall⟩ := hnet k _ (List.getElem?_eq_getElem hlt)
  obtain rfl := Option.some.inj (hk.symm.trans hs')
  exact (h.nets _ (List.getElem_mem hlt)).called hcall

theorem Sound.run {n_shader n_mem : Nat} (hgrant : config.grant_cycles < 2 ^ 32)
    {calls : List (IcntCall α)}
    (hrun : machines.run Traffic.step (start n_shader n_mem config) calls = some t) :
    t.Sound config (n_shader + n_mem) := by
  refine machines.keeps_run (fun _ _ _ h (_ : True) hrun => h.step hrun)
    (fun _ _ => trivial) ⟨rfl, fun r hr => ?_⟩ hrun
  rw [List.eq_of_mem_replicate hr]
  exact .new hgrant n_shader n_mem

/-- The packet `p` is at the front of node `n` of network `k`, with `rest` behind it
and what was pushed since. -/
def Waits (k n : Nat) (p : Packet α) (rest : List (Packet α)) (t : Traffic α) : Prop :=
  ∃ r more, t.icnt.net[k]? = some r ∧ r.in_buffers n = p :: (rest ++ more)

/-- The advance that takes it. -/
def Takes (k n : Nat) (p : Packet α) (rest : List (Packet α)) (t t' : Traffic α) : Prop :=
  ∃ r r' more, t.icnt.net[k]? = some r ∧ t'.icnt.net[k]? = some r' ∧
    r.in_buffers n = p :: (rest ++ more) ∧ r.Passes n p (rest ++ more) r'

/-- The output of the packet has room for one more. -/
def Room (k o : Nat) (t : Traffic α) : Prop :=
  ∀ r ∈ t.icnt.net[k]?, r.Has_Buffer_Out o 1 = true

instance (k o : Nat) (t : Traffic α) : Decidable (t.Room k o) :=
  inferInstanceAs (Decidable (∀ r ∈ t.icnt.net[k]?, r.Has_Buffer_Out o 1 = true))

/-- The rank of the packet for `o` at the front of node `n`. -/
def rank (k n o : Nat) (t : Traffic α) : Nat :=
  match t.icnt.net[k]? with
  | some r => r.rank n o
  | none => 0

theorem rank_of_net {k n o : Nat} {r : xbar_router α} (h : t.icnt.net[k]? = some r) :
    t.rank k n o = r.rank n o := by
  unfold rank
  rw [h]

/-- A call takes the packet that waits, or leaves it waiting with its rank, which an
advance lowers. -/
theorem Sound.waits {c : IcntCall α} {k n : Nat} {p : Packet α} {rest : List (Packet α)}
    (h : t.Sound config total_nodes) (hwaits : t.Waits k n p rest)
    (hroom : c.isAdvance = true → t.Room k p.output_deviceID) (hrun : t.step c = some t') :
    (c = .advance ∧ Takes k n p rest t t') ∨
      t'.Waits k n p rest ∧
        t'.rank k n p.output_deviceID + (if c.isAdvance then 1 else 0) ≤
          t.rank k n p.output_deviceID := by
  obtain ⟨r, more, hr, hbuf⟩ := hwaits
  obtain ⟨-, -, hnet⟩ := h.step_net hrun
  obtain ⟨r', hr', hcall⟩ := hnet k r hr
  rcases (h.nets r (List.mem_of_getElem? hr)).waits hcall hbuf (fun hc => hroom hc r hr) with
    ⟨hc, hpasses⟩ | ⟨⟨new, hbuf'⟩, hrank⟩
  · exact .inl ⟨hc, r, r', more, hr, hr', hbuf, hpasses⟩
  · rw [List.append_assoc] at hbuf'
    refine .inr ⟨⟨r', more ++ new, hr', hbuf'⟩, ?_⟩
    rwa [rank_of_net hr, rank_of_net hr']

end Traffic

/-- Under both arbiters a packet at the front of its input never starves: after any
calls, once it is in front and as long as its output has room at each advance, one
of the next `patience + 1` advances takes it over. -/
theorem no_packet_starves {α : Type} {config : inct_config} {n_shader n_mem : Nat}
    {before calls : List (IcntCall α)} {t t' : Traffic α}
    (hgrant : config.grant_cycles < 2 ^ 32)
    (hbefore : machines.run Traffic.step (.start n_shader n_mem config) before = some t)
    (hrun : machines.run Traffic.step t calls = some t') {k n : Nat} {p : Packet α}
    {rest : List (Packet α)} (hwaits : t.Waits k n p rest)
    (hroom : machines.Allowed Traffic.step
      (fun u c => c.isAdvance = true → u.Room k p.output_deviceID) t calls)
    (hcalls : xbar_router.patience config (n_shader + n_mem) < calls.countP IcntCall.isAdvance) :
    ∃ front back u v, calls = front ++ .advance :: back ∧
      machines.run Traffic.step t front = some u ∧ u.step .advance = some v ∧
      Traffic.Takes k n p rest u v := by
  have hsound := Traffic.Sound.run hgrant hbefore
  have hrank : t.rank k n p.output_deviceID < calls.countP IcntCall.isAdvance := by
    obtain ⟨r, more, hr, hbuf⟩ := hwaits
    have hsound' := hsound.nets r (List.mem_of_getElem? hr)
    have hnode := (hsound'.placed.nodes n p (by simp [hbuf])).1
    rw [Traffic.rank_of_net hr]
    exact Nat.lt_of_le_of_lt
      (hsound'.rank_le (hsound'.total ▸ Nat.zero_lt_of_lt hnode) n p.output_deviceID) hcalls
  obtain ⟨front, c, back, u, v, heq, hfront, hstep, rfl, htakes⟩ := machines.served_within
    (fun u => u.Sound config (n_shader + n_mem) ∧ u.Waits k n p rest)
    (Traffic.rank k n p.output_deviceID)
    (fun u c v => c = .advance ∧ Traffic.Takes k n p rest u v)
    (fun u c v ⟨hu, hw⟩ hok hstep =>
      (hu.waits hw hok hstep).imp_right fun ⟨hw', hless⟩ => ⟨⟨hu.step hstep, hw'⟩, hless⟩)
    hroom ⟨hsound, hwaits⟩ hrun hrank
  exact ⟨front, back, u, v, heq, hfront, hstep, htakes⟩

/-- Three clusters send to one partition: the request of cluster 2 comes behind those
of the others, and is taken at the third advance. -/
theorem the_last_cluster_is_served : ∃ t t' : Traffic Nat,
    machines.run Traffic.step (.start 3 1 ⟨4, 4, 2, .iSLIP, 1⟩)
      [.push 0 3 10, .push 1 3 20, .push 2 3 30, .push 0 3 11] = some t ∧
    machines.run Traffic.step t [.advance, .advance, .push 1 3 21, .advance, .pop 3, .advance] =
      some t' ∧
    ∃ front back u v,
      [.advance, .advance, .push 1 3 21, .advance, .pop 3, .advance] = front ++ .advance :: back ∧
      machines.run Traffic.step t front = some u ∧ u.step .advance = some v ∧
      Traffic.Takes 0 2 ⟨30, 3⟩ [] u v := by
  have hruns : ((machines.run Traffic.step (.start 3 1 ⟨4, 4, 2, .iSLIP, 1⟩)
      [.push 0 3 10, .push 1 3 20, .push 2 3 30, .push 0 3 11]).bind fun t =>
        (machines.run Traffic.step t
          [.advance, .advance, .push 1 3 21, .advance, .pop 3, .advance]).map fun _ =>
            ((t.icnt.net[0]?).map fun r => r.in_buffers 2,
              decide (machines.Allowed Traffic.step (fun u c => c.isAdvance = true → u.Room 0 3) t
                [.advance, .advance, .push 1 3 21, .advance, .pop 3, .advance]))) =
      some (some [⟨30, 3⟩], true) := rfl
  obtain ⟨t, hbefore, hruns⟩ := Option.bind_eq_some_iff.mp hruns
  obtain ⟨t', hrun, heq⟩ := Option.map_eq_some_iff.mp hruns
  obtain ⟨hbuf, hroom⟩ := Prod.mk.inj heq
  obtain ⟨r, hr, hbuf⟩ := Option.map_eq_some_iff.mp hbuf
  exact ⟨t, t', hbefore, hrun, no_packet_starves (by decide) hbefore hrun
    ⟨r, [], hr, hbuf⟩ (of_decide_eq_true hroom) (by decide)⟩

end gpgpu_sim_uvm
