-- The local interconnect (local_interconnect.cc): a crossbar between the shader
-- clusters and the memory partitions, one network for requests and one for replies.
import Mathlib.Algebra.Group.Nat.Defs
import Mathlib.Logic.Function.Basic
import Mathlib.Tactic.Common

namespace gpgpu_sim_uvm

/-! ## One crossbar -/

inductive Arbiteration_type
  | NAIVE_RR | iSLIP
  deriving DecidableEq, Repr

structure inct_config where
  in_buffer_limit : Nat
  out_buffer_limit : Nat
  subnets : Nat
  arbiter_algo : Arbiteration_type
  grant_cycles : Nat
  deriving DecidableEq, Repr

structure Packet (α : Type) where
  data : α
  output_deviceID : Nat
  deriving DecidableEq, Repr

structure xbar_router (α : Type) where
  in_buffers : Nat → List (Packet α)
  out_buffers : Nat → List (Packet α)
  total_nodes : Nat
  in_buffer_limit : Nat
  out_buffer_limit : Nat
  /-- Where iSLIP begins for each output. -/
  next_node : Nat → Nat
  /-- Where the round robin begins. -/
  next_node_id : Nat
  arbit_type : Arbiteration_type
  grant_cycles : Nat
  grant_cycles_count : Nat

namespace xbar_router

variable {α : Type}

/-- The constructor. -/
def new (n_shader n_mem : Nat) (m_localinct_config : inct_config) : xbar_router α where
  in_buffers _ := []
  out_buffers _ := []
  total_nodes := n_shader + n_mem
  in_buffer_limit := m_localinct_config.in_buffer_limit
  out_buffer_limit := m_localinct_config.out_buffer_limit
  next_node _ := 0
  next_node_id := 0
  arbit_type := m_localinct_config.arbiter_algo
  grant_cycles := m_localinct_config.grant_cycles
  grant_cycles_count := m_localinct_config.grant_cycles

def Has_Buffer_In (r : xbar_router α) (input_deviceID size : Nat) : Bool :=
  (r.in_buffers input_deviceID).length + size ≤ r.in_buffer_limit

def Has_Buffer_Out (r : xbar_router α) (output_deviceID size : Nat) : Bool :=
  (r.out_buffers output_deviceID).length + size ≤ r.out_buffer_limit

/-- None where the assertion on the device fails. -/
def Push (r : xbar_router α) (input_deviceID output_deviceID : Nat) (data : α) :
    Option (xbar_router α) :=
  if input_deviceID < r.total_nodes then
    some
      { r with
        in_buffers := Function.update r.in_buffers input_deviceID
          (r.in_buffers input_deviceID ++ [⟨data, output_deviceID⟩]) }
  else none

/-- The data is NULL where the buffer is empty. -/
def Pop (r : xbar_router α) (ouput_deviceID : Nat) : Option (Option α × xbar_router α) :=
  if ouput_deviceID < r.total_nodes then
    match r.out_buffers ouput_deviceID with
    | [] => some (none, r)
    | p :: rest =>
      some (some p.data, { r with out_buffers := Function.update r.out_buffers ouput_deviceID rest })
  else none

/-- The front packet of `node_id` goes over to its output. -/
def send (r : xbar_router α) (node_id : Nat) : xbar_router α :=
  match r.in_buffers node_id with
  | [] => r
  | p :: rest =>
    { r with
      out_buffers := Function.update r.out_buffers p.output_deviceID
        (r.out_buffers p.output_deviceID ++ [p])
      in_buffers := Function.update r.in_buffers node_id rest }

/-- One turn of the loop of `RR_Advance`, with what was issued so far. -/
def RR_turn (s : xbar_router α × (Nat → Bool)) (node_id : Nat) : xbar_router α × (Nat → Bool) :=
  match (s.1.in_buffers node_id).head? with
  | none => s
  | some p =>
    if s.1.Has_Buffer_Out p.output_deviceID 1 && !s.2 p.output_deviceID then
      (s.1.send node_id, Function.update s.2 p.output_deviceID true)
    else s

/-- The nodes from `first` on, around. -/
def nodesFrom (r : xbar_router α) (first : Nat) : List Nat :=
  (List.range r.total_nodes).map fun i => (i + first) % r.total_nodes

def RR_Advance (r : xbar_router α) : xbar_router α :=
  { ((r.nodesFrom r.next_node_id).foldl RR_turn (r, fun _ => false)).1 with
    next_node_id := (r.next_node_id + 1) % r.total_nodes }

/-- The front packet of `node_id` goes to output `i`. -/
def requests (r : xbar_router α) (i node_id : Nat) : Bool :=
  match (r.in_buffers node_id).head? with
  | none => false
  | some p => p.output_deviceID = i

/-- One turn of the loop of `iSLIP_Advance` over the outputs. -/
def iSLIP_turn (r : xbar_router α) (i : Nat) : xbar_router α :=
  if r.Has_Buffer_Out i 1 then
    match (r.nodesFrom (r.next_node i)).find? (r.requests i) with
    | none => r
    | some node_id =>
      if r.grant_cycles_count = 1 then
        { r.send node_id with
          next_node := Function.update r.next_node i ((node_id + 1) % r.total_nodes) }
      else r.send node_id
  else r

/-- Some input buffer is not empty. -/
def active (r : xbar_router α) : Bool :=
  (List.range r.total_nodes).any fun i => !(r.in_buffers i).isEmpty

def iSLIP_Advance (r : xbar_router α) : xbar_router α :=
  { (List.range r.total_nodes).foldl iSLIP_turn r with
    grant_cycles_count :=
      if r.active then
        if r.grant_cycles_count = 1 then r.grant_cycles
        -- an `unsigned`, that comes down from 0 to its largest value
        else (r.grant_cycles_count + (2 ^ 32 - 1)) % 2 ^ 32
      else r.grant_cycles_count }

def Advance (r : xbar_router α) : xbar_router α :=
  match r.arbit_type with
  | .NAIVE_RR => r.RR_Advance
  | .iSLIP => r.iSLIP_Advance

def Busy (r : xbar_router α) : Bool :=
  (List.range r.total_nodes).any fun i =>
    !(r.in_buffers i).isEmpty || !(r.out_buffers i).isEmpty

end xbar_router

/-! ## The networks -/

/-- The networks between `n_shader` clusters and `n_mem` partitions. -/
structure LocalInterconnect (α : Type) where
  n_shader : Nat
  n_mem : Nat
  n_subnets : Nat
  net : List (xbar_router α)

namespace LocalInterconnect

variable {α : Type}

def CreateInterconnect (m_n_shader m_n_mem : Nat) (m_inct_config : inct_config) :
    LocalInterconnect α where
  n_shader := m_n_shader
  n_mem := m_n_mem
  n_subnets := m_inct_config.subnets
  net := List.replicate m_inct_config.subnets (xbar_router.new m_n_shader m_n_mem m_inct_config)

/-- The network that a device pushes into: `REQ_NET` is 0, `REPLY_NET` is 1. -/
def pushNet (l : LocalInterconnect α) (input_deviceID : Nat) : Nat :=
  if l.n_subnets = 1 then 0 else if input_deviceID < l.n_shader then 0 else 1

def popNet (l : LocalInterconnect α) (ouput_deviceID : Nat) : Nat :=
  if ouput_deviceID < l.n_shader then 1 else 0

def HasBuffer (l : LocalInterconnect α) (deviceID : Nat) : Option Bool :=
  (l.net[if 1 < l.n_subnets ∧ l.n_shader ≤ deviceID then 1 else 0]?).map fun r =>
    r.Has_Buffer_In deviceID 1

/-- None where there is no such network, or where the buffer is full. -/
def Push (l : LocalInterconnect α) (input_deviceID output_deviceID : Nat) (data : α) :
    Option (LocalInterconnect α) :=
  (l.net[l.pushNet input_deviceID]?).bind fun r =>
    if r.Has_Buffer_In input_deviceID 1 then
      (r.Push input_deviceID output_deviceID data).map fun r' =>
        { l with net := l.net.set (l.pushNet input_deviceID) r' }
    else none

def Pop (l : LocalInterconnect α) (ouput_deviceID : Nat) :
    Option (Option α × LocalInterconnect α) :=
  (l.net[l.popNet ouput_deviceID]?).bind fun r =>
    (r.Pop ouput_deviceID).map fun x =>
      (x.1, { l with net := l.net.set (l.popNet ouput_deviceID) x.2 })

def Advance (l : LocalInterconnect α) : LocalInterconnect α :=
  { l with net := l.net.map xbar_router.Advance }

def Busy (l : LocalInterconnect α) : Bool := l.net.any xbar_router.Busy

end LocalInterconnect

end gpgpu_sim_uvm
