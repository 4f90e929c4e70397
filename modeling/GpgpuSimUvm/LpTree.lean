-- The large-page trees of the GMMU (`lp_tree_node`). A tree of 64KB basic
-- blocks counts, for each node, the bytes of its pages that are resident or
-- on their way. A leaf of a tree is a node of MIN_PREFETCH_SIZE bytes: the
-- loops of the source that go down until that size go down to a leaf here.
import GpgpuSimUvm.Types

namespace gpgpu_sim_uvm

/-- The fields of `lp_tree_node`, its two pointers apart. -/
structure LpData where
  addr : Nat
  size : Nat
  valid_size : Nat := 0
  access_counter : BitVec 32 := 0
  RW : Nat := 0
  deriving DecidableEq

inductive LpTree
  | leaf (d : LpData)
  | node (d : LpData) (left right : LpTree)
  deriving DecidableEq

/-- A set of basic blocks, walked in the order of the addresses. -/
abbrev BlockSet := StdMap Nat Unit

namespace LpTree

def data : LpTree → LpData
  | leaf d => d
  | node d _ _ => d

def addr (t : LpTree) : Nat := t.data.addr
def size (t : LpTree) : Nat := t.data.size
def valid_size (t : LpTree) : Nat := t.data.valid_size

/-- `node->addr <= addr && addr < node->addr + node->size` -/
def covers (t : LpTree) (a : Nat) : Bool := decide (t.addr ≤ a ∧ a < t.addr + t.size)

/-! ## Construction and lookup -/

/-- `build_lp_tree` with at most `levels` halvings. -/
def buildLevels : Nat → Nat → Nat → LpTree
  | 0, a, s => leaf { addr := a, size := s }
  | levels + 1, a, s =>
    if s = MIN_PREFETCH_SIZE then leaf { addr := a, size := s }
    else node { addr := a, size := s } (buildLevels levels a (s / 2))
      (buildLevels levels (a + s / 2) (s / 2))

def build_lp_tree (a s : Nat) : LpTree := buildLevels s.log2 a s

/-- The 64KB node that a descent to `a` ends in. -/
def basicBlock : LpTree → Nat → LpData
  | leaf d, _ => d
  | node _ l r, a => if l.covers a then l.basicBlock a else r.basicBlock a

def get_basic_block (t : LpTree) (a : Nat) : Nat := (t.basicBlock a).addr

/-- The leaves of a tree, from left to right. -/
def leaves : LpTree → List LpData
  | leaf d => [d]
  | node _ l r => l.leaves ++ r.leaves

/-! ## The valid sizes -/

/-- One node of the path of `update_basic_block`. -/
def LpData.update (d : LpData) (s : Nat) (prefetch : Bool) : LpData :=
  if prefetch then
    if d.valid_size ≠ d.size then { d with valid_size := (d.valid_size + s) % SIZE_T } else d
  else
    if d.valid_size ≠ 0 then { d with valid_size := sub_size_t d.valid_size s } else d

def update_basic_block : LpTree → Nat → Nat → Bool → LpTree
  | leaf d, _, s, prefetch => leaf (LpData.update d s prefetch)
  | node d l r, a, s, prefetch =>
    if l.covers a then
      node (LpData.update d s prefetch) (l.update_basic_block a s prefetch) r
    else
      node (LpData.update d s prefetch) l (r.update_basic_block a s prefetch)

def evict_whole_tree : LpTree → LpTree
  | leaf d => leaf { d with valid_size := 0 }
  | node d l r => node { d with valid_size := 0 } l.evict_whole_tree r.evict_whole_tree

/-- `node->valid_size = node->left->valid_size + node->right->valid_size` -/
def sumNode (d : LpData) (l r : LpTree) : LpTree :=
  node { d with valid_size := (l.valid_size + r.valid_size) % SIZE_T } l r

def fill_lp_tree : LpTree → BlockSet → LpTree × BlockSet
  | leaf d, bs =>
    if d.valid_size = 0 then
      (leaf { d with valid_size := MIN_PREFETCH_SIZE }, bs.alter d.addr () id)
    else (leaf d, bs)
  | node d l r, bs =>
    let (l', bs) := l.fill_lp_tree bs
    let (r', bs) := r.fill_lp_tree bs
    (sumNode d l' r', bs)

/-- `evictable` is `is_block_evictable` on the basic block at an address. -/
def remove_lp_tree (evictable : Nat → Bool) : LpTree → BlockSet → LpTree × BlockSet
  | leaf d, bs =>
    if d.valid_size = MIN_PREFETCH_SIZE ∧ evictable d.addr then
      (leaf { d with valid_size := 0 }, bs.alter d.addr () id)
    else (leaf d, bs)
  | node d l r, bs =>
    let (l', bs) := l.remove_lp_tree evictable bs
    let (r', bs) := r.remove_lp_tree evictable bs
    (sumNode d l' r', bs)

def traverse_and_fill_lp_tree : LpTree → BlockSet → LpTree × BlockSet
  | leaf d, bs => (leaf d, bs)
  | node d l r, bs =>
    let (l', bs) := l.traverse_and_fill_lp_tree bs
    let (r', bs) := r.traverse_and_fill_lp_tree bs
    let t := sumNode d l' r'
    if t.valid_size ≠ d.size ∧ t.valid_size > d.size / 2 then t.fill_lp_tree bs else (t, bs)

def traverse_and_remove_lp_tree (evictable : Nat → Bool) :
    LpTree → BlockSet → LpTree × BlockSet
  | leaf d, bs => (leaf d, bs)
  | node d l r, bs =>
    let (l', bs) := l.traverse_and_remove_lp_tree evictable bs
    let (r', bs) := r.traverse_and_remove_lp_tree evictable bs
    let t := sumNode d l' r'
    if t.valid_size ≠ 0 ∧ t.valid_size < d.size / 2 then t.remove_lp_tree evictable bs
    else (t, bs)

def reset_lp_tree_node : LpTree → LpTree
  | leaf d => leaf { d with valid_size := 0, access_counter := 0, RW := 0 }
  | node d l r =>
    node { d with valid_size := 0, access_counter := 0, RW := 0 }
      l.reset_lp_tree_node r.reset_lp_tree_node

/-! ## The access words and the access types -/

/-- Changes each inner node of the path to `a` by `f` and the leaf by `g`. -/
def alterPath (f g : LpData → LpData) : LpTree → Nat → LpTree
  | leaf d, _ => leaf (g d)
  | node d l r, a =>
    if l.covers a then node (f d) (l.alterPath f g a) r else node (f d) l (r.alterPath f g a)

/-- `node->RW |= type` -/
def LpData.markType (type : Nat) (d : LpData) : LpData := { d with RW := d.RW ||| type }

/-- `node->access_counter++` -/
def LpData.countAccess (d : LpData) : LpData := { d with access_counter := d.access_counter + 1 }

def update_access_type (t : LpTree) (a type : Nat) : LpTree :=
  t.alterPath (LpData.markType type) (LpData.markType type) a

/-- The mask `(1 << 27) - 1`. -/
def ACCESS_MASK : BitVec 32 := (1#32 <<< 27) - 1#32

/-- The mask `((1 << 6) - 1) << 27`, in 32 bits. -/
def TRIP_MASK : BitVec 32 := 63#32 <<< 27

def get_bb_access_counter (t : LpTree) (a : Nat) : BitVec 32 :=
  (t.basicBlock a).access_counter &&& ACCESS_MASK

def LpData.round_trip (d : LpData) : BitVec 32 := (d.access_counter &&& TRIP_MASK) >>> 27

/-- `round_trip++`, in the upper bits of the word. -/
def LpData.countTrip (d : LpData) : LpData :=
  { d with
    access_counter := ((LpData.round_trip d + 1) <<< 27) ||| (d.access_counter &&& ACCESS_MASK) }

def get_bb_round_trip (t : LpTree) (a : Nat) : BitVec 32 := LpData.round_trip (t.basicBlock a)

def traverse_and_reset_access_counter : LpTree → LpTree
  | leaf d =>
    let round_trip := (d.access_counter &&& TRIP_MASK) >>> 27
    let access_counter := (d.access_counter &&& ACCESS_MASK) >>> 1
    leaf { d with access_counter := (round_trip <<< 27) ||| access_counter }
  | node d l r =>
    node { d with access_counter := d.access_counter >>> 1 }
      l.traverse_and_reset_access_counter r.traverse_and_reset_access_counter

/-- An inner node calls the traversal of the access counters on its children,
as the source does. -/
def traverse_and_reset_round_trip : LpTree → LpTree
  | leaf d =>
    let round_trip := (d.access_counter &&& TRIP_MASK) >>> 28
    let access_counter := d.access_counter &&& ACCESS_MASK
    leaf { d with access_counter := (round_trip <<< 27) ||| access_counter }
  | node d l r =>
    node d l.traverse_and_reset_access_counter r.traverse_and_reset_access_counter

end LpTree

/-! ## The list of trees, `large_page_info` -/

abbrev Forest := List LpTree

namespace Forest

open LpTree

/-- The first tree that covers the address, NULL when there is none. -/
def get_lp_node (ts : Forest) (a : Nat) : Option LpTree := ts.find? (fun t => t.covers a)

/-- Changes the tree that `get_lp_node` gives. -/
def modifyTree (f : LpTree → LpTree) (a : Nat) : Forest → Forest
  | [] => []
  | t :: ts => if t.covers a then f t :: ts else t :: modifyTree f a ts

/-- The address of the tree of `a`, `root->addr`. -/
def rootAddr (ts : Forest) (a : Nat) : Nat := (get_lp_node ts a).elim a LpTree.addr

def rootSize (ts : Forest) (a : Nat) : Nat := (get_lp_node ts a).elim 0 LpTree.size

def get_basic_block (ts : Forest) (a : Nat) : Nat :=
  (get_lp_node ts a).elim a (fun t => t.get_basic_block a)

/-- The leaf of `a`, as the calls of `update_basic_block` find it. -/
def leafOf (ts : Forest) (a : Nat) : LpData :=
  (get_lp_node ts a).elim { addr := a, size := 0 } (fun t => t.basicBlock a)

def get_bb_access_counter (ts : Forest) (a : Nat) : Nat :=
  (get_lp_node ts a).elim 0 (fun t => (t.get_bb_access_counter a).toNat)

def get_bb_round_trip (ts : Forest) (a : Nat) : Nat :=
  (get_lp_node ts a).elim 0 (fun t => (t.get_bb_round_trip a).toNat)

def reset_bb_access_counter (ts : Forest) : Forest :=
  ts.map traverse_and_reset_access_counter

def reset_bb_round_trip (ts : Forest) : Forest := ts.map traverse_and_reset_round_trip

/-- The inner nodes of the path count up first. A leaf whose whole word is
2^27 - 1 resets the counters of every tree before it counts up. -/
def inc_bb_access_counter (ts : Forest) (a : Nat) : Forest :=
  let ts := modifyTree (fun t => t.alterPath LpData.countAccess id a) a ts
  let ts := if (leafOf ts a).access_counter = ACCESS_MASK then reset_bb_access_counter ts else ts
  modifyTree (fun t => t.alterPath id LpData.countAccess a) a ts

/-- One leaf of `inc_bb_round_trip`. -/
def incRoundTripLeaf (ts : Forest) (a : Nat) : Forest :=
  modifyTree (fun t => t.alterPath id LpData.countTrip a) a
    (if LpData.round_trip (leafOf ts a) = 63#32 then reset_bb_round_trip ts else ts)

/-- `inc_bb_round_trip` on the tree of `a`, leaf by leaf. -/
def inc_bb_round_trip (ts : Forest) (a : Nat) : Forest :=
  ((get_lp_node ts a).elim [] leaves).foldl (fun ts d => incRoundTripLeaf ts d.addr) ts

def update_access_type (ts : Forest) (a type : Nat) : Forest :=
  modifyTree (fun t => t.update_access_type a type) a ts

end Forest

end gpgpu_sim_uvm
