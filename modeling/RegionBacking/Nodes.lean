import RegionBacking.Effect

/-!
# Memory nodes

A machine may have several memory nodes. Regions are dealt out to them in turn: region `r` prefers
the node at place `r % n` of the `n` nodes. For each node the requests that it got and their bytes
are counted, both modulo `2 ^ 64`. The nodes of this library are not bound to the machine, so no
request ever fails.
-/

namespace RegionBacking

/-- A node and what was asked of it. -/
structure Node where
  /-- The number by which the machine knows the node. -/
  id : Nat
  /-- Requests that were routed to the node. -/
  requests : UInt64
  /-- Bytes of these requests. -/
  placedBytes : UInt64
  /-- Requests that the machine rejected. -/
  failures : UInt64
deriving DecidableEq, Repr

/-- The nodes of a machine, at least one. -/
structure Nodes where
  /-- The nodes, in the order in which regions are dealt out. -/
  nodes : Array Node
  /-- There is a node. -/
  nonempty : 0 < nodes.size

namespace Nodes

/-- A node that nothing was asked of. -/
def fresh (id : Nat) : Node := ⟨id, 0, 0, 0⟩

/-- One node with the number zero. -/
def single : Nodes := ⟨#[fresh 0], by decide⟩

/-- The nodes of a list of numbers; the empty list stands for one node with the number zero. -/
def ofIds : List Nat → Nodes
  | [] => single
  | id :: rest => ⟨((id :: rest).map fresh).toArray, by simp⟩

/-- The number of nodes. -/
def count (nodes : Nodes) : Nat := nodes.nodes.size

/-- The numbers of the nodes. -/
def ids (nodes : Nodes) : List Nat := nodes.nodes.toList.map (·.id)

/-- The place of the node that a region prefers. -/
def preferred (nodes : Nodes) (region : Nat) : Nat := region % nodes.count

/-- The node at a place. -/
def node? (nodes : Nodes) (place : Nat) : Option Node := nodes.nodes[place]?

/-- The nodes after a request. -/
def request (nodes : Nodes) (placement : Placement) : Nodes where
  nodes := nodes.nodes.modify (nodes.preferred placement.region) fun node =>
    { node with
      requests := node.requests + 1
      placedBytes := node.placedBytes + UInt64.ofNat placement.size }
  nonempty := by simpa using nodes.nonempty

theorem count_request (nodes : Nodes) (placement : Placement) :
    (nodes.request placement).count = nodes.count := by
  simp [count, request]

end Nodes

end RegionBacking
