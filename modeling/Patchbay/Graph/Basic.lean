import Patchbay.Literal

/-!
# Node graphs

A patch is a graph of nodes. A node has a kind, inputs in order, and possibly a payload. An input
is another node or a literal written in place, an *immediate*.

A `Graph` is a table of nodes; a node is identified by its place in the table, so two nodes with
equal contents are still two nodes, and a node that several others use is one entry referred to
several times. Nodes are only ever appended. `Graph.WellFormed` says that every input refers to an
earlier entry, which is what appending gives, and which rules out cycles.
-/

namespace Patchbay

/-- The place of a node in its graph. -/
abbrev NodeId := Nat

/-- An input of a node. -/
inductive Input where
  | node (id : NodeId)
  | immediate (value : Literal)
  deriving DecidableEq

/-- The node that an input refers to, if it is not an immediate. -/
def Input.node? : Input → Option NodeId
  | node id => some id
  | immediate _ => none

/-- A node of a graph. -/
structure Node where
  kind : String
  inputs : List Input := []
  value : Option Literal := none
  deriving DecidableEq

/-- The nodes that a node takes its inputs from, in order and with repeats. -/
def Node.producers (node : Node) : List NodeId :=
  node.inputs.filterMap Input.node?

/-- A node together with its place, by which it is known. -/
structure PlacedNode extends Node where
  place : NodeId
  deriving DecidableEq

/-- A table of nodes. -/
structure Graph where
  nodes : Array Node := #[]

namespace Graph

/-- The number of nodes. -/
def size (g : Graph) : Nat :=
  g.nodes.size

/-- The node at a place, if there is one. -/
def node? (g : Graph) (id : NodeId) : Option Node :=
  g.nodes[id]?

/-- The inputs of the node at a place; none if there is no such node. -/
def inputs (g : Graph) (id : NodeId) : List Input :=
  match g.node? id with
  | some node => node.inputs
  | none => []

/-- Every input that is a node refers to an earlier entry of the table. -/
def WellFormed (g : Graph) : Prop :=
  ∀ id node, g.node? id = some node → ∀ producer ∈ node.producers, producer < id

/-- The node at `producer` is an input of the node at `id`. -/
def Feeds (g : Graph) (producer id : NodeId) : Prop :=
  Input.node producer ∈ g.inputs id

/-- The nodes that a root depends on, itself included. -/
inductive Reachable (g : Graph) (root : NodeId) : NodeId → Prop
  | root : Reachable g root root
  | feeds {id producer : NodeId} :
    Reachable g root id → g.Feeds producer id → Reachable g root producer

/-- The graph with one more node, and the place of that node. -/
def add (g : Graph) (node : Node) : NodeId × Graph :=
  (g.size, ⟨g.nodes.push node⟩)

end Graph

end Patchbay
