import Patchbay.Graph.Schedule
import Patchbay.Options.Basic

/-!
# Layouts

A layout is what the compiler knows of a graph before it makes any statement: the nodes by
position, and what each of them is to the nodes it feeds. A node of the constant kind is a literal,
written in place; any other node is a slot. Slots are symbolic here; a `Naming` turns them into
text.
-/

namespace Patchbay

/-- Where the value of an input is found. -/
inductive Operand where
  /-- In the slot of the node at a position. -/
  | slot (position : Nat)
  /-- In the program itself. -/
  | literal (value : Literal)
  deriving DecidableEq

/-- The literal that a constant node stands for; zero if it has no payload. -/
def Node.literal (node : Node) : Literal :=
  node.value.getD 0

/-- The nodes of a schedule by position, and the positions of the nodes. -/
structure Layout where
  nodes : Array Node
  /-- The place in the graph of the node at a position. -/
  place : Nat → NodeId
  position? : NodeId → Option Nat
  constantKind : String

namespace Layout

/-- The layout of everything that a root depends on. -/
def ofGraph (g : Graph) (root : NodeId) (constantKind : String) : Layout :=
  let schedule := g.schedule root
  { nodes := schedule.order.filterMap g.node?
    place := fun position => schedule.order.getD position root
    position? := schedule.position?
    constantKind }

/-- The node at a position, with its place. -/
def placedAt (l : Layout) (position : Nat) : Option PlacedNode :=
  l.nodes[position]?.map (⟨·, l.place position⟩)

/-- Whether a node is written in place. -/
def isConstant (l : Layout) (node : Node) : Bool :=
  node.kind = l.constantKind

/-- What the node at a position is to the nodes it feeds. -/
def operandAt (l : Layout) (position : Nat) : Operand :=
  match l.nodes[position]? with
  | some node => if l.isConstant node then .literal node.literal else .slot position
  | none => .literal 0

/-- The position behind an input; `none` for an immediate. -/
def producer? (l : Layout) (input : Input) : Option Nat :=
  input.node?.bind l.position?

/-- The operand for an input. -/
def operand (l : Layout) (input : Input) : Operand :=
  match input with
  | .immediate value => .literal value
  | .node id => l.operandAt ((l.position? id).getD 0)

/-- The number of nodes with a slot. -/
def slotCount (l : Layout) : Nat :=
  l.nodes.countP (!l.isConstant ·)

/-- For each position, the number of nodes with a slot before it. -/
def ranks (l : Layout) : Array Nat :=
  (l.nodes.foldl
    (fun (ranks, count) node => (ranks.push count, if l.isConstant node then count else count + 1))
    (#[], 0)).1

end Layout

/-- How slots are named. Identifiers are numbered by position, so constants leave gaps; registers
are packed. -/
structure Naming where
  addressing : Addressing
  stem : String
  /-- For each position, the number of nodes with a slot before it. -/
  ranks : Array Nat

namespace Naming

/-- The text of the slot of the node at a position. -/
def slot (n : Naming) (position : Nat) : String :=
  match n.addressing with
  | .identifiers => Addressing.identifiers.slot n.stem position
  | .registers => Addressing.registers.slot n.stem (n.ranks.getD position 0)

/-- The text of an operand. -/
def write (n : Naming) : Operand → String
  | .slot position => n.slot position
  | .literal value => value.form

end Naming

/-- How the slots of a layout are named. -/
def Layout.naming (l : Layout) (options : Options) : Naming :=
  ⟨options.addressing, options.stem, l.ranks⟩

end Patchbay
