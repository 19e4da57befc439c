import Patchbay.Graph.Basic
import Patchbay.Kind
import Patchbay.Statement

/-!
# Statement generators

A generator turns a node into a statement. It is given a `Context`: the node, its operands, and what
is known of the other nodes of the schedule. The built-in generators work over any type of operands
and so cannot look inside them; a custom generator is any function from a context of texts to a
line.

A context holds the nodes themselves, so a generator is told the places of nodes in the graph, its
own and those behind inputs. The built-in ones make no use of places.
-/

namespace Patchbay

/-- What a generator may use. Positions are places in the schedule. -/
structure Context (α : Type) where
  /-- The convention for slots. -/
  addressing : Addressing
  /-- The slot of the node. -/
  slot : α
  /-- The node. -/
  node : PlacedNode
  /-- The position of the node. -/
  position : Nat
  /-- The tag of the schema that the node is compiled with. -/
  tag : Option String
  /-- The operands of the node, one for each input. -/
  operands : List α
  /-- The positions behind the inputs; `none` for an immediate. -/
  producers : List (Option Nat)
  /-- The number of stateful units before this node. A stateful node will have the unit with this
  index. -/
  unit : Nat
  /-- The node at a position, wherever it stands in the schedule. -/
  nodeAt : Nat → Option PlacedNode
  /-- The stateful unit of the node at a position. -/
  unitAt : Nat → Option Nat
  /-- The operands of the node at a position; none for constants. -/
  operandsAt : Nat → List α

namespace Context

variable {α β : Type}

/-- The same context over other operands. -/
def map (f : α → β) (c : Context α) : Context β where
  addressing := c.addressing
  slot := f c.slot
  node := c.node
  position := c.position
  tag := c.tag
  operands := c.operands.map f
  producers := c.producers
  unit := c.unit
  nodeAt := c.nodeAt
  unitAt := c.unitAt
  operandsAt := fun position => (c.operandsAt position).map f

/-- The kind of the node. -/
def kind (c : Context α) : String :=
  c.node.kind

/-- The kind of the node at a position. -/
def kindAt (c : Context α) (position : Nat) : Option String :=
  (c.nodeAt position).map (·.kind)

/-- The operand of an input. -/
def operand? (c : Context α) (i : Nat) : Option α :=
  c.operands[i]?

/-- The position behind an input. -/
def producer? (c : Context α) (i : Nat) : Option Nat :=
  c.producers[i]?.join

/-- The stateful unit of the node behind an input. -/
def unitOfInput? (c : Context α) (i : Nat) : Option Nat :=
  (c.producer? i).bind c.unitAt

/-- The output at a position, if the node there is an output. -/
def output? (c : Context α) (position : Nat) : Option (Output α) :=
  if c.kindAt position = some Kind.out then
    some ⟨(c.operandsAt position)[0]?, (c.operandsAt position)[1]?⟩
  else none

/-- The outputs among the inputs of the node, in order. -/
def outputs (c : Context α) : List (Output α) :=
  (c.producers.take c.operands.length).filterMap (·.bind c.output?)

/-- Where the statement of the node is written. -/
def site (c : Context String) : Statement.Site :=
  ⟨c.addressing, c.slot, c.kind⟩

/-- The operands of the node, separated by commas. -/
def arguments (c : Context String) : String :=
  String.intercalate "," c.operands

end Context

/-- The generators that the library brings. -/
inductive Builtin where
  /-- Advances the unit of the node. -/
  | unitUpdate
  /-- Writes the first operand to the cell that the second input reads. A node without such a cell
  writes to the unit that would come next. -/
  | feedbackWrite
  /-- Combines the first two operands. -/
  | arithmetic (operator : Operator)
  /-- Copies the first operand. -/
  | thru
  /-- Mixes the outputs among the inputs; without an output there is no statement. -/
  | exit
  deriving DecidableEq

/-- The statement that a built-in generator gives. -/
def Builtin.statement? {α : Type} (b : Builtin) (c : Context α) : Option (Statement α) :=
  match b with
  | unitUpdate => some (.update c.unit c.operands)
  | feedbackWrite => some (.write ((c.unitOfInput? 1).getD c.unit) (c.operand? 0))
  | arithmetic operator => some (.arithmetic operator (c.operand? 0) (c.operand? 1))
  | thru => some (.copy (c.operand? 0))
  | exit =>
    match c.outputs with
    | [] => none
    | outputs => some (.mix outputs)

/-- A generator: a built-in one, or a function that writes the line itself. -/
inductive Generator where
  | builtin (b : Builtin)
  | custom (line? : Context String → Option String)

/-- The statement that a generator gives. `write` is how operands are written; only a custom
generator sees the result. -/
def Generator.statement? {α : Type} (write : α → String) (g : Generator) (c : Context α) :
    Option (Statement α) :=
  match g with
  | builtin b => b.statement? c
  | custom line? => (line? (c.map write)).map .verbatim

/-- The line that a generator gives for a context of texts. -/
def Generator.line? (g : Generator) (c : Context String) : Option String :=
  (g.statement? id c).map (·.text c.site)

end Patchbay
