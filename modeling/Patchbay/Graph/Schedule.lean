import Patchbay.Graph.Walk

/-!
# Schedules

A schedule lists the nodes that a root depends on, each once and after its inputs, with the root
last. A node's place in the schedule is its *position*; the compiler names nodes by position.
-/

namespace Patchbay

/-- The nodes of a graph in the order in which they are computed. -/
structure Schedule where
  /-- The scheduled nodes by position. -/
  order : Array NodeId
  /-- The position of each node of the graph, if it is scheduled. -/
  positions : Array (Option Nat)

namespace Schedule

/-- The number of scheduled nodes. -/
def size (s : Schedule) : Nat :=
  s.order.size

/-- The position of a node, if it is scheduled. -/
def position? (s : Schedule) (id : NodeId) : Option Nat :=
  s.positions.getD id none

/-- Enters the positions of a list of nodes, the first of which stands at position `start`. -/
def fillPositions : List NodeId → (start : Nat) → Array (Option Nat) → Array (Option Nat)
  | [], _, table => table
  | id :: ids, start, table => fillPositions ids (start + 1) (table.setIfInBounds id (some start))

end Schedule

namespace Graph

/-- The nodes that a root depends on, each after its inputs. -/
def postorder (g : Graph) (root : NodeId) : Array NodeId :=
  ((Walk.start g root).run g).order

/-- The schedule of everything a root depends on. -/
def schedule (g : Graph) (root : NodeId) : Schedule :=
  let order := g.postorder root
  ⟨order, Schedule.fillPositions order.toList 0 (Array.replicate g.size none)⟩

end Graph

end Patchbay
