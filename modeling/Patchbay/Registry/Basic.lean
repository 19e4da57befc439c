import Patchbay.Generator
import Patchbay.Registry.Category

/-!
# The registry of operations

A registry says what each kind of node does. It keeps its operations in the order in which their
kinds were first registered; registering a kind again replaces the operation where it stands.

Kinds are looked up in an index of their places. That the index and the operations agree is part of
being a registry (`Registry.lookup_index`): what registers an operation has to keep it.
-/

namespace Patchbay

/-- What the compiler needs to know of a kind: the stateful unit that a node of this kind needs at
run time, if any, and how its statement is made, if it has one. -/
structure Schema where
  tag : Option String := none
  generator : Option Generator := none

namespace Schema

/-- A kind without unit or statement. -/
def silent : Schema := {}

/-- A kind with a statement and no unit. -/
def stateless (generator : Generator) : Schema where
  generator := some generator

/-- A kind with a statement and a unit. -/
def stateful (tag : String) (generator : Generator) : Schema where
  tag := some tag
  generator := some generator

end Schema

/-- A registered kind. -/
structure Operation where
  kind : String
  description : String
  category : Category
  schema : Schema

/-- An operation that takes the place of one of its own kind leaves the kinds as they are. -/
theorem Operation.map_kind_set {operations : List Operation} {operation : Operation} {i : Nat}
    (h : operations.findIdx? (·.kind = operation.kind) = some i) :
    (operations.set i operation).map (·.kind) = operations.map (·.kind) := by
  obtain ⟨hlt, hkind, -⟩ := List.findIdx?_eq_some_iff_getElem.mp h
  have hi : i < (operations.map (·.kind)).length := by simpa using hlt
  have hself : (operations.map (·.kind))[i] = operation.kind := by simpa using hkind
  rw [List.map_set, ← hself, List.set_getElem_self]

/-- The operations known to a compiler, in the order of first registration, and where each kind is
found among them. -/
structure Registry where
  operations : List Operation := []
  /-- The registered kinds with their places. -/
  index : List (String × Nat) := []
  /-- A kind is looked up where it first stands. -/
  lookup_index : ∀ kind, index.lookup kind = operations.findIdx? (·.kind = kind) := by
    intro kind
    rfl

namespace Registry

/-- The registry without operations. -/
def empty : Registry := {}

/-- The place of a kind in the registry. -/
def index? (r : Registry) (kind : String) : Option Nat :=
  r.index.lookup kind

/-- The operation registered for a kind. -/
def get? (r : Registry) (kind : String) : Option Operation :=
  (r.index? kind).bind (r.operations[·]?)

/-- The schema registered for a kind. -/
def schema? (r : Registry) (kind : String) : Option Schema :=
  (r.get? kind).map (·.schema)

/-- Whether a kind is registered. -/
def contains (r : Registry) (kind : String) : Bool :=
  (r.index? kind).isSome

/-- The number of registered kinds. -/
def size (r : Registry) : Nat :=
  r.operations.length

/-- The operations of one category. -/
def inCategory (r : Registry) (category : Category) : List Operation :=
  r.operations.filter (·.category = category)

/-- Puts an operation in the place of the one with the same kind. -/
def replace (r : Registry) (i : Nat) (operation : Operation)
    (h : r.index? operation.kind = some i) : Registry where
  operations := r.operations.set i operation
  index := r.index
  lookup_index kind := by
    have hplace : r.operations.findIdx? (·.kind = operation.kind) = some i :=
      (r.lookup_index operation.kind).symm.trans h
    have hkinds : ∀ operations : List Operation, operations.findIdx? (·.kind = kind) =
        (operations.map (·.kind)).findIdx? (· = kind) := by
      intro operations
      rw [List.findIdx?_map]
      rfl
    rw [r.lookup_index, hkinds, hkinds, Operation.map_kind_set hplace]

/-- Puts an operation after all others. -/
def append (r : Registry) (operation : Operation) : Registry where
  operations := r.operations ++ [operation]
  index := r.index ++ [(operation.kind, r.operations.length)]
  lookup_index kind := by
    rw [List.lookup_append, r.lookup_index, List.findIdx?_append, List.findIdx?_singleton]
    congr 1
    by_cases hkind : operation.kind = kind
    · simp [hkind]
    · have hne : (kind == operation.kind) = false := beq_eq_false_iff_ne.mpr (Ne.symm hkind)
      rw [List.lookup_cons, hne, List.lookup_nil]
      simp [hkind]

/-- Registers an operation, in the place of the one with the same kind if there is one. -/
def register (r : Registry) (operation : Operation) : Registry :=
  match h : r.index? operation.kind with
  | some i => r.replace i operation h
  | none => r.append operation

/-- Registers a kind that stands for a stateful unit of the host. -/
def registerUnit (r : Registry) (kind unit : String) : Registry :=
  r.register {
    kind
    description := unit ++ " processing unit"
    category := .custom
    schema := .stateful unit (.builtin .unitUpdate) }

end Registry

end Patchbay
