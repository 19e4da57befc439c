import Patchbay.Proofs.Compile.Template
import Patchbay.Proofs.Meaning.Evaluation

/-!
# Jobs

The compiler works by position. Numbers of slots, tables of units and operands, the producers of
inputs: all of these are places in a schedule, and they shift when the schedule does. Here the
result of a compile is described by node. A `Job` is a root together with what it is compiled with,
and `Job.line?` and `Job.unit?` say what the program has for a node, from the graph and from the
nodes that are computed before it (`Job.before`).

What a custom generator does with the positions that it is told of cannot be said by node. The
lines are for the built-in generators, which use a position only to ask about the node behind an
input: they cannot tell apart contexts that agree on these nodes (`Builtin.statement?_congr`).
-/

namespace Patchbay

/-! ### What the built-in generators look at -/

namespace Context

variable {α : Type} {c c' : Context α}

/-- Two contexts that no built-in generator can tell apart. Positions do not enter: it only matters
what they say of the nodes behind the inputs. -/
structure Agrees (c c' : Context α) : Prop where
  operands : c.operands = c'.operands
  unit : c.unit = c'.unit
  /-- Input by input, the units of the nodes behind them. -/
  units : c.producers.map (·.bind c.unitAt) = c'.producers.map (·.bind c'.unitAt)
  /-- Input by input, the outputs behind them. -/
  outputs : c.producers.map (·.bind c.output?) = c'.producers.map (·.bind c'.output?)

theorem Agrees.unitOfInput? (h : c.Agrees c') (i : Nat) :
    c.unitOfInput? i = c'.unitOfInput? i := by
  have hunit : ∀ c : Context α, c.unitOfInput? i =
      (c.producers.map (·.bind c.unitAt))[i]?.join := by
    intro c
    rw [Context.unitOfInput?, producer?, List.getElem?_map]
    cases c.producers[i]? <;> rfl
  rw [hunit, hunit, h.units]

theorem Agrees.outputs_eq (h : c.Agrees c') : c.outputs = c'.outputs := by
  have houtputs : ∀ c : Context α, c.outputs =
      ((c.producers.map (·.bind c.output?)).take c.operands.length).filterMap id := by
    intro c
    rw [Context.outputs, ← List.map_take, List.filterMap_map]
    rfl
  rw [houtputs, houtputs, h.outputs, h.operands]

/-- An output is what its kind and its operands make it. -/
theorem output?_congr {i j : Nat} (hkind : c.kindAt i = c'.kindAt j)
    (hoperands : c.operandsAt i = c'.operandsAt j) : c.output? i = c'.output? j := by
  rw [output?, output?, hkind, hoperands]

end Context

/-- A built-in generator gives the same statement in contexts that agree. -/
theorem Builtin.statement?_congr {α : Type} {c c' : Context α} (h : c.Agrees c') (b : Builtin) :
    b.statement? c = b.statement? c' := by
  cases b with
  | unitUpdate => rw [statement?, statement?, h.unit, h.operands]
  | feedbackWrite =>
    rw [statement?, statement?, h.unitOfInput?, h.unit, Context.operand?, Context.operand?,
      h.operands]
  | arithmetic operator =>
    simp only [statement?, Context.operand?, h.operands]
  | thru => rw [statement?, statement?, Context.operand?, Context.operand?, h.operands]
  | exit => rw [statement?, statement?, h.outputs_eq]

/-! ### Jobs -/

/-- A root to be compiled, and what it is compiled with. -/
structure Job extends Compiler where
  graph : Graph
  root : NodeId

namespace Job

variable (job : Job)

/-- What becomes of a job. -/
def compile : Compilation :=
  job.toCompiler.compile job.graph job.root

/-- With the standard operations and the usual fallback kind, every job succeeds. -/
theorem exists_compiled {job : Job} (hregistry : job.registry = .standard)
    (hfallback : job.options.fallbackKind = Kind.thru) :
    ∃ compiled, job.compile.outcome = .ok compiled := by
  refine exists_compiled_of_fallback _ _ _ _ ?_
  rw [hregistry, hfallback, Registry.schema?, Registry.get?_eq_find?, Registry.standard_operations]
  decide

/-- The same job for another root. -/
def rooted (root : NodeId) : Job :=
  { job with root }

/-- The root of a job is a node of an acyclic graph. -/
structure Sound : Prop where
  acyclic : job.graph.Acyclic
  root_lt : job.root < job.graph.size

/-- What the root depends on, in the order in which it is computed. -/
def order : List NodeId :=
  (job.graph.postorder job.root).toList

/-- The nodes that are computed before a node. -/
def before (id : NodeId) : List NodeId :=
  job.order.takeWhile (· ≠ id)

/-- The place of a node among those that are computed. -/
def position (id : NodeId) : Nat :=
  (job.before id).length

/-- Whether a node is written in place. -/
def isConstant (id : NodeId) : Bool :=
  job.graph.kind id = job.options.constantKind

/-! ### Operands -/

/-- The number in the name of the slot of a node. Identifiers count all nodes before it, registers
only those that have a slot. -/
def slotIndex (id : NodeId) : Nat :=
  match job.options.addressing with
  | .identifiers => job.position id
  | .registers => (job.before id).countP (!job.isConstant ·)

/-- The name of the slot of a node. -/
def slotName (id : NodeId) : String :=
  job.options.addressing.slot job.options.stem (job.slotIndex id)

/-- What stands for an input in the program. -/
def inputText : Input → String
  | .immediate value => value.form
  | .node id => if job.isConstant id then (job.graph.literal id).form else job.slotName id

/-- What stands for the inputs of a node, in order. -/
def operands (id : NodeId) : List String :=
  (job.graph.inputs id).map job.inputText

/-! ### Schemas and units -/

/-- The schema that a node is compiled with, its own or that of the fallback kind. A constant is not
compiled. -/
def schema? (id : NodeId) : Option Schema :=
  if job.isConstant id then none
  else (job.registry.resolve? job.options.fallbackKind (job.graph.kind id)).map (·.1)

/-- Whether a node would have to be compiled and cannot be. -/
def isStuck (id : NodeId) : Bool :=
  !job.isConstant id && (job.schema? id).isNone

/-- The tag of the stateful unit of a node. -/
def tag? (id : NodeId) : Option String :=
  (job.schema? id).bind (·.tag)

/-- What makes the statement of a node. -/
def generator? (id : NodeId) : Option Generator :=
  (job.schema? id).bind (·.generator)

/-- The number of stateful units of the nodes before a node. -/
def unitIndex (id : NodeId) : Nat :=
  (job.before id).countP fun id => (job.tag? id).isSome

/-- The stateful unit that a node needs, with its operands. -/
def unit? (id : NodeId) : Option StatefulUnit :=
  (job.tag? id).map (⟨·, job.operands id⟩)

/-! ### Lines -/

/-- What a built-in generator may use for a node, by node: the producers of inputs are nodes. -/
def context (id : NodeId) : Context String where
  addressing := job.options.addressing
  slot := job.slotName id
  node :=
    { kind := job.graph.kind id
      inputs := job.graph.inputs id
      value := (job.graph.node? id).bind (·.value)
      place := id }
  position := job.position id
  tag := job.tag? id
  operands := job.operands id
  producers := (job.graph.inputs id).map Input.node?
  unit := job.unitIndex id
  nodeAt := fun producer => (job.graph.node? producer).map (⟨·, producer⟩)
  unitAt := fun producer => (job.tag? producer).map fun _ => job.unitIndex producer
  operandsAt := fun producer => if job.isConstant producer then [] else job.operands producer

theorem context_kindAt (id producer : NodeId) :
    (job.context id).kindAt producer = (job.graph.node? producer).map (·.kind) := by
  rw [Context.kindAt, context, Option.map_map]
  rfl

/-- The line of a node, if it has one. -/
def line? (id : NodeId) : Option String :=
  (job.generator? id).bind (·.line? (job.context id))

/-- The line of a node, with its position and its kind. -/
def emission? (id : NodeId) : Option (Subject × String) :=
  (job.line? id).map (⟨job.position id, job.graph.kind id⟩, ·)

/-! ### Constants -/

section Constants

variable {job} {id : NodeId} (hconst : job.isConstant id)

include hconst

theorem schema?_of_isConstant : job.schema? id = none :=
  if_pos hconst

theorem tag?_of_isConstant : job.tag? id = none := by
  rw [tag?, schema?_of_isConstant hconst, Option.bind_none]

theorem line?_of_isConstant : job.line? id = none := by
  rw [line?, generator?, schema?_of_isConstant hconst, Option.bind_none, Option.bind_none]

end Constants

end Job

end Patchbay
