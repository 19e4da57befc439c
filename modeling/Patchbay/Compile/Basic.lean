import Patchbay.Compile.Assembly
import Patchbay.Compile.Event
import Patchbay.Registry.Standard
import Patchbay.Text.Lines

/-!
# Compiling a patch

`compile` writes out the assembly of a graph: the program, one statement a line; the list of
stateful units that the host has to provide; and the number of slots. It also accounts for what it
did as a list of events, whether it succeeds or not.
-/

namespace Patchbay

/-- A stateful unit that a program needs, and the operands of its node. -/
structure StatefulUnit where
  tag : String
  inputs : List String
  deriving DecidableEq

/-- A compiled patch. -/
structure Compiled where
  program : String
  units : List StatefulUnit
  slotCount : Nat
  deriving DecidableEq

namespace Compiled

/-- The tags of the stateful units. -/
def unitTags (c : Compiled) : List String :=
  c.units.map (·.tag)

/-- The statements of the program: its lines, without empty ones. -/
def statements (c : Compiled) : List String :=
  (Text.lines c.program).filter (!·.isEmpty)

end Compiled

/-- Why a compile fails: a kind without a schema, while the fallback kind has none either. -/
inductive CompileError where
  | missingFallback (kind fallbackKind : String)
  deriving DecidableEq

/-- The text of a compile error. -/
def CompileError.message : CompileError → String
  | missingFallback kind fallbackKind =>
    "no schema for node type \"" ++ kind ++ "\" (fallback \"" ++ fallbackKind
      ++ "\" is unregistered)"

/-- The outcome of a compile, and what happened on the way. -/
structure Compilation where
  events : List Event
  outcome : Except CompileError Compiled

namespace Entry

/-- The line of a node, if it has a statement. -/
def line? (e : Entry) (naming : Naming) : Option String :=
  e.statement.map fun statement =>
    (statement.map naming.write).text ⟨naming.addressing, naming.slot e.position, e.kind⟩

/-- The stateful unit of a node, if it has one. -/
def unit? (e : Entry) (naming : Naming) : Option StatefulUnit :=
  e.tag.map fun tag => ⟨tag, e.operands.map naming.write⟩

end Entry

namespace Event

/-- A diagnostic event. -/
def diagnostic (options : Options) (stage : Stage) (message : String) : Event where
  level := if options.log then .info else .debug
  stage := stage
  message := message

/-- The warning that a kind is compiled like the fallback kind. -/
def fallback (kind fallbackKind : String) : Event where
  level := .warn
  stage := .generation
  message :=
    "unhandled node type \"" ++ kind ++ "\". falling back to \"" ++ fallbackKind ++ "\""

/-- A scheduled node. -/
def scheduled (position : Nat) (kind : String) : Event where
  level := .trace
  stage := .scheduling
  message := "  node[" ++ toString position ++ "]: " ++ kind

/-- A statement. -/
def statement (e : Entry) (line : String) : Event where
  level := .trace
  stage := .generation
  message := line
  subject := some ⟨e.position, e.kind⟩

/-- The events of one compiled node. -/
def ofEntry (fallbackKind : String) (e : Entry) (line? : Option String) : List Event :=
  (if e.viaFallback then [fallback e.kind fallbackKind] else [])
    ++ (line?.map (statement e)).toList

/-- The events before statements are made. -/
def ofLayout (options : Options) (rootKind : String) (l : Layout) : List Event :=
  [ diagnostic options .scheduling ("compile: root \"" ++ rootKind ++ "\""),
    diagnostic options .scheduling
      ("compile_sort: " ++ toString l.nodes.size ++ " nodes in topo order") ]
    ++ l.nodes.toList.mapIdx fun position node => scheduled position node.kind

end Event

/-- The kind of the node at a place; a place without a node has the empty kind. -/
def Graph.kind (g : Graph) (id : NodeId) : String :=
  match g.node? id with
  | some node => node.kind
  | none => ""

/-- Compiles everything that a root depends on. -/
def compile (registry : Registry) (options : Options) (g : Graph) (root : NodeId) :
    Compilation :=
  let layout := Layout.ofGraph g root options.constantKind
  let naming := layout.naming options
  let assembly := layout.assemble registry options
  let entries := assembly.entries.map fun e => (e, e.line? naming)
  let opening := Event.ofLayout options (g.kind root) layout
    ++ entries.flatMap fun (e, line?) => Event.ofEntry options.fallbackKind e line?
  match assembly.failure with
  | some kind =>
    { events := opening ++ [Event.fallback kind options.fallbackKind]
      outcome := .error (.missingFallback kind options.fallbackKind) }
  | none =>
    let lines := entries.filterMap (·.2)
    let compiled : Compiled :=
      { program := String.intercalate "\n" lines
        units := assembly.entries.filterMap (·.unit? naming)
        slotCount := layout.slotCount }
    let closing := [
      Event.diagnostic options .generation
        ("codegen: " ++ toString lines.length ++ " statements, " ++ toString compiled.units.length
          ++ " stateful units, " ++ toString compiled.slotCount ++ " slots"),
      Event.diagnostic options .scheduling ("compiled code:\n" ++ compiled.program)]
    { events := opening ++ closing
      outcome := .ok compiled }

/-- A registry and options, for compiling several patches. -/
structure Compiler where
  registry : Registry := .standard
  options : Options := {}

/-- Compiles everything that a root depends on. -/
def Compiler.compile (c : Compiler) (g : Graph) (root : NodeId) : Compilation :=
  Patchbay.compile c.registry c.options g root

end Patchbay
