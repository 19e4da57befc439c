import Patchbay.Compile.Layout
import Patchbay.Registry.Basic

/-!
# Assembling statements

An assembly goes through a layout and notes, for each node that is not a constant, what compiling
it gives: the operands, the statement and the stateful unit. Operands stay symbolic. Neither the
convention for slots nor their names enter an assembly, unless a custom generator asks for them; nor
do the places of nodes in the graph.

A node of an unregistered kind is compiled like the fallback kind. An assembly stops at the first
such node if the fallback kind is unregistered too.
-/

namespace Patchbay

/-- What compiling one node gives. -/
structure Entry where
  position : Nat
  kind : String
  /-- Whether the kind is unregistered, so that the node is compiled like the fallback kind. -/
  viaFallback : Bool
  operands : List Operand
  statement : Option (Statement Operand)
  /-- The tag of the stateful unit of the node. -/
  tag : Option String
  deriving DecidableEq

/-- The schema for a kind, and whether it is that of the fallback kind. -/
def Registry.resolve? (r : Registry) (fallbackKind kind : String) : Option (Schema × Bool) :=
  match r.schema? kind with
  | some schema => some (schema, false)
  | none => (r.schema? fallbackKind).map (·, true)

/-- An assembly under way: the entries so far, the number of stateful units, and, for each position
passed, the unit and the operands of the node there. -/
structure Progress where
  entries : Array Entry := #[]
  units : Nat := 0
  unitAt : Array (Option Nat) := #[]
  operandsAt : Array (List Operand) := #[]

namespace Progress

/-- Goes on past a constant. -/
def skip (p : Progress) : Progress :=
  { p with unitAt := p.unitAt.push none, operandsAt := p.operandsAt.push [] }

/-- Goes on past a compiled node. -/
def extend (p : Progress) (e : Entry) : Progress where
  entries := p.entries.push e
  units := if e.tag.isSome then p.units + 1 else p.units
  unitAt := p.unitAt.push (if e.tag.isSome then some p.units else none)
  operandsAt := p.operandsAt.push e.operands

end Progress

/-- What statements are assembled from. -/
structure Assembler where
  registry : Registry
  fallbackKind : String
  layout : Layout
  naming : Naming

namespace Assembler

/-- The context of a node, which stands at the first position not yet passed and is compiled with a
schema that has the given tag. -/
def context (a : Assembler) (p : Progress) (position : Nat) (node : Node) (tag : Option String) :
    Context Operand where
  addressing := a.naming.addressing
  slot := .slot position
  node := ⟨node, a.layout.place position⟩
  position
  tag
  operands := node.inputs.map a.layout.operand
  producers := node.inputs.map a.layout.producer?
  unit := p.units
  nodeAt := a.layout.placedAt
  unitAt := fun i => p.unitAt[i]?.join
  operandsAt := fun i => p.operandsAt[i]?.getD []

/-- The entry of a node that is compiled with a schema. -/
def entry (a : Assembler) (p : Progress) (position : Nat) (node : Node) (schema : Schema)
    (viaFallback : Bool) : Entry :=
  let context := a.context p position node schema.tag
  { position
    kind := node.kind
    viaFallback
    operands := context.operands
    statement := schema.generator.bind (·.statement? a.naming.write context)
    tag := schema.tag }

/-- Assembles the nodes from a position on. On failure, also gives the kind that has no schema. -/
def run (a : Assembler) : List Node → (position : Nat) → Progress → Progress × Option String
  | [], _, p => (p, none)
  | node :: rest, position, p =>
    if a.layout.isConstant node then a.run rest (position + 1) p.skip
    else match a.registry.resolve? a.fallbackKind node.kind with
      | none => (p, some node.kind)
      | some (schema, viaFallback) =>
        let e := a.entry p position node schema viaFallback
        a.run rest (position + 1) (p.extend e)

end Assembler

/-- The entries of the compiled nodes, and the kind at which the assembly failed, if it did. -/
structure Assembly where
  entries : List Entry
  failure : Option String

/-- Assembles the statements for a layout. -/
def Layout.assemble (l : Layout) (registry : Registry) (options : Options) : Assembly :=
  let assembler : Assembler := ⟨registry, options.fallbackKind, l, l.naming options⟩
  let (progress, failure) := assembler.run l.nodes.toList 0 {}
  ⟨progress.entries.toList, failure⟩

end Patchbay
