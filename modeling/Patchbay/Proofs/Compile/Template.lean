import Patchbay.Proofs.Compile.Entries
import Patchbay.Proofs.Compile.Naming
import Patchbay.Proofs.Compile.Piece
import Patchbay.Proofs.Registry.Registration

/-!
# Programs whose slots have no names yet

A template is a program in pieces: slots and declarations are still symbols. Every compile is a
rendering of the template of its assembly (`compile_renders`).

The built-in generators work over any type of operands, so they give the same statement whatever
operands are written like (`Builtin.statement?_map`), and neither the convention nor the names of
slots enter their assembly (`Layout.assemble_congr`). Hence two compiles that differ in the
convention, in what identifiers begin with or in the log are renderings of one template
(`compile_sameUpToSlots`).

An identifier is numbered by the position of its node and a register by the slots before it. The
two agree on which node is meant because an operand never refers to a position outside the layout
(`Layout.operand_within`).
-/

namespace Patchbay

/-! ### Generators do not look inside operands -/

theorem Context.outputs_map {α β : Type} (f : α → β) (c : Context α) :
    (c.map f).outputs = c.outputs.map (Output.map f) := by
  have houtput : ∀ position, (c.map f).output? position = (c.output? position).map (.map f) := by
    intro position
    rw [output?, output?]
    split
    · next h => simp [show c.kindAt position = some Kind.out from h, map, Output.map]
    · next h => simp [show c.kindAt position ≠ some Kind.out from h]
  rw [outputs, outputs, List.map_filterMap]
  simp only [map, List.length_map]
  refine List.filterMap_congr fun producer _ => ?_
  cases producer with
  | none => rfl
  | some position => exact houtput position

/-- The built-in generators give the same statement whatever operands are written like. -/
theorem Builtin.statement?_map {α β : Type} (f : α → β) (b : Builtin) (c : Context α) :
    b.statement? (c.map f) = (b.statement? c).map (.map f) := by
  cases b with
  | unitUpdate => rfl
  | feedbackWrite => simp [statement?, Context.operand?, Context.map, Statement.map,
      Context.unitOfInput?, Context.producer?]
  | arithmetic operator => simp [statement?, Context.operand?, Context.map, Statement.map]
  | thru => simp [statement?, Context.operand?, Context.map, Statement.map]
  | exit =>
    rw [statement?, statement?, Context.outputs_map]
    cases c.outputs <;> rfl

/-- A generator is a built-in one. -/
def Generator.IsBuiltin : Generator → Prop
  | builtin _ => True
  | custom _ => False

instance (generator : Generator) : Decidable generator.IsBuiltin :=
  match generator with
  | .builtin _ => isTrue trivial
  | .custom _ => isFalse id

namespace Generator

variable {α β : Type} {generator : Generator} {c : Context α}

/-- What a built-in generator gives depends neither on the convention nor on how operands are
written. -/
theorem IsBuiltin.statement?_congr (h : generator.IsBuiltin) (write write' : α → String)
    (addressing : Addressing) :
    generator.statement? write { c with addressing } = generator.statement? write' c := by
  cases generator with
  | custom line? => exact h.elim
  | builtin b => cases b <;> rfl

/-- A statement is the same over two kinds of operands if the context of its node is. The line of a
custom generator has no operands left. -/
theorem map_statement?_congr {f f' : α → β} (h : c.map f = c.map f') (write : α → String) :
    (generator.statement? write c).map (Statement.map f) =
      (generator.statement? write c).map (Statement.map f') := by
  cases generator with
  | builtin b => rw [statement?, ← b.statement?_map, ← b.statement?_map, h]
  | custom line? =>
    rw [statement?, Option.map_map, Option.map_map]
    rfl

end Generator

/-- All generators of a registry are built-in ones. -/
def Registry.IsBuiltin (registry : Registry) : Prop :=
  ∀ operation ∈ registry.operations, ∀ generator ∈ operation.schema.generator, generator.IsBuiltin

instance (registry : Registry) : Decidable registry.IsBuiltin :=
  inferInstanceAs (Decidable (∀ operation ∈ registry.operations,
    ∀ generator ∈ operation.schema.generator, generator.IsBuiltin))

namespace Registry

variable {registry : Registry} {kind fallbackKind : String} {schema : Schema} {viaFallback : Bool}
  {generator : Generator}

/-- What holds of all generators of a registry holds of those that kinds are compiled with. -/
theorem forall_of_schema? {P : Generator → Prop} (h : ∀ operation ∈ registry.operations,
    ∀ generator ∈ operation.schema.generator, P generator)
    (hschema : registry.schema? kind = some schema)
    (hgenerator : schema.generator = some generator) : P generator := by
  rw [schema?, get?_eq_find?] at hschema
  obtain ⟨operation, hoperation, rfl⟩ := Option.map_eq_some_iff.mp hschema
  exact h operation (List.mem_of_find?_eq_some hoperation) generator hgenerator

theorem forall_of_resolve? {P : Generator → Prop} (h : ∀ operation ∈ registry.operations,
    ∀ generator ∈ operation.schema.generator, P generator)
    (hresolve : registry.resolve? fallbackKind kind = some (schema, viaFallback))
    (hgenerator : schema.generator = some generator) : P generator := by
  rw [resolve?] at hresolve
  split at hresolve
  · next hschema =>
    cases hresolve
    exact forall_of_schema? h hschema hgenerator
  · obtain ⟨fallback, hschema, heq⟩ := Option.map_eq_some_iff.mp hresolve
    cases heq
    exact forall_of_schema? h hschema hgenerator

theorem IsBuiltin.of_resolve? (h : registry.IsBuiltin)
    (hresolve : registry.resolve? fallbackKind kind = some (schema, viaFallback))
    (hgenerator : schema.generator = some generator) : generator.IsBuiltin :=
  forall_of_resolve? h hresolve hgenerator

end Registry

/-! ### One assembly for all namings -/

namespace Assembler

/-- Assemblers that differ in their namings only go through the same progress. -/
theorem run_naming (a : Assembler) (naming : Naming) (h : a.registry.IsBuiltin) (nodes : List Node)
    (i : Nat) (p : Progress) : { a with naming }.run nodes i p = a.run nodes i p := by
  induction nodes generalizing i p with
  | nil => rfl
  | cons node nodes ih =>
    rw [run, run]
    split
    · exact ih (i + 1) p.skip
    cases hresolve : a.registry.resolve? a.fallbackKind node.kind with
    | none => rfl
    | some resolved =>
      obtain ⟨schema, viaFallback⟩ := resolved
      have hentry : { a with naming }.entry p i node schema viaFallback =
          a.entry p i node schema viaFallback := by
        rw [entry, entry]
        cases hgenerator : schema.generator with
        | none => rfl
        | some generator =>
          -- only a custom generator would be shown the texts of the operands
          have hstatement := (h.of_resolve? hresolve hgenerator).statement?_congr
            (c := a.context p i node schema.tag) naming.write a.naming.write naming.addressing
          exact congrArg (Entry.mk i node.kind viaFallback _ · schema.tag) hstatement
      dsimp only
      rw [hentry]
      exact ih (i + 1) _

end Assembler

/-- The assembly for a layout is the same for all options with the same fallback kind. -/
theorem Layout.assemble_congr {registry : Registry} (h : registry.IsBuiltin) (l : Layout)
    {options options' : Options} (hfallback : options.fallbackKind = options'.fallbackKind) :
    l.assemble registry options = l.assemble registry options' := by
  have hrun := (l.assembler registry options').run_naming (l.naming options) h l.nodes.toList 0 {}
  rw [assemble, assemble, hfallback]
  exact congrArg (fun run : Progress × Option String => Assembly.mk run.1.entries.toList run.2) hrun

/-! ### Operands within a layout -/

/-- An operand is a literal, or a slot before position `n`. -/
def Operand.Within (n : Nat) : Operand → Prop
  | slot position => position < n
  | literal _ => True

namespace Layout

variable {l : Layout} {options : Options}

theorem operand_within (l : Layout) (input : Input) : (l.operand input).Within l.nodes.size := by
  have hat : ∀ i, (l.operandAt i).Within l.nodes.size := by
    intro i
    rw [operandAt]
    split
    · next node hnode =>
      split
      · exact trivial
      · exact (Array.getElem?_eq_some_iff.mp hnode).1
    · exact trivial
  cases input with
  | immediate value => exact trivial
  | node id => exact hat _

theorem naming_slot_eq_render {i : Nat} (hi : i < l.nodes.size) :
    (l.naming options).slot i = (Piece.slot i).render options l.rank := by
  rw [naming_slot hi, Piece.render]
  cases options.addressing <;> rfl

theorem naming_write_eq_render {operand : Operand} (h : operand.Within l.nodes.size) :
    (l.naming options).write operand = render options l.rank operand.pieces := by
  cases operand with
  | slot i => simpa [Naming.write, Operand.pieces] using naming_slot_eq_render h
  | literal value => exact (render_text value.form).symm

end Layout

/-- What a node is told is the same over two kinds of operands that agree within the layout. -/
theorem Assembler.contextAt_map_congr {a : Assembler} {β : Type} {f f' : Operand → β} {i : Nat}
    (hi : i < a.layout.nodes.size) (h : ∀ operand : Operand, operand.Within a.layout.nodes.size →
      f operand = f' operand) (node : Node) (tag : Option String) :
    (a.contextAt i node tag).map f = (a.contextAt i node tag).map f' := by
  have hinputs : ∀ node : Node, (node.inputs.map a.layout.operand).map f =
      (node.inputs.map a.layout.operand).map f' := by
    intro node
    rw [List.map_map, List.map_map]
    exact List.map_congr_left fun input _ => h _ (a.layout.operand_within input)
  -- the operands of other nodes come from the same layout
  have hoperandsAt : ∀ j, ((a.contextAt i node tag).operandsAt j).map f =
      ((a.contextAt i node tag).operandsAt j).map f' := by
    intro j
    simp only [contextAt]
    split
    · cases a.layout.nodes[j]? with
      | none => rfl
      | some other =>
        simp only [Option.map_some, Option.getD_some, operands]
        split
        · rfl
        · exact hinputs other
    · rfl
  have hslot : f (.slot i) = f' (.slot i) := h _ hi
  simp only [Context.map, hoperandsAt]
  simp only [contextAt, hinputs, hslot]

/-! ### Templates -/

/-- A program whose slots have no names yet, with the units that it needs. -/
structure Template where
  statements : List (List Piece)
  /-- The tag of each unit, and the operands of its node. -/
  units : List (String × List (List Piece))

/-- What a compile has emitted and what comes out of it are renderings of a template. -/
structure Template.Renders (t : Template) (options : Options) (rank : Nat → Nat)
    (c : Compilation) (compiled : Compiled) : Prop where
  statements : c.emitted.map (·.2) = t.statements.map (render options rank)
  program : compiled.program = String.intercalate "\n" (t.statements.map (render options rank))
  units : compiled.units =
    t.units.map fun (tag, inputs) => ⟨tag, inputs.map (render options rank)⟩

namespace Template.Renders

variable {t : Template} {options : Options} {rank : Nat → Nat} {c : Compilation}
  {compiled : Compiled}

theorem length_emitted (h : t.Renders options rank c compiled) :
    c.emitted.length = t.statements.length := by
  rw [← List.length_map, h.statements, List.length_map]

theorem unitTags (h : t.Renders options rank c compiled) :
    compiled.unitTags = t.units.map (·.1) := by
  rw [Compiled.unitTags, h.units, List.map_map]
  rfl

end Template.Renders

namespace Entry

/-- The pieces of the line of a node. -/
def pieces? (e : Entry) : Option (List Piece) :=
  e.statement.map fun statement => (statement.map Operand.pieces).pieces e.position e.kind

/-- The stateful unit of a node, with its operands in pieces. -/
def unitPieces? (e : Entry) : Option (String × List (List Piece)) :=
  e.tag.map (·, e.operands.map Operand.pieces)

end Entry

/-- The template of an assembly. -/
def Assembly.template (a : Assembly) : Template where
  statements := a.entries.filterMap Entry.pieces?
  units := a.entries.filterMap Entry.unitPieces?

namespace Layout

variable {l : Layout} {registry : Registry} {options : Options} {i : Nat} {e : Entry}

/-- The statement of a node is the same over texts and over rendered pieces. -/
theorem map_statement_eq_render (h : (l.assembler registry options).entryAt? i = some e) :
    e.statement.map (Statement.map (l.naming options).write) =
      e.statement.map (Statement.map (render options l.rank ∘ Operand.pieces)) := by
  obtain ⟨node, schema, viaFallback, hnode, -, rfl⟩ := Assembler.exists_of_entryAt? h
  have hi : i < l.nodes.size := (Array.getElem?_eq_some_iff.mp hnode).1
  have hwrite : ∀ operand : Operand, operand.Within l.nodes.size →
      (l.naming options).write operand = (render options l.rank ∘ Operand.pieces) operand :=
    fun _ hwithin => naming_write_eq_render hwithin
  have hcontext := Assembler.contextAt_map_congr (a := l.assembler registry options) hi hwrite
    node schema.tag
  dsimp only
  cases schema.generator with
  | none => rfl
  | some generator => exact generator.map_statement?_congr hcontext _

/-- The line of a node is a rendering of its pieces. -/
theorem line?_eq_render (h : (l.assembler registry options).entryAt? i = some e) :
    e.line? (l.naming options) = e.pieces?.map (render options l.rank) := by
  have hi : e.position < l.nodes.size := by
    obtain ⟨node, schema, viaFallback, hnode, -, rfl⟩ := Assembler.exists_of_entryAt? h
    exact (Array.getElem?_eq_some_iff.mp hnode).1
  have hstatement := map_statement_eq_render h
  rw [Entry.line?, Entry.pieces?]
  cases he : e.statement with
  | none => rfl
  | some statement =>
    rw [he, Option.map_some, Option.map_some, Option.some.injEq, ← Statement.map_map] at hstatement
    rw [Option.map_some, Option.map_some, Option.map_some, hstatement, naming_slot_eq_render hi,
      ← Statement.text_map_render]
    rfl

/-- So are the operands of a unit. -/
theorem unit?_eq_render (h : (l.assembler registry options).entryAt? i = some e) :
    e.unit? (l.naming options) = e.unitPieces?.map fun (tag, inputs) =>
      ⟨tag, inputs.map (render options l.rank)⟩ := by
  obtain ⟨node, schema, viaFallback, -, -, rfl⟩ := Assembler.exists_of_entryAt? h
  have hinputs : (node.inputs.map l.operand).map (l.naming options).write =
      ((node.inputs.map l.operand).map Operand.pieces).map (render options l.rank) := by
    rw [List.map_map, List.map_map, List.map_map]
    exact List.map_congr_left fun input _ => naming_write_eq_render (l.operand_within input)
  rw [Entry.unit?, Entry.unitPieces?, Option.map_map]
  exact congrArg (fun inputs => schema.tag.map fun tag => StatefulUnit.mk tag inputs) hinputs

end Layout

section Compile

variable (registry : Registry) (options : Options) (g : Graph) (root : NodeId)

/-- Every compile is a rendering of the template of its assembly. -/
theorem compile_renders {compiled : Compiled}
    (h : (compile registry options g root).outcome = .ok compiled) :
    ((Layout.ofGraph g root options.constantKind).assemble registry options).template.Renders
      options (Layout.ofGraph g root options.constantKind).rank
      (compile registry options g root) compiled := by
  have hemitted := compile_emitted registry options g root
  rw [compile_outcome] at h
  set l := Layout.ofGraph g root options.constantKind
  obtain ⟨n, hentries, -⟩ := l.assemble_entries registry options
  -- lines and units are made entry by entry
  have hentry : ∀ e ∈ (l.assemble registry options).entries,
      ∃ i, (l.assembler registry options).entryAt? i = some e := by
    intro e he
    rw [hentries] at he
    obtain ⟨i, -, hi⟩ := List.mem_filterMap.mp he
    exact ⟨i, hi⟩
  have hstatements : (compile registry options g root).emitted.map (·.2) =
      (l.assemble registry options).template.statements.map (render options l.rank) := by
    rw [hemitted, Assembly.template, List.map_filterMap, List.map_filterMap]
    refine List.filterMap_congr fun e he => ?_
    obtain ⟨i, hi⟩ := hentry e he
    rw [Entry.emission?, Option.map_map, ← Layout.line?_eq_render hi]
    exact Option.map_id'
  split at h
  · cases h
  · obtain rfl := Except.ok.inj h
    refine ⟨hstatements, by rw [hstatements], ?_⟩
    rw [Assembly.template, List.map_filterMap]
    refine List.filterMap_congr fun e he => ?_
    obtain ⟨i, hi⟩ := hentry e he
    exact Layout.unit?_eq_render hi

end Compile

/-- Two compiles are the same up to the text of slots. Both fail with the same error, or both
succeed: then they have as many slots, as many statements and the same tags, and one template
renders to both of them. -/
def Compilation.SameUpToSlots (options options' : Options) (rank : Nat → Nat)
    (c c' : Compilation) : Prop :=
  match c.outcome, c'.outcome with
  | .error error, .error error' => error = error'
  | .ok compiled, .ok compiled' =>
    compiled.slotCount = compiled'.slotCount ∧
    c.emitted.length = c'.emitted.length ∧
    compiled.unitTags = compiled'.unitTags ∧
    ∃ template : Template,
      template.Renders options rank c compiled ∧ template.Renders options' rank c' compiled'
  | _, _ => False

/-- The conventions give the same program up to the text of slots, whatever identifiers begin with
and whatever is logged. Registers are numbered by the nodes with a slot before them. -/
theorem compile_sameUpToSlots {registry : Registry} (hregistry : registry.IsBuiltin)
    {options options' : Options} (hconstant : options.constantKind = options'.constantKind)
    (hfallback : options.fallbackKind = options'.fallbackKind) (g : Graph) (root : NodeId) :
    Compilation.SameUpToSlots options options' (Layout.ofGraph g root options.constantKind).rank
      (compile registry options g root) (compile registry options' g root) := by
  have hassemble := Layout.assemble_congr hregistry (Layout.ofGraph g root options.constantKind)
    hfallback
  have houtcome := compile_outcome registry options g root
  have houtcome' := compile_outcome registry options' g root
  rw [← hconstant, ← hassemble] at houtcome'
  rw [Compilation.SameUpToSlots]
  cases hfailure : ((Layout.ofGraph g root options.constantKind).assemble registry
      options).failure with
  | some kind =>
    rw [hfailure] at houtcome houtcome'
    rw [houtcome, houtcome', hfallback]
  | none =>
    rw [hfailure] at houtcome houtcome'
    have hrenders := compile_renders registry options g root houtcome
    have hrenders' := compile_renders registry options' g root houtcome'
    rw [← hconstant, ← hassemble] at hrenders'
    rw [houtcome, houtcome']
    refine ⟨rfl, ?_, ?_, _, hrenders, hrenders'⟩
    · rw [hrenders.length_emitted, hrenders'.length_emitted]
    · rw [hrenders.unitTags, hrenders'.unitTags]

theorem Registry.standard_isBuiltin : Registry.standard.IsBuiltin := by
  rw [IsBuiltin, standard_operations]
  decide

/-- Noise at twice its level, plain and filtered. The constant comes between two slots, so that
positions and registers differ. -/
def Graph.filteredNoise : Graph where
  nodes := #[
    { kind := Kind.noise },
    { kind := Kind.constant, value := some 2 },
    { kind := Kind.mul, inputs := [.node 0, .node 1] },
    { kind := Kind.lpf, inputs := [.node 2, .immediate (.text "high")] },
    { kind := Kind.out, inputs := [.node 3] },
    { kind := Kind.out, inputs := [.node 2, .node 3] },
    { kind := Kind.exit, inputs := [.node 4, .node 5] }]

theorem Graph.filteredNoise_sameUpToSlots :
    Registry.standard.IsBuiltin ∧
      (∃ compiled, (compile .standard { stem := "node" } filteredNoise 6).outcome = .ok compiled) ∧
      Compilation.SameUpToSlots { stem := "node" } { addressing := .registers, log := true }
        (Layout.ofGraph filteredNoise 6 Kind.constant).rank
        (compile .standard { stem := "node" } filteredNoise 6)
        (compile .standard { addressing := .registers, log := true } filteredNoise 6) := by
  have hfallback : (Registry.standard.schema? Kind.thru).isSome := by
    rw [Registry.schema?, Registry.get?_eq_find?, Registry.standard_operations]
    decide
  exact ⟨Registry.standard_isBuiltin, exists_compiled_of_fallback _ _ _ _ hfallback,
    compile_sameUpToSlots Registry.standard_isBuiltin (by rfl) (by rfl) filteredNoise 6⟩

end Patchbay
