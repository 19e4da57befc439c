import Patchbay.Proofs.Compile.Nodes
import Patchbay.Proofs.Graph.Composition
import Patchbay.Proofs.Graph.Renaming

/-!
# Compiling does not see names

What a patch compiles to depends on the shape of what its root depends on, and on nothing else:
not on the order in which nodes were appended, not on their places, and not on nodes that the root
does not depend on. `compile_rename` says this of everything that a compile gives, its events
included.

A generator is handed the nodes themselves, so a custom one can write the place of a node into its
line, and then places do matter (`Graph.not_compile_rename`). The registries of `compile_rename` are
those whose generators ignore names: different names for the nodes of a context, as long as
different nodes keep different names, do not change the line (`Generator.IgnoresNames`). A generator
may still read kinds, payloads, tags and positions, follow inputs from node to node, and ask whether
two inputs are the same node. All built-in generators ignore names. Literals have to be the same,
and not only equal as numbers: minus zero is written differently from zero.

The layouts of the two graphs have corresponding nodes at each position (`Layout.rename_nodes`),
and corresponding inputs have equal operands and producers. From there on the two compiles are the
same: their assemblies have the same progress at every step (`Assembler.run_rename`).
-/

namespace Patchbay

variable {σ : NodeId → NodeId} {g g' : Graph} {root root' id : NodeId} {constantKind : String}

theorem Graph.Renames.kind (h : Renames σ g root g' root') (hid : g.Reachable root id) :
    g'.kind (σ id) = g.kind id := by
  rw [Graph.kind, Graph.kind, h.node?_eq hid]
  cases g.node? id <;> rfl

/-! ### Generators that ignore names -/

/-- The same node, with other names for itself and for its inputs. -/
def PlacedNode.rename (σ : NodeId → NodeId) (node : PlacedNode) : PlacedNode where
  toNode := node.toNode.rename σ
  place := σ node.place

/-- The names in a node: its own and those of its inputs. -/
def PlacedNode.names (node : PlacedNode) : List NodeId :=
  node.place :: node.producers

namespace Context

variable {α β : Type} {c : Context α}

/-- The same context, with other names for the nodes. -/
def rename (σ : NodeId → NodeId) (c : Context α) : Context α :=
  { c with
    node := c.node.rename σ
    nodeAt := fun position => (c.nodeAt position).map (PlacedNode.rename σ) }

/-- The nodes whose names a context holds. -/
def Names (c : Context α) (id : NodeId) : Prop :=
  id ∈ c.node.names ∨ ∃ position, ∃ node ∈ c.nodeAt position, id ∈ node.names

theorem rename_kindAt (σ : NodeId → NodeId) (c : Context α) : (c.rename σ).kindAt = c.kindAt := by
  funext position
  rw [kindAt, kindAt, rename, Option.map_map]
  rfl

theorem rename_outputs (σ : NodeId → NodeId) (c : Context α) :
    (c.rename σ).outputs = c.outputs := by
  have houtput? : (c.rename σ).output? = c.output? := by
    funext position
    rw [output?, output?, rename_kindAt]
    rfl
  rw [outputs, outputs, houtput?]
  rfl

end Context

theorem Builtin.statement?_rename {α : Type} (b : Builtin) (σ : NodeId → NodeId) (c : Context α) :
    b.statement? (c.rename σ) = b.statement? c := by
  cases b with
  | exit => rw [statement?, statement?, Context.rename_outputs]
  | _ => rfl

namespace Generator

variable {α : Type} {generator : Generator} {c : Context α}

theorem line?_custom (line? : Context String → Option String) (c : Context String) :
    (custom line?).line? c = line? c := by
  have hmap : c.map id = c := by
    simp only [Context.map, id_eq, List.map_id]
  rw [Generator.line?, statement?, hmap, Option.map_map]
  exact Option.map_id_apply

/-- A generator that gives the same line whatever the nodes are called, as long as different nodes
are called differently. -/
def IgnoresNames (generator : Generator) : Prop :=
  ∀ (c : Context String) (σ : NodeId → NodeId), Set.InjOn σ {id | c.Names id} →
    generator.line? (c.rename σ) = generator.line? c

theorem ignoresNames_builtin (b : Builtin) : (builtin b).IgnoresNames := by
  intro c σ _
  rw [line?, line?, statement?, statement?, b.statement?_rename]
  rfl

theorem IgnoresNames.statement?_rename (h : generator.IgnoresNames)
    (hinj : Set.InjOn σ {id | c.Names id}) (write : α → String) :
    generator.statement? write (c.rename σ) = generator.statement? write c := by
  cases generator with
  | builtin b => exact b.statement?_rename σ c
  | custom line? =>
    have hline := h (c.map write) σ hinj
    rw [line?_custom, line?_custom] at hline
    exact congrArg (Option.map Statement.verbatim) hline

end Generator

/-- All generators of a registry ignore names. -/
def Registry.IgnoresNames (registry : Registry) : Prop :=
  ∀ operation ∈ registry.operations, ∀ generator ∈ operation.schema.generator,
    generator.IgnoresNames

theorem Registry.IsBuiltin.ignoresNames {registry : Registry} (h : registry.IsBuiltin) :
    registry.IgnoresNames := by
  intro operation hoperation generator hgenerator
  match generator, h operation hoperation generator hgenerator with
  | .builtin b, _ => exact Generator.ignoresNames_builtin b

/-! ### Layouts -/

namespace Layout

variable (constantKind)

/-- The nodes at a position correspond. -/
theorem rename_nodes (h : Graph.Renames σ g root g' root') :
    (ofGraph g' root' constantKind).nodes =
      (ofGraph g root constantKind).nodes.map (Node.rename σ) := by
  apply Array.toList_inj.mp
  rw [Array.toList_map, ofGraph_nodes_toList, ofGraph_nodes_toList, h.postorder,
    List.filterMap_map, List.map_filterMap]
  refine List.filterMap_congr fun id hid => ?_
  exact h.node?_eq (h.reachable_of_mem_postorder hid)

/-- The inputs of scheduled nodes belong to what the root depends on. -/
theorem reachable_of_mem_inputs (h : Graph.Renames σ g root g' root') {node : Node}
    (hnode : node ∈ (ofGraph g root constantKind).nodes.toList)
    (hinput : Input.node id ∈ node.inputs) : g.Reachable root id := by
  rw [ofGraph_nodes_toList] at hnode
  obtain ⟨consumer, hconsumer, hnode⟩ := List.mem_filterMap.mp hnode
  refine (h.reachable_of_mem_postorder hconsumer).feeds ?_
  rwa [Graph.Feeds, Graph.inputs_of_node? hnode]

/-- The places at a position correspond. -/
theorem rename_place (h : Graph.Renames σ g root g' root') (i : Nat) :
    (ofGraph g' root' constantKind).place i = σ ((ofGraph g root constantKind).place i) := by
  simp only [ofGraph, Graph.schedule_order, Array.getD_eq_getD_getElem?, ← Array.getElem?_toList]
  rw [h.postorder, List.getElem?_map, ← h.maps_root]
  cases (g.postorder root).toList[i]? <;> rfl

theorem reachable_place (h : Graph.Renames σ g root g' root') (i : Nat) :
    g.Reachable root ((ofGraph g root constantKind).place i) := by
  simp only [ofGraph, Graph.schedule_order, Array.getD_eq_getD_getElem?, ← Array.getElem?_toList]
  cases hid : (g.postorder root).toList[i]? with
  | none => exact .root
  | some id => exact h.reachable_of_mem_postorder (List.mem_of_getElem? hid)

theorem rename_placedAt (h : Graph.Renames σ g root g' root') (i : Nat) :
    (ofGraph g' root' constantKind).placedAt i =
      ((ofGraph g root constantKind).placedAt i).map (PlacedNode.rename σ) := by
  rw [placedAt, placedAt, rename_nodes constantKind h, rename_place constantKind h,
    Array.getElem?_map, Option.map_map, Option.map_map]
  rfl

theorem rename_operandAt (h : Graph.Renames σ g root g' root') (i : Nat) :
    (ofGraph g' root' constantKind).operandAt i = (ofGraph g root constantKind).operandAt i := by
  rw [operandAt, operandAt, rename_nodes constantKind h, Array.getElem?_map]
  cases (ofGraph g root constantKind).nodes[i]? <;> rfl

/-- Corresponding inputs have the same producer. -/
theorem rename_producer? (h : Graph.Renames σ g root g' root') {input : Input}
    (hinput : ∀ id, input = .node id → g.Reachable root id) :
    (ofGraph g' root' constantKind).producer? (input.rename σ) =
      (ofGraph g root constantKind).producer? input := by
  cases input with
  | immediate _ => rfl
  | node id => exact h.position? (hinput id rfl)

/-- Corresponding inputs have the same operand. -/
theorem rename_operand (h : Graph.Renames σ g root g' root') {input : Input}
    (hinput : ∀ id, input = .node id → g.Reachable root id) :
    (ofGraph g' root' constantKind).operand (input.rename σ) =
      (ofGraph g root constantKind).operand input := by
  cases input with
  | immediate _ => rfl
  | node id =>
    have hposition : (ofGraph g' root' constantKind).position? (σ id) =
        (ofGraph g root constantKind).position? id := h.position? (hinput id rfl)
    rw [Input.rename, operand, operand, hposition, rename_operandAt constantKind h]

theorem rename_slotCount (h : Graph.Renames σ g root g' root') :
    (ofGraph g' root' constantKind).slotCount = (ofGraph g root constantKind).slotCount := by
  rw [slotCount, slotCount, rename_nodes constantKind h, Array.countP_map]
  rfl

theorem rename_naming (h : Graph.Renames σ g root g' root') (options : Options) :
    (ofGraph g' root' constantKind).naming options =
      (ofGraph g root constantKind).naming options := by
  have hranks : (ofGraph g' root' constantKind).ranks = (ofGraph g root constantKind).ranks := by
    rw [ranks, ranks, rename_nodes constantKind h, Array.foldl_map]
    rfl
  rw [naming, naming, hranks]

end Layout

/-! ### Assemblies -/

namespace Assembler

/-- Two assemblers that differ in their layouts only, node by node and up to the names, go through
the same progress. -/
theorem run_rename (a : Assembler) (layout : Layout) {nodes : List Node} {known : Set NodeId}
    (hregistry : a.registry.IgnoresNames) (hinj : Set.InjOn σ known)
    (hconstant : layout.constantKind = a.layout.constantKind)
    (hplace : ∀ i, layout.place i = σ (a.layout.place i))
    (hplaced : ∀ i, layout.placedAt i = (a.layout.placedAt i).map (PlacedNode.rename σ))
    (hknown : ∀ i, a.layout.place i ∈ known)
    (hknownAt : ∀ i, ∀ node ∈ a.layout.placedAt i, ∀ id ∈ node.names, id ∈ known)
    (hnodes : ∀ node ∈ nodes, (∀ id ∈ node.producers, id ∈ known) ∧
      (node.rename σ).inputs.map layout.producer? = node.inputs.map a.layout.producer? ∧
      (node.rename σ).inputs.map layout.operand = node.inputs.map a.layout.operand)
    (i : Nat) (p : Progress) :
    { a with layout }.run (nodes.map (Node.rename σ)) i p = a.run nodes i p := by
  induction nodes generalizing i p with
  | nil => rfl
  | cons node nodes ih =>
    have ih := ih fun node hnode => hnodes node (List.mem_cons_of_mem _ hnode)
    obtain ⟨hnames, hproducers, hoperands⟩ := hnodes node List.mem_cons_self
    have hcontext : ∀ tag, { a with layout }.context p i (node.rename σ) tag =
        (a.context p i node tag).rename σ := by
      intro tag
      simp only [context, Context.rename, hproducers, hoperands, hplace, funext hplaced]
      rfl
    -- so no two names of the context become one
    have hcontextInj : ∀ tag, Set.InjOn σ {id | (a.context p i node tag).Names id} := by
      refine fun tag => hinj.mono fun id hid => ?_
      rcases hid with hid | ⟨position, other, hother, hid⟩
      · rcases List.mem_cons.mp hid with rfl | hid
        · exact hknown i
        · exact hnames id hid
      · exact hknownAt position other hother id hid
    have hconst : layout.isConstant (node.rename σ) = a.layout.isConstant node := by
      rw [Layout.isConstant, Layout.isConstant, hconstant, Node.rename_kind]
    rw [List.map_cons, run, run]
    simp only [hconst, Node.rename_kind]
    split
    · exact ih (i + 1) p.skip
    cases hresolve : a.registry.resolve? a.fallbackKind node.kind with
    | none => rfl
    | some resolved =>
      obtain ⟨schema, viaFallback⟩ := resolved
      have hstatement : schema.generator.bind
          (·.statement? a.naming.write ((a.context p i node schema.tag).rename σ)) =
          schema.generator.bind (·.statement? a.naming.write (a.context p i node schema.tag)) := by
        cases hgenerator : schema.generator with
        | none => rfl
        | some generator =>
          have hgenerator := Registry.forall_of_resolve? hregistry hresolve hgenerator
          exact hgenerator.statement?_rename (hcontextInj schema.tag) a.naming.write
      have hentry : { a with layout }.entry p i (node.rename σ) schema viaFallback =
          a.entry p i node schema viaFallback := by
        simp only [entry, hcontext, hstatement]
        rfl
      dsimp only
      rw [hentry]
      exact ih (i + 1) _

end Assembler

theorem Layout.rename_assemble (h : Graph.Renames σ g root g' root') {registry : Registry}
    (hregistry : registry.IgnoresNames) (options : Options) :
    (Layout.ofGraph g' root' constantKind).assemble registry options =
      (Layout.ofGraph g root constantKind).assemble registry options := by
  have hinput : ∀ node ∈ (Layout.ofGraph g root constantKind).nodes.toList,
      ∀ input ∈ node.inputs, ∀ id, input = .node id → g.Reachable root id := by
    rintro node hnode _ hmem id rfl
    exact reachable_of_mem_inputs constantKind h hnode hmem
  have hproducers : ∀ node ∈ (Layout.ofGraph g root constantKind).nodes.toList,
      ∀ id ∈ node.producers, g.Reachable root id := by
    intro node hnode id hid
    exact hinput node hnode _ (Input.mem_filterMap_node?.mp hid) id rfl
  rw [assemble, assemble, rename_nodes constantKind h, rename_naming constantKind h,
    Array.toList_map]
  refine congrArg (fun run : Progress × Option String => Assembly.mk run.1.entries.toList run.2)
    (Assembler.run_rename ⟨registry, options.fallbackKind, ofGraph g root constantKind,
      (ofGraph g root constantKind).naming options⟩ (ofGraph g' root' constantKind) hregistry
      h.bijOn.injOn rfl (rename_place constantKind h) (rename_placedAt constantKind h)
      (reachable_place constantKind h) ?_ ?_ 0 {})
  · intro i node hnode id hid
    obtain ⟨inner, hinner, rfl⟩ := Option.map_eq_some_iff.mp hnode
    rcases List.mem_cons.mp hid with rfl | hid
    · exact reachable_place constantKind h i
    · rw [← Array.getElem?_toList] at hinner
      exact hproducers inner (List.mem_of_getElem? hinner) id hid
  · intro node hnode
    refine ⟨hproducers node hnode, ?_, ?_⟩ <;> rw [Node.rename_inputs, List.map_map]
    · exact List.map_congr_left fun input hmem =>
        rename_producer? constantKind h (hinput node hnode input hmem)
    · exact List.map_congr_left fun input hmem =>
        rename_operand constantKind h (hinput node hnode input hmem)

/-! ### Programs -/

theorem Event.ofLayout_rename (h : Graph.Renames σ g root g' root') (options : Options) :
    ofLayout options (g'.kind root') (Layout.ofGraph g' root' constantKind) =
      ofLayout options (g.kind root) (Layout.ofGraph g root constantKind) := by
  rw [ofLayout, ofLayout, Layout.rename_nodes constantKind h, ← h.maps_root, h.kind .root,
    Array.size_map, Array.toList_map]
  congr 1
  apply List.ext_getElem?
  intro i
  rw [List.getElem?_mapIdx, List.getElem?_mapIdx, List.getElem?_map, Option.map_map]
  rfl

/-- Compiles of what differs in names only are the same. -/
theorem Graph.Renames.compile_eq (h : Renames σ g root g' root') {registry : Registry}
    (hregistry : registry.IgnoresNames) (options : Options) :
    compile registry options g' root' = compile registry options g root := by
  simp only [compile, Event.ofLayout_rename h, Layout.rename_naming _ h,
    Layout.rename_assemble h hregistry, Layout.rename_slotCount _ h]

/-- Compiling sees the shape of a patch and nothing else. If two roots depend on the same nodes up
to their names, the schedules correspond position by position. If, besides, no generator of the
registry makes use of names, everything that the two compiles give is the same: program, units and
number of slots, or error, and all events. -/
theorem compile_rename (h : Graph.Renames σ g root g' root') {registry : Registry}
    (hregistry : registry.IgnoresNames) (options : Options) :
    (g'.schedule root').order = (g.schedule root).order.map σ ∧
      (∀ id, g.Reachable root id →
        (g'.schedule root').position? (σ id) = (g.schedule root).position? id) ∧
      compile registry options g' root' = compile registry options g root := by
  refine ⟨?_, fun id hid => h.position? hid, h.compile_eq hregistry options⟩
  apply Array.toList_inj.mp
  rw [Array.toList_map]
  exact h.postorder

/-- It is enough that names do not clash: nodes and roots then determine what corresponds. -/
theorem Graph.Renames.of_injOn (hroot : σ root = root')
    (hinj : Set.InjOn σ {id | g.Reachable root id})
    (hnode : ∀ {id}, g.Reachable root id → g'.node? (σ id) = (g.node? id).map (Node.rename σ)) :
    Renames σ g root g' root' := by
  have hinputs : ∀ {id}, g.Reachable root id →
      g'.inputs (σ id) = (g.inputs id).map (Input.rename σ) := by
    intro id hid
    rw [Graph.inputs, Graph.inputs, hnode hid]
    cases g.node? id <;> rfl
  refine ⟨hroot, ⟨?_, hinj, ?_⟩, hnode⟩
  · intro id hid
    induction hid with
    | root => exact hroot ▸ .root
    | feeds hconsumer hfeeds ih =>
      refine Reachable.feeds ih ?_
      rw [Feeds, hinputs hconsumer]
      exact List.mem_map_of_mem hfeeds
  · -- every node on the other side is the image of one on this side, from the root on
    intro id' hid'
    induction hid' with
    | root => exact ⟨root, .root, hroot⟩
    | feeds _ hfeeds ih =>
      obtain ⟨consumer, hconsumer, rfl⟩ := ih
      rw [Feeds, hinputs hconsumer] at hfeeds
      obtain ⟨input, hinput, heq⟩ := List.mem_map.mp hfeeds
      cases input with
      | immediate _ => cases heq
      | node id => exact ⟨id, hconsumer.feeds hinput, Input.node.inj heq⟩

/-- The diamond again, built in another order, behind a constant that nothing uses. -/
def Graph.rebuiltDiamond : Graph where
  nodes := #[
    { kind := Kind.constant, value := some 3 },
    { kind := Kind.noise },
    { kind := Kind.lpf, inputs := [.node 1, .immediate (.text "high")] },
    { kind := Kind.hpf, inputs := [.node 1, .immediate (.text "low")] },
    { kind := Kind.add, inputs := [.node 2, .node 3] },
    { kind := Kind.mul, inputs := [.node 4, .node 4] }]

/-- Where the nodes of the diamond went. -/
def Graph.rebuilt (id : NodeId) : NodeId :=
  [1, 3, 2, 4, 0, 5].getD id 0

theorem Graph.diamond_renames : Renames rebuilt diamond 5 rebuiltDiamond 5 := by
  have hmem : ∀ {id}, diamond.Reachable 5 id → id ∈ [0, 1, 2, 3, 5] := by
    intro id hid
    induction hid with
    | root => decide
    | @feeds consumer producer _ hfeeds ih =>
      exact (by decide : ∀ consumer ∈ [0, 1, 2, 3, 5], ∀ producer ∈ diamond.producers consumer,
        producer ∈ [0, 1, 2, 3, 5]) consumer ih producer (mem_producers.mpr hfeeds)
  refine .of_injOn (by decide) ?_ fun hid => ?_
  · intro id hid id' hid' heq
    exact (by decide : ∀ id ∈ [0, 1, 2, 3, 5], ∀ id' ∈ [0, 1, 2, 3, 5],
      rebuilt id = rebuilt id' → id = id') id (hmem hid) id' (hmem hid') heq
  · exact (by decide : ∀ id ∈ [0, 1, 2, 3, 5],
      rebuiltDiamond.node? (rebuilt id) = (diamond.node? id).map (Node.rename rebuilt)) _ (hmem hid)

/-- A highpass with lines made by hand. They tell the kind, the payload, the position and the tag of
the node, and the kinds of the nodes behind its inputs. -/
def Operation.described : Operation :=
  ⟨Kind.hpf, "Described highpass", .custom, .stateful "Described" <| .custom fun c =>
    some <| c.site.assign <| String.intercalate "," <|
      [c.kind, toString c.position, c.tag.getD "", ((c.node.value.map Literal.form).getD "")]
        ++ c.producers.map fun producer => ((producer.bind c.kindAt).getD "")⟩

theorem Registry.described_ignoresNames : (standard.register .described).IgnoresNames := by
  intro operation hoperation generator hgenerator
  rcases eq_or_mem_of_mem_register hoperation with rfl | hoperation
  · obtain rfl := Option.some.inj hgenerator
    intro c σ _
    rw [Generator.line?_custom, Generator.line?_custom, Context.rename_kindAt]
    rfl
  · exact standard_isBuiltin.ignoresNames operation hoperation generator hgenerator

theorem Graph.diamond_compile_rename :
    Renames rebuilt diamond 5 rebuiltDiamond 5 ∧
      (Registry.standard.register .described).IgnoresNames ∧
      (rebuiltDiamond.schedule 5).order = (diamond.schedule 5).order.map rebuilt ∧
      (∀ id, diamond.Reachable 5 id →
        (rebuiltDiamond.schedule 5).position? (rebuilt id) = (diamond.schedule 5).position? id) ∧
      compile (.register .standard .described) {} rebuiltDiamond 5 =
        compile (.register .standard .described) {} diamond 5 :=
  ⟨diamond_renames, Registry.described_ignoresNames,
    compile_rename diamond_renames Registry.described_ignoresNames {}⟩

/-! ### Names in lines, and equal numbers -/

/-- A kind whose statement is the place of its node. -/
def Operation.mark : Operation :=
  ⟨"mark", "Place of a node", .custom, .stateless (.custom fun c => some (toString c.node.place))⟩

/-- Marks, none of which is connected to another. -/
def Graph.marks (n : Nat) : Graph where
  nodes := Array.replicate n { kind := "mark" }

/-- A node that copies a literal. -/
def Graph.copyOf (value : Literal) : Graph where
  nodes := #[{ kind := Kind.thru, inputs := [.immediate value] }]

/-- Numbers that compare equal: neither is NaN, and they are the same or both are zeros. -/
def Binary64.Equal (x y : Binary64) : Prop :=
  x.isNaN = false ∧ y.isNaN = false ∧ (x = y ∨ x.code.val = 0 ∧ y.code.val = 0)

/-- A node without inputs is scheduled alone. -/
theorem Graph.postorder_of_producers_eq_nil (hg : g.Acyclic) (h : g.producers root = []) :
    g.postorder root = #[root] := by
  apply Array.toList_inj.mp
  rw [postorder_eq_inputOrders hg, inputOrders, h]
  rfl

/-- The marks at the places `0` and `1` give different lines. -/
theorem Graph.marks_emitted :
    (compile (Registry.empty.register .mark) {} (marks 1) 0).emitted.map (·.2) = ["0"] ∧
      (compile (Registry.empty.register .mark) {} (marks 2) 1).emitted.map (·.2) = ["1"] := by
  have hone : (marks 1).WellFormed := by decide
  have htwo : (marks 2).WellFormed := by decide
  have hfirst : (marks 1).postorder 0 = #[0] := postorder_of_producers_eq_nil hone.acyclic rfl
  have hsecond : (marks 2).postorder 1 = #[1] := postorder_of_producers_eq_nil htwo.acyclic rfl
  rw [compile_emitted, compile_emitted]
  simp only [Layout.ofGraph, schedule, hfirst, hsecond]
  exact ⟨rfl, rfl⟩

/-- The program of a copy. -/
theorem Graph.copyOf_program (value : Literal) : ∃ compiled,
    (compile .standard {} (copyOf value) 0).outcome = .ok compiled ∧
      compiled.program =
        Addressing.identifiers.assign (Addressing.identifiers.slot "n" 0) value.form := by
  have hwellFormed : (copyOf value).WellFormed := by
    intro id node hnode producer hproducer
    obtain ⟨hlt, rfl⟩ := node?_eq_some_iff.mp hnode
    obtain rfl : id = 0 := Nat.lt_one_iff.mp hlt
    cases hproducer
  set job : Job := { graph := copyOf value, root := 0 }
  have hsound : job.Sound := ⟨hwellFormed.acyclic, Nat.one_pos⟩
  obtain ⟨compiled, hok⟩ : ∃ compiled, job.compile.outcome = .ok compiled :=
    Job.exists_compiled rfl rfl
  have horder : job.order = [0] :=
    congrArg Array.toList (postorder_of_producers_eq_nil hwellFormed.acyclic rfl)
  have hgenerator : job.generator? 0 = some (.builtin .thru) := by
    have hschema : job.registry.schema? Kind.thru = some Role.copy.schema := by
      rw [Registry.standard_schema?]
      rfl
    have hresolve : job.registry.resolve? Kind.thru Kind.thru = some (Role.copy.schema, false) := by
      rw [Registry.resolve?, hschema]
    exact congrArg (fun resolved => (resolved.map (·.1)).bind (·.generator)) hresolve
  have hline : job.line? 0 =
      some (Addressing.identifiers.assign (Addressing.identifiers.slot "n" 0) value.form) := by
    have hslot : job.slotName 0 = Addressing.identifiers.slot "n" 0 := by
      rw [Job.slotName, Job.slotIndex, Job.position, Job.before, horder]
      rfl
    rw [← hslot, Job.line?, hgenerator]
    rfl
  have hemitted := hsound.map_emitted_snd Registry.standard_isBuiltin
    (hsound.find?_isStuck_of_ok hok)
  rw [horder, List.filterMap_cons_some hline, List.filterMap_nil] at hemitted
  have hprogram := congrArg Compiled.program (hsound.eq_result_of_ok hok)
  refine ⟨compiled, hok, hprogram.trans ?_⟩
  rw [Job.result, hemitted]
  exact String.intercalate_singleton (s := "\n")

/-- Names matter to a generator that writes them down. And equal numbers are not enough: minus zero
compares equal to zero, and a program tells them apart. -/
theorem Graph.not_compile_rename :
    (Renames (· + 1) (marks 1) 0 (marks 2) 1 ∧
      compile (Registry.empty.register .mark) {} (marks 2) 1 ≠
        compile (Registry.empty.register .mark) {} (marks 1) 0) ∧
    ((Binary64.ofCode true 0).Equal (Binary64.ofCode false 0) ∧
      (compile .standard {} (copyOf (.number (Binary64.ofCode true 0))) 0).outcome ≠
        (compile .standard {} (copyOf (.number (Binary64.ofCode false 0))) 0).outcome) := by
  refine ⟨⟨.of_injOn rfl (by simp) fun hid => ?_, fun heq => ?_⟩, ⟨rfl, rfl, .inr ⟨rfl, rfl⟩⟩,
    fun heq => ?_⟩
  · induction hid with
    | root => rfl
    | @feeds consumer _ _ hfeeds =>
      -- no mark has an input
      have hinputs : (marks 1).inputs consumer = [] := by
        cases consumer <;> rfl
      rw [Feeds, hinputs] at hfeeds
      cases hfeeds
  · have hemitted := marks_emitted.2
    rw [heq, marks_emitted.1] at hemitted
    exact absurd hemitted (by decide)
  · obtain ⟨compiled, hok, hprogram⟩ := copyOf_program (.number (Binary64.ofCode true 0))
    obtain ⟨compiled', hok', hprogram'⟩ := copyOf_program (.number (Binary64.ofCode false 0))
    obtain rfl : compiled = compiled' := Except.ok.inj (hok.symm.trans (heq.trans hok'))
    rw [hprogram] at hprogram'
    exact absurd hprogram' (by decide)

end Patchbay
