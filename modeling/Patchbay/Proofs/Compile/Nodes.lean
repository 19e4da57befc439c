import Mathlib.Data.List.Find
import Patchbay.Proofs.Compile.Job

/-!
# Compiling, node by node

A `Job` describes its program by node; the compiler makes it by position. The two agree. What the
node at a position is told agrees with what the job says of it (`Job.Sound.contextAt_agrees`), so
the lines and the units are the same.

A whole compile is then made of the lines and the units of the nodes, in the order of the schedule
(`Job.Sound.outcome_of_find?_eq_none`, `Job.Sound.emitted_eq`), or it fails at the first node that
has no schema (`Job.Sound.outcome_of_find?_eq_some`).
-/

namespace Patchbay

/-! ### Lists by place -/

section Lists

variable {α β : Type}

/-- The part of a list before an element that occurs once. -/
theorem takeWhile_ne_of_getElem? [DecidableEq α] {l : List α} {a : α} {i : Nat} (hnodup : l.Nodup)
    (hi : l[i]? = some a) : l.takeWhile (· ≠ a) = l.take i := by
  induction l generalizing i with
  | nil => simp at hi
  | cons first l ih =>
    rw [List.nodup_cons] at hnodup
    cases i with
    | zero =>
      obtain rfl : first = a := by simpa using hi
      simp
    | succ i =>
      have hi' : l[i]? = some a := by simpa using hi
      have hne : first ≠ a := fun h => hnodup.1 (h ▸ List.mem_of_getElem? hi')
      rw [List.takeWhile_cons_of_pos (by simpa using hne), ih hnodup.2 hi', List.take_succ_cons]

/-- An element that a filter keeps stands after those that it keeps before the element. -/
theorem countP_takeWhile_ne_of_getElem? [DecidableEq α] {l : List α} {p : α → Bool} {a : α}
    {k : Nat} (hnodup : l.Nodup) (hk : (l.filter p)[k]? = some a) :
    (l.takeWhile (· ≠ a)).countP p = k := by
  obtain ⟨hmem, ha⟩ := List.mem_filter.mp (List.mem_of_getElem? hk)
  obtain ⟨i, hi⟩ := List.mem_iff_getElem?.mp hmem
  obtain ⟨hlt, rfl⟩ := List.getElem?_eq_some_iff.mp hi
  have hsplit : l.filter p = (l.take i).filter p ++ l[i] :: (l.drop (i + 1)).filter p := by
    rw [← List.filter_cons_of_pos ha, ← List.filter_append, ← List.drop_eq_getElem_cons hlt,
      List.take_append_drop]
  have hplace : (l.filter p)[(l.take i).countP p]? = some l[i] := by
    rw [hsplit, List.countP_eq_length_filter, List.getElem?_append_right (Nat.le_refl _),
      Nat.sub_self, List.getElem?_cons_zero]
  rw [takeWhile_ne_of_getElem? hnodup hi]
  exact (List.getElem?_inj (List.getElem?_eq_some_iff.mp hplace).1 (hnodup.filter p)).mp
    (hplace.trans hk.symm)

/-- To go through the places of a list is to go through the list. -/
theorem filterMap_range_length {l : List α} {f : Nat → Option β} {f' : α → Option β}
    (h : ∀ {i a}, l[i]? = some a → f i = f' a) :
    (List.range l.length).filterMap f = l.filterMap f' := by
  induction l using List.reverseRecOn with
  | nil => rfl
  | append_singleton l last ih =>
    have hlast : f l.length = f' last := h (by simp)
    have hinit : ∀ {i a}, l[i]? = some a → f i = f' a := fun {i a} hi =>
      h (by rw [List.getElem?_append_left (List.getElem?_eq_some_iff.mp hi).1, hi])
    rw [List.length_append, List.length_singleton, List.range_succ, List.filterMap_append,
      List.filterMap_append, ih hinit]
    simp only [List.filterMap_cons, List.filterMap_nil, hlast]

theorem take_filterMap_of_isSome {f : α → Option β} {l : List α} (h : ∀ a ∈ l, (f a).isSome)
    (i : Nat) : (l.filterMap f).take i = (l.take i).filterMap f := by
  induction l generalizing i with
  | nil => simp
  | cons a l ih =>
    obtain ⟨b, hb⟩ := Option.isSome_iff_exists.mp (h a List.mem_cons_self)
    rw [List.filterMap_cons_some hb]
    cases i with
    | zero => simp
    | succ i =>
      rw [List.take_succ_cons, List.take_succ_cons, List.filterMap_cons_some hb,
        ih fun a ha => h a (List.mem_cons_of_mem _ ha)]

/-- To count what a list is mapped to is to count the list. -/
theorem countP_filterMap_of_isSome {f : α → Option β} {l : List α} {p : β → Bool} {p' : α → Bool}
    (h : ∀ a ∈ l, ∃ b, f a = some b ∧ p b = p' a) : (l.filterMap f).countP p = l.countP p' := by
  rw [List.countP_filterMap]
  refine List.countP_congr fun a ha => ?_
  obtain ⟨b, hb, hp⟩ := h a ha
  rw [hb, Option.map_some, Option.getD_some, hp]

end Lists

namespace Job

variable {job : Job} {id producer : NodeId} {i : Nat} {node : Node}

/-- The layout that a job is compiled from. -/
def layout (job : Job) : Layout :=
  .ofGraph job.graph job.root job.options.constantKind

/-- How the slots of a job are named. -/
def naming (job : Job) : Naming :=
  job.layout.naming job.options

/-- What assembles the statements of a job. -/
def assembler (job : Job) : Assembler :=
  job.layout.assembler job.registry job.options

/-! ### Nodes by position -/

theorem order_getElem? (job : Job) (i : Nat) :
    job.order[i]? = (job.graph.postorder job.root)[i]? :=
  Array.getElem?_toList

theorem layout_nodes_toList (job : Job) :
    job.layout.nodes.toList = job.order.filterMap job.graph.node? :=
  Layout.ofGraph_nodes_toList _ _ _

namespace Sound

theorem nodup (h : job.Sound) : job.order.Nodup :=
  Graph.postorder_nodup h.acyclic h.root_lt

theorem mem_order (h : job.Sound) : id ∈ job.order ↔ job.graph.Reachable job.root id :=
  Graph.mem_postorder h.acyclic h.root_lt

theorem exists_node? (h : job.Sound) (hid : id ∈ job.order) :
    ∃ node, job.graph.node? id = some node :=
  Graph.exists_node?_of_lt (h.acyclic.reachable_lt_size h.root_lt (h.mem_order.mp hid))

theorem before_eq_take (h : job.Sound) (hi : job.order[i]? = some id) :
    job.before id = job.order.take i :=
  takeWhile_ne_of_getElem? h.nodup hi

theorem position_eq (h : job.Sound) (hi : job.order[i]? = some id) : job.position id = i := by
  rw [position, h.before_eq_take hi, List.length_take]
  exact Nat.min_eq_left (List.getElem?_eq_some_iff.mp hi).1.le

theorem getElem?_position (h : job.Sound) (hid : id ∈ job.order) :
    job.order[job.position id]? = some id := by
  obtain ⟨i, hi⟩ := List.mem_iff_getElem?.mp hid
  rw [h.position_eq hi, hi]

theorem position?_eq (h : job.Sound) (hi : job.order[i]? = some id) :
    job.layout.position? id = some i :=
  Graph.position?_of_getElem? h.acyclic h.root_lt (job.order_getElem? i ▸ hi)

theorem exists_lt_of_feeds (h : job.Sound) (hi : job.order[i]? = some id)
    (hfeeds : job.graph.Feeds producer id) : ∃ j < i, job.order[j]? = some producer :=
  (Graph.postorder_ordered h.acyclic h.root_lt).exists_lt hi hfeeds

theorem layout_nodes_getElem? (h : job.Sound) (hi : job.order[i]? = some id) :
    job.layout.nodes[i]? = job.graph.node? id := by
  rw [layout, Layout.ofGraph_nodes_getElem? h.acyclic h.root_lt, ← order_getElem?, hi]
  rfl

theorem layout_nodes_size (h : job.Sound) : job.layout.nodes.size = job.order.length := by
  rw [layout, Layout.ofGraph_nodes_size h.acyclic h.root_lt, order, Array.length_toList]

/-- To count the nodes before a position is to count the nodes before the one there. -/
theorem countP_take_nodes (h : job.Sound) (hi : job.order[i]? = some id) {p : Node → Bool}
    {p' : NodeId → Bool} (hp : ∀ {id node}, job.graph.node? id = some node → p node = p' id) :
    (job.layout.nodes.toList.take i).countP p = (job.before id).countP p' := by
  have hsome : ∀ id ∈ job.order, (job.graph.node? id).isSome := fun id hid =>
    Option.isSome_iff_exists.mpr (h.exists_node? hid)
  rw [layout_nodes_toList, take_filterMap_of_isSome hsome, ← h.before_eq_take hi]
  refine countP_filterMap_of_isSome fun other hother => ?_
  obtain ⟨node, hnode⟩ := h.exists_node? ((List.takeWhile_sublist _).subset hother)
  exact ⟨node, hnode, hp hnode⟩

end Sound

/-! ### Operands by position -/

theorem isConstant_of_node? (hnode : job.graph.node? id = some node) :
    job.layout.isConstant node = job.isConstant id := by
  rw [isConstant, Graph.kind_of_node? hnode]
  rfl

namespace Sound

/-- The slot at a position is that of the node there. -/
theorem naming_slot (h : job.Sound) (hi : job.order[i]? = some id) :
    job.naming.slot i = job.slotName id := by
  have hlt : i < job.layout.nodes.size :=
    h.layout_nodes_size ▸ (List.getElem?_eq_some_iff.mp hi).1
  have hindex : job.layout.slotIndex job.options.addressing i = job.slotIndex id := by
    rw [slotIndex]
    cases job.options.addressing with
    | identifiers => exact (h.position_eq hi).symm
    | registers =>
      exact h.countP_take_nodes hi fun hnode => by rw [isConstant_of_node? hnode]
  rw [naming, Layout.naming_slot hlt, hindex, slotName]

theorem operand_node (h : job.Sound) (hi : job.order[i]? = some id) :
    job.layout.operand (.node id) =
      if job.isConstant id then .literal (job.graph.literal id) else .slot i := by
  obtain ⟨node, hnode⟩ := h.exists_node? (List.mem_of_getElem? hi)
  have hat : job.layout.nodes[i]? = some node := (h.layout_nodes_getElem? hi).trans hnode
  have hliteral : job.graph.literal id = node.literal := by rw [Graph.literal, hnode]
  rw [Layout.operand, h.position?_eq hi, Option.getD_some, Layout.operandAt_of_getElem? hat,
    isConstant_of_node? hnode, hliteral]

/-- What is written for an input of a scheduled node. -/
theorem write_operand (h : job.Sound) (hi : job.order[i]? = some id) {input : Input}
    (hinput : input ∈ job.graph.inputs id) :
    job.naming.write (job.layout.operand input) = job.inputText input := by
  cases input with
  | immediate value => rfl
  | node producer =>
    obtain ⟨j, -, hj⟩ := h.exists_lt_of_feeds hi hinput
    rw [h.operand_node hj, inputText]
    split
    · rfl
    · exact h.naming_slot hj

theorem write_operands (h : job.Sound) (hi : job.order[i]? = some id)
    (hnode : job.graph.node? id = some node) :
    (node.inputs.map job.layout.operand).map job.naming.write = job.operands id := by
  rw [operands, Graph.inputs_of_node? hnode, List.map_map]
  exact List.map_congr_left fun input hinput =>
    h.write_operand hi (Graph.inputs_of_node? hnode ▸ hinput)

/-- The operands that the table of an assembly has for a position are those of the node there. -/
theorem write_assembler_operands (h : job.Sound) (hi : job.order[i]? = some id)
    (hnode : job.graph.node? id = some node) :
    (job.assembler.operands node).map job.naming.write =
      if job.isConstant id then [] else job.operands id := by
  have hconst : job.assembler.layout.isConstant node = job.isConstant id :=
    isConstant_of_node? hnode
  rw [Assembler.operands, hconst]
  split
  · rfl
  · exact h.write_operands hi hnode

end Sound

/-! ### Units by position -/

theorem tag?_of_node? (hnode : job.graph.node? id = some node) :
    job.assembler.tag? node = job.tag? id := by
  have hconst : job.assembler.layout.isConstant node = job.isConstant id :=
    isConstant_of_node? hnode
  rw [Assembler.tag?, tag?, schema?, hconst, Graph.kind_of_node? hnode]
  split
  · rfl
  · rw [Option.bind_map]
    rfl

namespace Sound

theorem unitsBefore_eq (h : job.Sound) (hi : job.order[i]? = some id) :
    job.assembler.unitsBefore i = job.unitIndex id :=
  h.countP_take_nodes hi fun hnode => by rw [tag?_of_node? hnode]

theorem unit?_eq (h : job.Sound) (hi : job.order[i]? = some id)
    (hnode : job.graph.node? id = some node) :
    job.assembler.unit? i node = (job.tag? id).map fun _ => job.unitIndex id := by
  rw [Assembler.unit?, tag?_of_node? hnode, h.unitsBefore_eq hi]
  cases job.tag? id <;> rfl

end Sound

/-! ### Lines by position -/

theorem isBuiltin_of_generator? (hregistry : job.registry.IsBuiltin) {generator : Generator}
    (hgenerator : job.generator? id = some generator) : generator.IsBuiltin := by
  obtain ⟨schema, hschema, hgenerator⟩ := Option.bind_eq_some_iff.mp hgenerator
  rw [schema?] at hschema
  split at hschema
  · cases hschema
  · obtain ⟨resolved, hresolve, rfl⟩ := Option.map_eq_some_iff.mp hschema
    exact hregistry.of_resolve? hresolve hgenerator

namespace Sound

/-- Facts about the nodes behind the inputs are the same by position and by node, if they are for
the nodes at earlier positions. -/
theorem map_producers (h : job.Sound) (hi : job.order[i]? = some id)
    (hnode : job.graph.node? id = some node) {β : Type} {f : Nat → Option β}
    {f' : NodeId → Option β}
    (hf : ∀ {j producer}, j < i → job.order[j]? = some producer → f j = f' producer) :
    (node.inputs.map job.layout.producer?).map (·.bind f) =
      ((job.graph.inputs id).map Input.node?).map (·.bind f') := by
  have hinputs : job.graph.inputs id = node.inputs := Graph.inputs_of_node? hnode
  rw [← hinputs, List.map_map, List.map_map]
  refine List.map_congr_left fun input hinput => ?_
  cases input with
  | immediate value => rfl
  | node producer =>
    obtain ⟨j, hji, hj⟩ := h.exists_lt_of_feeds hi hinput
    have hproducer : job.layout.producer? (.node producer) = some j := h.position?_eq hj
    rw [Function.comp_apply, Function.comp_apply, hproducer]
    exact hf hji hj

theorem contextAt_unitAt (h : job.Sound) (node : Node) (tag : Option String) {j : Nat} (hji : j < i)
    (hj : job.order[j]? = some producer) :
    (job.assembler.contextAt i node tag).unitAt j = (job.context id).unitAt producer := by
  obtain ⟨other, hother⟩ := h.exists_node? (List.mem_of_getElem? hj)
  have hat : job.assembler.layout.nodes[j]? = some other :=
    (h.layout_nodes_getElem? hj).trans hother
  simp only [Assembler.contextAt, if_pos hji, hat, Option.bind_some, h.unit?_eq hj hother, context]

theorem contextAt_output? (h : job.Sound) (node : Node) (tag : Option String) {j : Nat}
    (hji : j < i) (hj : job.order[j]? = some producer) :
    ((job.assembler.contextAt i node tag).map job.naming.write).output? j =
      (job.context id).output? producer := by
  obtain ⟨other, hother⟩ := h.exists_node? (List.mem_of_getElem? hj)
  have hat : job.assembler.layout.nodes[j]? = some other :=
    (h.layout_nodes_getElem? hj).trans hother
  refine Context.output?_congr ?_ ?_
  · rw [context_kindAt, hother, ← hat]
    exact job.assembler.layout.map_kind_placedAt j
  · simp only [Context.map, Assembler.contextAt, if_pos hji, hat, Option.map_some,
      Option.getD_some, h.write_assembler_operands hj hother, context]

/-- What the node at a position is told agrees with what is said of it by node. -/
theorem contextAt_agrees (h : job.Sound) (hi : job.order[i]? = some id)
    (hnode : job.graph.node? id = some node) (tag : Option String) :
    ((job.assembler.contextAt i node tag).map job.naming.write).Agrees (job.context id) where
  operands := h.write_operands hi hnode
  unit := h.unitsBefore_eq hi
  units := h.map_producers hi hnode (h.contextAt_unitAt node tag)
  outputs := h.map_producers hi hnode (h.contextAt_output? node tag)

/-- The statement of a built-in generator is the same by position and by node. -/
theorem statement?_eq (h : job.Sound) (hi : job.order[i]? = some id)
    (hnode : job.graph.node? id = some node) (tag : Option String) (b : Builtin) :
    (b.statement? (job.assembler.contextAt i node tag)).map (Statement.map job.naming.write) =
      b.statement? (job.context id) := by
  rw [← b.statement?_map, b.statement?_congr (h.contextAt_agrees hi hnode tag)]

/-- So is its line. -/
theorem line?_eq (h : job.Sound) (hi : job.order[i]? = some id)
    (hnode : job.graph.node? id = some node) (tag : Option String) {generator : Generator}
    (hbuiltin : generator.IsBuiltin) :
    ((generator.statement? job.naming.write (job.assembler.contextAt i node tag)).map
      fun statement => (statement.map job.naming.write).text
        ⟨job.naming.addressing, job.naming.slot i, node.kind⟩) =
      generator.line? (job.context id) := by
  cases generator with
  | custom line? => exact hbuiltin.elim
  | builtin b =>
    rw [Generator.line?, Generator.statement?, Generator.statement?, ← h.statement?_eq hi hnode tag,
      Option.map_map, h.naming_slot hi, ← Graph.kind_of_node? hnode]
    rfl

/-- A position has an entry if the node there has a schema. -/
theorem entryAt?_cases (h : job.Sound) (hi : job.order[i]? = some id)
    (hnode : job.graph.node? id = some node) :
    (job.schema? id = none ∧ job.assembler.entryAt? i = none) ∨
      ∃ schema viaFallback, job.schema? id = some schema ∧ job.assembler.entryAt? i = some
        { position := i
          kind := node.kind
          viaFallback
          operands := node.inputs.map job.layout.operand
          statement := schema.generator.bind
            (·.statement? job.naming.write (job.assembler.contextAt i node schema.tag))
          tag := schema.tag } := by
  have hat : job.assembler.layout.nodes[i]? = some node :=
    (h.layout_nodes_getElem? hi).trans hnode
  have hconst : job.assembler.layout.isConstant node = job.isConstant id :=
    isConstant_of_node? hnode
  rw [schema?, Graph.kind_of_node? hnode]
  cases hc : job.isConstant id with
  | true => exact .inl ⟨rfl, Assembler.entryAt?_of_constant hat (hconst.trans hc)⟩
  | false =>
    cases hresolve : job.registry.resolve? job.options.fallbackKind node.kind with
    | none =>
      refine .inl ⟨rfl, ?_⟩
      rw [Assembler.entryAt?, hat, Option.bind_some]
      change (if _ then none else
        (job.registry.resolve? job.options.fallbackKind node.kind).map _) = none
      rw [hresolve, Option.map_none, ite_self]
    | some resolved =>
      exact .inr ⟨resolved.1, resolved.2, rfl,
        Assembler.entryAt?_of_resolve? hat (hconst.trans hc) hresolve⟩

/-- What is emitted for a position is what is emitted for the node there, unless a custom generator
makes the line. -/
theorem emission?_eq (h : job.Sound) (hi : job.order[i]? = some id)
    (hbuiltin : ∀ generator, job.generator? id = some generator → generator.IsBuiltin) :
    (job.assembler.entryAt? i).bind (·.emission? job.naming) = job.emission? id := by
  obtain ⟨node, hnode⟩ := h.exists_node? (List.mem_of_getElem? hi)
  rw [emission?, line?, generator?] at *
  rcases h.entryAt?_cases hi hnode with ⟨hschema, hentry⟩ | ⟨schema, viaFallback, hschema, hentry⟩
  · rw [hschema, hentry]
    rfl
  · rw [hschema, Option.bind_some] at hbuiltin ⊢
    rw [hentry, Option.bind_some, Entry.emission?, Entry.line?, h.position_eq hi,
      Graph.kind_of_node? hnode]
    cases hgenerator : schema.generator with
    | none => rfl
    | some generator =>
      rw [Option.bind_some, Option.bind_some,
        ← h.line?_eq hi hnode schema.tag (hbuiltin _ hgenerator)]

/-- The unit for a position is that of the node there. -/
theorem entry_unit?_eq (h : job.Sound) (hi : job.order[i]? = some id) :
    (job.assembler.entryAt? i).bind (·.unit? job.naming) = job.unit? id := by
  obtain ⟨node, hnode⟩ := h.exists_node? (List.mem_of_getElem? hi)
  rw [unit?, tag?]
  rcases h.entryAt?_cases hi hnode with ⟨hschema, hentry⟩ | ⟨schema, viaFallback, hschema, hentry⟩
  · rw [hschema, hentry]
    rfl
  · rw [hschema, hentry, Option.bind_some, Option.bind_some, Entry.unit?,
      h.write_operands hi hnode]

end Sound

end Job

/-! ### Whole compiles -/

/-- Whether an assembly fails at a node: it is not a constant and has no schema. -/
def Assembler.isStuck (a : Assembler) (node : Node) : Bool :=
  !a.layout.isConstant node && (a.registry.resolve? a.fallbackKind node.kind).isNone

/-- An assembly fails at the first node that is stuck. -/
theorem Assembler.run_failure (a : Assembler) (nodes : List Node) (i : Nat) (p : Progress) :
    (a.run nodes i p).2 = (nodes.find? a.isStuck).map (·.kind) := by
  induction nodes generalizing i p with
  | nil => rfl
  | cons node nodes ih =>
    rw [run, List.find?_cons, isStuck]
    cases hconst : a.layout.isConstant node with
    | true => simpa using ih (i + 1) p.skip
    | false =>
      cases hresolve : a.registry.resolve? a.fallbackKind node.kind with
      | none => rfl
      | some resolved => simpa using ih (i + 1) _

theorem Job.isStuck_of_node? {job : Job} {id : NodeId} {node : Node}
    (hnode : job.graph.node? id = some node) : job.assembler.isStuck node = job.isStuck id := by
  have hconst : job.assembler.layout.isConstant node = job.isConstant id :=
    isConstant_of_node? hnode
  rw [Assembler.isStuck, isStuck, schema?, hconst, Graph.kind_of_node? hnode]
  cases job.isConstant id with
  | true => rfl
  | false => exact congrArg _ Option.isNone_map.symm

/-- What the nodes of a job make of it: the emitted lines, the units and the number of slots. -/
def Job.result (job : Job) : Compiled where
  program := String.intercalate "\n" (job.compile.emitted.map (·.2))
  units := job.order.filterMap job.unit?
  slotCount := job.order.countP (!job.isConstant ·)

/-- A job emits the lines of its entries, whether it succeeds or not. -/
theorem Job.emitted_eq_entries (job : Job) : job.compile.emitted =
    (job.layout.assemble job.registry job.options).entries.filterMap (·.emission? job.naming) :=
  compile_emitted _ _ _ _

namespace Job.Sound

variable {job : Job} {id : NodeId} {i : Nat} {compiled : Compiled}

/-- An assembly fails at the first node that is stuck. -/
theorem failure_eq (h : job.Sound) :
    (job.layout.assemble job.registry job.options).failure =
      (job.order.find? job.isStuck).map job.graph.kind := by
  have hstuck : ∀ id ∈ job.order,
      (job.graph.node? id).any job.assembler.isStuck = job.isStuck id := by
    intro id hid
    obtain ⟨node, hnode⟩ := h.exists_node? hid
    rw [hnode, Option.any_some, isStuck_of_node? hnode]
  change (job.assembler.run job.layout.nodes.toList 0 {}).2 = _
  rw [Assembler.run_failure, layout_nodes_toList, List.find?_filterMap, List.find?_congr hstuck]
  cases hfind : job.order.find? job.isStuck with
  | none => rfl
  | some id =>
    obtain ⟨node, hnode⟩ := h.exists_node? (List.mem_of_find?_eq_some hfind)
    rw [Option.bind_some, hnode, Option.map_some, Option.map_some, Graph.kind_of_node? hnode]

/-- If no node is stuck, the entries of all positions are listed. -/
theorem entries_eq (h : job.Sound) (hstuck : job.order.find? job.isStuck = none) :
    (job.layout.assemble job.registry job.options).entries =
      (List.range job.order.length).filterMap job.assembler.entryAt? := by
  rw [← h.layout_nodes_size]
  exact Layout.entries_of_failure_eq_none (by rw [h.failure_eq, hstuck]; rfl)

theorem slotCount_eq (h : job.Sound) :
    job.layout.slotCount = job.order.countP (!job.isConstant ·) := by
  rw [Layout.slotCount, ← Array.countP_toList, layout_nodes_toList]
  refine countP_filterMap_of_isSome fun id hid => ?_
  obtain ⟨node, hnode⟩ := h.exists_node? hid
  exact ⟨node, hnode, congrArg _ (isConstant_of_node? hnode)⟩

/-- A compile fails at the first node that is stuck. -/
theorem outcome_of_find?_eq_some (h : job.Sound) (hid : job.order.find? job.isStuck = some id) :
    job.compile.outcome =
      .error (.missingFallback (job.graph.kind id) job.options.fallbackKind) := by
  have hfailure := h.failure_eq
  have houtcome := compile_outcome job.registry job.options job.graph job.root
  rw [hid, Option.map_some, layout] at hfailure
  rwa [hfailure] at houtcome

/-- If no node is stuck, a compile gives what the nodes make of it. -/
theorem outcome_of_find?_eq_none (h : job.Sound) (hstuck : job.order.find? job.isStuck = none) :
    job.compile.outcome = .ok job.result := by
  have hfailure := h.failure_eq
  have houtcome := compile_outcome job.registry job.options job.graph job.root
  have hunits : (job.layout.assemble job.registry job.options).entries.filterMap
      (·.unit? job.naming) = job.order.filterMap job.unit? := by
    rw [h.entries_eq hstuck, List.filterMap_filterMap]
    exact filterMap_range_length h.entry_unit?_eq
  rw [hstuck, Option.map_none, layout] at hfailure
  rw [hfailure] at houtcome
  rw [result, ← hunits, ← h.slotCount_eq]
  exact houtcome

/-- A compile that succeeds meets no node that is stuck. -/
theorem find?_isStuck_of_ok (h : job.Sound) (hok : job.compile.outcome = .ok compiled) :
    job.order.find? job.isStuck = none := by
  cases hstuck : job.order.find? job.isStuck with
  | none => rfl
  | some id =>
    rw [h.outcome_of_find?_eq_some hstuck] at hok
    cases hok

theorem eq_result_of_ok (h : job.Sound) (hok : job.compile.outcome = .ok compiled) :
    compiled = job.result := by
  rw [h.outcome_of_find?_eq_none (h.find?_isStuck_of_ok hok)] at hok
  exact (Except.ok.inj hok).symm

/-- If no node is stuck, what is emitted is emitted position by position. -/
theorem emitted_eq_range (h : job.Sound) (hstuck : job.order.find? job.isStuck = none) :
    job.compile.emitted = (List.range job.order.length).filterMap fun i =>
      (job.assembler.entryAt? i).bind (·.emission? job.naming) := by
  rw [job.emitted_eq_entries, h.entries_eq hstuck, List.filterMap_filterMap]

/-- With built-in generators, and if no node is stuck, what is emitted is emitted node by node. -/
theorem emitted_eq (h : job.Sound) (hregistry : job.registry.IsBuiltin)
    (hstuck : job.order.find? job.isStuck = none) :
    job.compile.emitted = job.order.filterMap job.emission? := by
  rw [h.emitted_eq_range hstuck]
  exact filterMap_range_length fun hi =>
    h.emission?_eq hi fun _ hgenerator => isBuiltin_of_generator? hregistry hgenerator

theorem map_emitted_snd (h : job.Sound) (hregistry : job.registry.IsBuiltin)
    (hstuck : job.order.find? job.isStuck = none) :
    job.compile.emitted.map (·.2) = job.order.filterMap job.line? := by
  rw [h.emitted_eq hregistry hstuck, List.map_filterMap]
  refine List.filterMap_congr fun id _ => ?_
  rw [emission?, Option.map_map]
  exact Option.map_id_apply

end Job.Sound

end Patchbay
