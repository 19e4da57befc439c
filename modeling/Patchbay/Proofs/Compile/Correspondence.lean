import Mathlib.Data.List.Forall2
import Patchbay.Proofs.Compile.Nodes

/-!
# Jobs that correspond

Two jobs can have nodes in common although their graphs and their schedules differ, and with these
the positions of the nodes. `Job.Corresponds` says of a set of nodes that both jobs see them in the
same way. Kinds, literals and the numbers of slots and units are the same, and so are the inputs,
except that one job may have an immediate where the other has a constant.

The lines and the units of these nodes are then the same (`Job.Corresponds.line?_eq`,
`Job.Corresponds.unit?_eq`): they are made from what stands for the inputs and from what is known
of the nodes behind them, and a constant has neither a unit nor an output to offer.
-/

namespace Patchbay

/-- Related elements that are mapped to the same give the same lists. -/
theorem map_eq_of_forall₂ {α β γ : Type} {R : α → β → Prop} {f : α → γ} {f' : β → γ} {l : List α}
    {l' : List β} (h : List.Forall₂ R l l') (hf : ∀ {a b}, R a b → f' b = f a) :
    l'.map f' = l.map f := by
  induction h with
  | nil => rfl
  | cons hab _ ih => rw [List.map_cons, List.map_cons, hf hab, ih]

namespace Job

variable {job job' : Job} {id : NodeId}

/-! ### Nodes of one kind -/

section Kind

variable (hcompiler : job'.toCompiler = job.toCompiler)
  (hkind : job'.graph.kind id = job.graph.kind id)

include hcompiler hkind

theorem isConstant_congr : job'.isConstant id = job.isConstant id := by
  rw [isConstant, isConstant, hkind, hcompiler]

theorem schema?_congr : job'.schema? id = job.schema? id := by
  rw [schema?, schema?, isConstant_congr hcompiler hkind, hkind, hcompiler]

theorem isStuck_congr : job'.isStuck id = job.isStuck id := by
  rw [isStuck, isStuck, isConstant_congr hcompiler hkind, schema?_congr hcompiler hkind]

theorem tag?_congr : job'.tag? id = job.tag? id := by
  rw [tag?, tag?, schema?_congr hcompiler hkind]

theorem generator?_congr : job'.generator? id = job.generator? id := by
  rw [generator?, generator?, schema?_congr hcompiler hkind]

end Kind

/-! ### Corresponding jobs -/

/-- An input of a node in a job, and the input in its place in another job. -/
inductive SameInput (job : Job) (shared : NodeId → Prop) : Input → Input → Prop
  | immediate (value : Literal) : SameInput job shared (.immediate value) (.immediate value)
  | node {id : NodeId} (hid : shared id) : SameInput job shared (.node id) (.node id)
  /-- A constant is written in place anyway. It must not be an output, as exits look for these. -/
  | inlined {id : NodeId} (hconst : job.isConstant id) (hout : job.graph.kind id ≠ Kind.out) :
    SameInput job shared (.node id) (.immediate (job.graph.literal id))

/-- Two jobs say the same of some nodes. -/
structure Corresponds (job job' : Job) (shared : NodeId → Prop) : Prop where
  compiler : job'.toCompiler = job.toCompiler
  kind : ∀ {id}, shared id →
    (job'.graph.node? id).map (·.kind) = (job.graph.node? id).map (·.kind)
  literal : ∀ {id}, shared id → job'.graph.literal id = job.graph.literal id
  inputs : ∀ {id}, shared id →
    List.Forall₂ (job.SameInput shared) (job.graph.inputs id) (job'.graph.inputs id)
  slotIndex : ∀ {id}, shared id → job'.slotIndex id = job.slotIndex id
  unitIndex : ∀ {id}, shared id → job'.unitIndex id = job.unitIndex id

namespace Corresponds

variable {shared : NodeId → Prop}

theorem kind_eq (h : job.Corresponds job' shared) (hid : shared id) :
    job'.graph.kind id = job.graph.kind id := by
  have hkind : ∀ g : Graph, g.kind id = ((g.node? id).map (·.kind)).getD "" := by
    intro g
    rw [Graph.kind]
    cases g.node? id <;> rfl
  rw [hkind, hkind, h.kind hid]

theorem isConstant_eq (h : job.Corresponds job' shared) (hid : shared id) :
    job'.isConstant id = job.isConstant id :=
  isConstant_congr h.compiler (h.kind_eq hid)

theorem tag?_eq (h : job.Corresponds job' shared) (hid : shared id) :
    job'.tag? id = job.tag? id :=
  tag?_congr h.compiler (h.kind_eq hid)

theorem slotName_eq (h : job.Corresponds job' shared) (hid : shared id) :
    job'.slotName id = job.slotName id := by
  rw [slotName, slotName, h.slotIndex hid, h.compiler]

/-- What stands for corresponding inputs is the same. -/
theorem inputText_eq (h : job.Corresponds job' shared) {input input' : Input}
    (hinput : job.SameInput shared input input') : job'.inputText input' = job.inputText input := by
  cases hinput with
  | immediate value => rfl
  | node hid => rw [inputText, inputText, h.isConstant_eq hid, h.literal hid, h.slotName_eq hid]
  | inlined hconst _ => rw [inputText, inputText, if_pos hconst]

theorem operands_eq (h : job.Corresponds job' shared) (hid : shared id) :
    job'.operands id = job.operands id :=
  map_eq_of_forall₂ (h.inputs hid) h.inputText_eq

/-- The stateful units are the same. -/
theorem unit?_eq (h : job.Corresponds job' shared) (hid : shared id) :
    job'.unit? id = job.unit? id := by
  rw [unit?, unit?, h.tag?_eq hid, h.operands_eq hid]

/-! ### Lines -/

theorem unitAt_eq (h : job.Corresponds job' shared) {input input' : Input}
    (hinput : job.SameInput shared input input') :
    input'.node?.bind (job'.context id).unitAt = input.node?.bind (job.context id).unitAt := by
  cases hinput with
  | immediate value => rfl
  | node hproducer =>
    change (job'.tag? _).map (fun _ => job'.unitIndex _) = (job.tag? _).map fun _ => job.unitIndex _
    rw [h.tag?_eq hproducer, h.unitIndex hproducer]
  | inlined hconst _ =>
    change none = (job.tag? _).map _
    rw [tag?_of_isConstant hconst, Option.map_none]

theorem output?_eq (h : job.Corresponds job' shared) {input input' : Input}
    (hinput : job.SameInput shared input input') :
    input'.node?.bind (job'.context id).output? = input.node?.bind (job.context id).output? := by
  cases hinput with
  | immediate value => rfl
  | node hproducer =>
    refine Context.output?_congr ?_ ?_
    · rw [context_kindAt, context_kindAt, h.kind hproducer]
    · simp only [context, h.isConstant_eq hproducer, h.operands_eq hproducer]
  | @inlined producer _ hout =>
    have hkind : (job.context id).kindAt producer ≠ some Kind.out := by
      rw [context_kindAt]
      intro heq
      obtain ⟨node, hnode, hnodeKind⟩ := Option.map_eq_some_iff.mp heq
      exact hout ((Graph.kind_of_node? hnode).trans hnodeKind)
    exact (if_neg hkind).symm

theorem map_producers (h : job.Corresponds job' shared) (hid : shared id) {β : Type}
    {f f' : NodeId → Option β} (hf : ∀ {input input'}, job.SameInput shared input input' →
      input'.node?.bind f' = input.node?.bind f) :
    (job'.context id).producers.map (·.bind f') = (job.context id).producers.map (·.bind f) := by
  change ((job'.graph.inputs id).map Input.node?).map _ =
    ((job.graph.inputs id).map Input.node?).map _
  rw [List.map_map, List.map_map]
  exact map_eq_of_forall₂ (h.inputs hid) hf

/-- What the built-in generators may use is the same. -/
theorem context_agrees (h : job.Corresponds job' shared) (hid : shared id) :
    (job'.context id).Agrees (job.context id) where
  operands := h.operands_eq hid
  unit := h.unitIndex hid
  units := h.map_producers hid h.unitAt_eq
  outputs := h.map_producers hid h.output?_eq

/-- With built-in generators, the lines are the same. -/
theorem line?_eq (h : job.Corresponds job' shared) (hregistry : job.registry.IsBuiltin)
    (hid : shared id) : job'.line? id = job.line? id := by
  rw [line?, line?, generator?_congr h.compiler (h.kind_eq hid)]
  cases hgenerator : job.generator? id with
  | none => rfl
  | some generator =>
    cases generator with
    | custom line? => exact (isBuiltin_of_generator? hregistry hgenerator).elim
    | builtin b =>
      have hsite : (job'.context id).site = (job.context id).site := by
        simp only [context, Context.site, Context.kind, h.compiler, h.slotName_eq hid,
          h.kind_eq hid]
      rw [Option.bind_some, Option.bind_some, Generator.line?, Generator.line?,
        Generator.statement?, Generator.statement?, b.statement?_congr (h.context_agrees hid),
        hsite]

end Corresponds

end Job

end Patchbay
