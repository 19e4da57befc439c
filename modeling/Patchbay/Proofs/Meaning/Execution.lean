import Patchbay.Proofs.Compile.Assembly
import Patchbay.Proofs.Meaning.Simulation

/-!
# What one instruction does

The instruction of a node does to the memory of a host what evaluating the node says. For a node
with a slot this is `exec_instruction`: the value goes into the slot and the unit is left as it
should be. The instruction of an exit returns the mix (`exec_exit`). Both need the memory to hold
what the nodes before have come to (`Memory.Holds`) and the tables of the assembly to be those of
the same nodes (`Assembler.Aligned`).

Reading an operand is the heart of it (`read_operand`): the text of an input is the name of a slot
that has been assigned, or the form of a literal, and a host can tell which.
-/

namespace Patchbay

variable {V S : Type} {g : Graph} {hg : g.Acyclic} {root id : NodeId} {host : Host V S}
  {states : Nat → S} {options : Options} {n : Nat} {m : Memory V S} {p : Progress} {node : Node}

open Patchbay.Graph

/-- The usual choices: constants and the fallback are those of the library, and identifiers begin
with a letter or an underscore. Either convention for slots is fine. -/
structure Options.Usual (options : Options) : Prop where
  constantKind : options.constantKind = Kind.constant
  fallbackKind : options.fallbackKind = Kind.thru
  lettered : options.addressing.Lettered options.stem

theorem Options.usual_default (addressing : Addressing) (log : Bool) :
    ({ addressing, log } : Options).Usual where
  constantKind := rfl
  fallbackKind := rfl
  lettered := fun _ => ⟨'n', [], show "n".toList = ['n'] by decide, .inl rfl⟩

/-- What assembles the program of a patch with the standard operations. -/
def Graph.assembler (g : Graph) (root : NodeId) (options : Options) : Assembler :=
  let layout := Layout.ofGraph g root options.constantKind
  ⟨.standard, options.fallbackKind, layout, layout.naming options⟩

/-! ### The tables of the assembler, on the graph -/

namespace Assembler

theorem layout_nodes_eq_some (hg : g.Acyclic) (hroot : root < g.size)
    (hn : (g.postorder root)[n]? = some id) (hnode : g.node? id = some node) :
    (g.assembler root options).layout.nodes[n]? = some node :=
  (Layout.ofGraph_nodes_eq_some_iff hg hroot).mpr ⟨id, hn, hnode⟩

theorem isConstant_iff (ho : options.Usual) (hnode : g.node? id = some node) :
    (g.assembler root options).layout.isConstant node = true ↔ g.role id = .constant := by
  rw [role, Role.ofKind_eq_constant, kind_of_node? hnode, ← ho.constantKind]
  exact decide_eq_true_iff

/-- The schema of a node is that of its role. -/
theorem schema_eq (ho : options.Usual) (hnode : g.node? id = some node) {schema : Schema}
    {viaFallback : Bool} (h : (g.assembler root options).registry.resolve?
      (g.assembler root options).fallbackKind node.kind = some (schema, viaFallback)) :
    schema = (g.role id).schema := by
  obtain ⟨viaFallback', hresolve⟩ := Registry.standard_resolve? node.kind
  rw [← ho.fallbackKind] at hresolve
  rw [role, kind_of_node? hnode]
  exact (Prod.mk.inj (Option.some.inj (h.symm.trans hresolve))).1

theorem tag?_eq (ho : options.Usual) (hnode : g.node? id = some node) :
    (g.assembler root options).tag? node = (g.role id).tag? := by
  obtain ⟨viaFallback, hresolve⟩ := Registry.standard_resolve? node.kind
  rw [← ho.fallbackKind] at hresolve
  by_cases hconst : (g.assembler root options).layout.isConstant node
  · rw [tag?, if_pos hconst, (isConstant_iff ho hnode).mp hconst]
    rfl
  · rw [Bool.not_eq_true] at hconst
    rw [tag?_of_resolve? hconst hresolve, Role.schema_tag, role, kind_of_node? hnode]

/-- The units before a position, counted on the schedule. -/
theorem unitsBefore_eq (ho : options.Usual) (hg : g.Acyclic) (hroot : root < g.size)
    (hn : n ≤ (g.postorder root).size) : (g.assembler root options).unitsBefore n =
      ((g.postorder root).toList.take n).countP fun id => (g.role id).tag?.isSome := by
  induction n with
  | zero => rfl
  | succ n ih =>
    obtain ⟨id, hid⟩ : ∃ id, (g.postorder root)[n]? = some id :=
      ⟨_, Array.getElem?_eq_getElem hn⟩
    obtain ⟨node, hnode⟩ := exists_node?_of_lt
      (hg.reachable_lt_size hroot (reachable_of_getElem?_postorder hg hroot hid))
    rw [unitsBefore_succ (layout_nodes_eq_some hg hroot hid hnode), ih (Nat.le_of_succ_le hn),
      tag?_eq ho hnode, List.take_add_one, Array.getElem?_toList, hid, List.countP_append]
    simp [List.countP_cons]

theorem unitsBefore_eq_unitIndex (ho : options.Usual) (hg : g.Acyclic) (hroot : root < g.size)
    (hn : (g.postorder root)[n]? = some id) (hunit : (g.role id).tag?.isSome) :
    (g.assembler root options).unitsBefore n = g.unitIndex root id := by
  have hlt : n < (g.postorder root).size := (Array.getElem?_eq_some_iff.mp hn).1
  rw [unitsBefore_eq ho hg hroot hlt.le, unitIndex_of_getElem? hg hroot hn hunit]

end Assembler

/-! ### Reading operands -/

/-- The text of an input reads as what the input comes to. -/
theorem read_operand (ho : options.Usual) (hroot : root < g.size) (hplay : g.Playable root)
    (h : m.Holds hg root host states (g.assembler root options).naming.slot n) {i : Nat}
    (hi : (g.postorder root)[i]? = some id) (hin : i ≤ n) (hexit : g.kind id ≠ Kind.exit)
    {input : Input} (hinput : input ∈ g.inputs id) :
    host.read options.addressing options.stem m ((g.assembler root options).naming.write
        ((g.assembler root options).layout.operand input)) =
      some (evaluateInput hg root host states input).value := by
  cases input with
  | immediate value => exact Host.read_literal (value.not_isSlot ho.lettered)
  | node producer =>
    have hreach := reachable_of_getElem?_postorder hg hroot hi
    obtain ⟨j, node, hj, hposition, hnode, -, hoperand⟩ :=
      Layout.exists_producer hg hroot hi hinput
    have hoperand' : (g.assembler root options).layout.operand (.node producer) = _ := hoperand
    rw [hoperand']
    by_cases hconst : node.kind = options.constantKind
    · -- a constant is written in place
      have hrole : g.role producer = .constant := by
        rw [role, kind_of_node? hnode, hconst, ho.constantKind]
        rfl
      rw [if_pos hconst, Naming.write, Host.read_literal (node.literal.not_isSlot ho.lettered),
        evaluateInput, evaluate_eq, hrole, Host.outcome, literal, hnode]
    · -- anything else was computed before and is still in its slot
      have hlt : j < (g.assembler root options).layout.nodes.size :=
        (Array.getElem?_eq_some_iff.mp (Assembler.layout_nodes_eq_some hg hroot hposition hnode)).1
      have hkind : g.kind producer ≠ Kind.constant := by
        rw [kind_of_node? hnode, ← ho.constantKind]
        exact hconst
      have hslot : options.addressing.IsSlot options.stem
          ((g.assembler root options).naming.slot j) := Layout.naming_isSlot hlt
      rw [if_neg hconst, Naming.write, Host.read_slot hslot]
      exact h.slots (hj.trans_le hin) hposition
        (hplay.hasSlot_of_feeds hg hreach hinput hexit hkind)

/-- The text of an input that may be missing reads as its value, or as what stands in for it. -/
theorem read_operand? (ho : options.Usual) (hroot : root < g.size) (hplay : g.Playable root)
    (h : m.Holds hg root host states (g.assembler root options).naming.slot n) {i k : Nat}
    (hi : (g.postorder root)[i]? = some id) (hin : i ≤ n) (hexit : g.kind id ≠ Kind.exit)
    {missing : String} (hmissing : ¬ options.addressing.IsSlot options.stem missing) :
    host.read options.addressing options.stem m
        (((((g.inputs id).map (g.assembler root options).layout.operand)[k]?).map
          (g.assembler root options).naming.write).getD missing) =
      some (host.operandValue missing (evaluateInputs hg root host states id) k) := by
  rw [Host.operandValue, evaluateInputs, List.getElem?_map, List.getElem?_map]
  cases hinput : (g.inputs id)[k]? with
  | none => exact Host.read_literal hmissing
  | some input =>
    exact read_operand ho hroot hplay h hi hin hexit (List.mem_of_getElem? hinput)

private theorem mapM_eq_some {α β : Type} {f : α → Option β} {f' : α → β} {l : List α}
    (h : ∀ a ∈ l, f a = some (f' a)) : l.mapM f = some (l.map f') := by
  induction l with
  | nil => rfl
  | cons a l ih =>
    rw [List.mapM_cons, h a List.mem_cons_self,
      ih fun b hb => h b (List.mem_cons_of_mem _ hb)]
    rfl

/-- The texts of the inputs read as what the inputs come to. -/
theorem read_operands (ho : options.Usual) (hroot : root < g.size) (hplay : g.Playable root)
    (h : m.Holds hg root host states (g.assembler root options).naming.slot n)
    (hn : (g.postorder root)[n]? = some id) (hexit : g.kind id ≠ Kind.exit) :
    (((g.inputs id).map (g.assembler root options).layout.operand).map
        (g.assembler root options).naming.write).mapM
        (host.read options.addressing options.stem m) =
      some ((evaluateInputs hg root host states id).map (·.value)) := by
  have hread : ∀ input ∈ g.inputs id,
      (host.read options.addressing options.stem m ∘ (g.assembler root options).naming.write ∘
        (g.assembler root options).layout.operand) input =
        some (evaluateInput hg root host states input).value := fun input hinput =>
    read_operand ho hroot hplay h hn le_rfl hexit hinput
  rw [List.map_map, List.mapM_map, evaluateInputs, List.map_map]
  exact mapM_eq_some hread

/-- The literals that stand in for missing operands are not slots. -/
theorem Options.Usual.not_isSlot_digit (ho : options.Usual) {text : String}
    (h : text = "0" ∨ text = "1") : ¬ options.addressing.IsSlot options.stem text := by
  rintro ⟨index, hslot⟩
  obtain ⟨first, rest, hfront, hfirst, -⟩ := ho.lettered.marked.exists_front
  have hhead : text.toList.head? = some first := by
    rw [hslot, Addressing.slot_toList, hfront]
    rfl
  rcases h with rfl | rfl
  · obtain rfl : '0' = first := Option.some.inj (Eq.trans (by decide) hhead)
    revert hfirst
    decide
  · obtain rfl : '1' = first := Option.some.inj (Eq.trans (by decide) hhead)
    revert hfirst
    decide

/-! ### One instruction -/

/-- The cell of a write is the unit of its read. -/
theorem unitOfInput?_of_write (ho : options.Usual) (hg : g.Acyclic) (hroot : root < g.size)
    (haligned : (g.assembler root options).Aligned n p)
    (hn : (g.postorder root)[n]? = some id) (hnode : g.node? id = some node) {read : NodeId}
    (hread : (g.inputs id)[1]? = some (.node read))
    (hunit : g.role read = .unit Host.cellTag) (tag : Option String) :
    ((g.assembler root options).context p n node tag).unitOfInput? 1 =
      some (g.unitIndex root read) := by
  have hfeeds : g.Feeds read id := List.mem_of_getElem? hread
  obtain ⟨j, node', hj, hposition, hnode', hproducer, -⟩ :
      ∃ j node, j < n ∧ (g.postorder root)[j]? = some read ∧ g.node? read = some node ∧
        (g.assembler root options).layout.producer? (.node read) = some j ∧ _ :=
    Layout.exists_producer hg hroot hn hfeeds
  have hinput : ((g.assembler root options).context p n node tag).producer? 1 = some j := by
    rw [inputs_of_node? hnode] at hread
    simp [Context.producer?, Assembler.context, hread, hproducer]
  have htag : ((g.assembler root options).tag? node').isSome := by
    rw [Assembler.tag?_eq ho hnode', hunit]
    rfl
  rw [Context.unitOfInput?, hinput, Option.bind_some,
    haligned.context_unitAt hj (Assembler.layout_nodes_eq_some hg hroot hposition hnode'),
    Assembler.unit?, if_pos htag,
    Assembler.unitsBefore_eq_unitIndex ho hg hroot hposition (by rw [hunit]; rfl)]

/-- The instruction of a node with a slot does what the node comes to. -/
theorem exec_instruction (ho : options.Usual) (hroot : root < g.size) (hplay : g.Playable root)
    (haligned : (g.assembler root options).Aligned n p)
    (h : m.Holds hg root host states (g.assembler root options).naming.slot n)
    (hn : (g.postorder root)[n]? = some id) (hnode : g.node? id = some node)
    (hslot : (g.role id).hasSlot = true) (viaFallback : Bool) :
    ∃ i, ((g.assembler root options).entry p n node (g.role id).schema viaFallback).instruction?
        (g.assembler root options).naming = some i ∧
      host.exec options.addressing options.stem m i =
        some (m.record ((g.assembler root options).naming.slot n)
          (evaluate hg root host states id)) := by
  have hreach := reachable_of_getElem?_postorder hg hroot hn
  have hinputs := inputs_of_node? hnode
  have hexit : g.kind id ≠ Kind.exit := (Role.hasSlot_ofKind.mp hslot).2.2
  have hzero := ho.not_isSlot_digit (.inl rfl)
  have hread : ∀ {missing : String} (k : Nat), ¬ options.addressing.IsSlot options.stem missing →
      host.read options.addressing options.stem m
          ((((node.inputs.map (g.assembler root options).layout.operand)[k]?).map
            (g.assembler root options).naming.write).getD missing) =
        some (host.operandValue missing (evaluateInputs hg root host states id) k) := by
    intro missing k hmissing
    rw [← hinputs]
    exact read_operand? ho hroot hplay h hn le_rfl hexit hmissing
  -- once its operands are read and its unit is found, an instruction computes what the role says
  rw [evaluate_eq]
  cases hrole : g.role id with
  | constant | out | exit => rw [hrole] at hslot; cases hslot
  | copy =>
    refine ⟨_, rfl, ?_⟩
    exact congrArg (Option.bind · _) (hread 0 hzero)
  | arithmetic operator missing =>
    refine ⟨_, rfl, ?_⟩
    have hidentity : missing = operator.identity := Role.missing_eq_identity hrole
    have hmissing : ¬ options.addressing.IsSlot options.stem missing :=
      ho.not_isSlot_digit (by cases operator <;> simp [hidentity, Operator.identity])
    have hleft := hread 0 hmissing
    have hright := hread 1 hmissing
    rw [hidentity] at hleft hright ⊢
    exact (congrArg (Option.bind · _) hleft).trans (congrArg (Option.bind · _) hright)
  | unit tag =>
    refine ⟨_, rfl, ?_⟩
    have hvalues := read_operands ho hroot hplay h hn hexit
    have hindex : p.units = g.unitIndex root id := by
      rw [haligned.units, Assembler.unitsBefore_eq_unitIndex ho hg hroot hn (by rw [hrole]; rfl)]
    have hunit := h.own_unit hroot hn hrole
    rw [hinputs] at hvalues
    rw [← hindex] at hunit ⊢
    exact (congrArg (Option.bind · _) hvalues).trans (congrArg (Option.bind · _) hunit)
  | write =>
    obtain ⟨read, hsecond, hunitRole⟩ := hplay.exists_read hreach hrole
    obtain ⟨state, hstate⟩ : ∃ state, (evaluate hg root host states read).unit =
        some (g.unitIndex root read, ⟨Host.cellTag, state⟩) := evaluate_unit_of_unit hunitRole
    have hcell := unitOfInput?_of_write ho hg hroot haligned hn hnode hsecond hunitRole none
    have hunit := h.cell hroot hplay hn hrole hsecond hstate
    -- the cell is found, so the default index of the generator plays no part
    have hstatement : ((g.assembler root options).entry p n node Role.write.schema
        viaFallback).statement = some (.write (g.unitIndex root read)
          (node.inputs.map (g.assembler root options).layout.operand)[0]?) := by
      rw [← Option.getD_some (a := g.unitIndex root read) (b := p.units), ← hcell]
      rfl
    have hvalue := hread 0 hzero
    rw [Entry.instruction?, Entry.command?, hstatement]
    refine ⟨_, rfl, ?_⟩
    rw [Host.outcome, evaluateInputs_unit hsecond, hstate]
    exact (congrArg (Option.bind · _) hvalue).trans (congrArg (Option.bind · _) hunit)

/-! ### The mix -/

/-- The output that a node stands for. -/
def Graph.output (g : Graph) (root : NodeId) (options : Options) (id : NodeId) : Output Operand :=
  let operands := (g.inputs id).map (g.assembler root options).layout.operand
  ⟨operands[0]?, operands[1]?⟩

private theorem filterMap_eq_map_outs {β : Type} {inputs : List Input} {f : Input → Option β}
    {f' : NodeId → β} (himmediate : ∀ value, f (.immediate value) = none)
    (hnode : ∀ id, Input.node id ∈ inputs →
      f (.node id) = if g.kind id = Kind.out then some (f' id) else none) :
    inputs.filterMap f =
      ((inputs.filterMap Input.node?).filter fun id => g.kind id = Kind.out).map f' := by
  induction inputs with
  | nil => rfl
  | cons input inputs ih =>
    have ih' := ih fun id hid => hnode id (List.mem_cons_of_mem _ hid)
    cases input with
    | immediate value =>
      rw [List.filterMap_cons_none (himmediate value), List.filterMap_cons_none rfl]
      exact ih'
    | node id =>
      have hid := hnode id List.mem_cons_self
      rw [List.filterMap_cons_some (f := Input.node?) (b := id) rfl]
      by_cases hkind : g.kind id = Kind.out
      · rw [if_pos hkind] at hid
        rw [List.filterMap_cons_some hid, List.filter_cons_of_pos (by simpa using hkind),
          List.map_cons, ih']
      · rw [if_neg hkind] at hid
        rw [List.filterMap_cons_none hid, List.filter_cons_of_neg (by simpa using hkind), ih']

/-- The outputs that a node is told of are those among its inputs, in order. -/
theorem outputs_eq (ho : options.Usual) (hg : g.Acyclic) (hroot : root < g.size)
    (haligned : (g.assembler root options).Aligned n p)
    (hn : (g.postorder root)[n]? = some id) (hnode : g.node? id = some node)
    (tag : Option String) :
    ((g.assembler root options).context p n node tag).outputs =
      (g.outs id).map (g.output root options) := by
  have htake : ((g.assembler root options).context p n node tag).outputs = node.inputs.filterMap
      fun input => ((g.assembler root options).layout.producer? input).bind
        ((g.assembler root options).context p n node tag).output? := by
    rw [Context.outputs, List.take_of_length_le (by simp [Assembler.context]), Assembler.context,
      List.filterMap_map]
    rfl
  rw [htake, outs, producers, inputs_of_node? hnode]
  refine filterMap_eq_map_outs (fun _ => rfl) fun producer hproducer => ?_
  have hfeeds : g.Feeds producer id := by
    rw [Feeds, inputs_of_node? hnode]
    exact hproducer
  obtain ⟨j, node', hj, hposition, hnode', hposition', -⟩ :
      ∃ j node, j < n ∧ (g.postorder root)[j]? = some producer ∧ g.node? producer = some node ∧
        (g.assembler root options).layout.producer? (.node producer) = some j ∧ _ :=
    Layout.exists_producer hg hroot hn hfeeds
  have hat : (g.assembler root options).layout.nodes[j]? = some node' :=
    Assembler.layout_nodes_eq_some hg hroot hposition hnode'
  have hkindAt : ((g.assembler root options).context p n node tag).kindAt j = some node'.kind := by
    rw [Context.kindAt, Assembler.context, Layout.map_kind_placedAt, hat, Option.map_some]
  rw [hposition', Option.bind_some, Context.output?, hkindAt, kind_of_node? hnode',
    haligned.context_operandsAt hj hat]
  by_cases hkind : node'.kind = Kind.out
  · have hconst : ¬ (g.assembler root options).layout.isConstant node' = true := by
      rw [Assembler.isConstant_iff ho hnode', role, kind_of_node? hnode', hkind]
      decide
    rw [if_pos hkind, if_pos (congrArg some hkind), Assembler.operands, if_neg hconst, output,
      inputs_of_node? hnode']
  · rw [if_neg hkind, if_neg fun h => hkind (Option.some.inj h)]

/-- The texts of the channels read as the channels. -/
theorem read_channels (ho : options.Usual) (hroot : root < g.size) (hplay : g.Playable root)
    (h : m.Holds hg root host states (g.assembler root options).naming.slot n)
    (hn : (g.postorder root)[n]? = some root) {out : NodeId} (hout : out ∈ g.outs root) :
    host.read options.addressing options.stem m
        ((g.output root options out).map (g.assembler root options).naming.write).leftText =
        some (leftChannel hg root host states out) ∧
      host.read options.addressing options.stem m
        ((g.output root options out).map (g.assembler root options).naming.write).rightText =
        some (rightChannel hg root host states out) := by
  rw [outs, List.mem_filter, mem_producers, decide_eq_true_eq] at hout
  obtain ⟨i, -, hi, hposition, -⟩ :
      ∃ i node, i < n ∧ (g.postorder root)[i]? = some out ∧ g.node? out = some node ∧
        (g.assembler root options).layout.producer? (.node out) = some i ∧ _ :=
    Layout.exists_producer hg hroot hn hout.1
  have hexit : g.kind out ≠ Kind.exit := by
    rw [hout.2]
    decide
  have hleft := read_operand? (k := 0) ho hroot hplay h hposition hi.le hexit
    (ho.not_isSlot_digit (.inl rfl))
  refine ⟨hleft, ?_⟩
  rw [rightChannel, evaluateInputs, List.getElem?_map]
  cases hinput : (g.inputs out)[1]? with
  | none =>
    have hright : (g.output root options out).right = none := by simp [output, hinput]
    rw [Output.rightText, Output.map, hright]
    exact hleft
  | some input =>
    have hright : (g.output root options out).right =
        some ((g.assembler root options).layout.operand input) := by simp [output, hinput]
    rw [Output.rightText, Output.map, hright]
    exact read_operand ho hroot hplay h hposition hi.le hexit (List.mem_of_getElem? hinput)

/-- The instruction of an exit, if it has one, returns the mix. -/
theorem exec_exit (ho : options.Usual) (hroot : root < g.size) (hplay : g.Playable root)
    (haligned : (g.assembler root options).Aligned n p)
    (h : m.Holds hg root host states (g.assembler root options).naming.slot n)
    (hn : (g.postorder root)[n]? = some root) (hnode : g.node? root = some node)
    (hkind : g.kind root = Kind.exit) (viaFallback : Bool) :
    let e := (g.assembler root options).entry p n node Role.exit.schema viaFallback
    (e.instruction? (g.assembler root options).naming = none ∧
        mixture hg root host states = none) ∨
      ∃ i, e.instruction? (g.assembler root options).naming = some i ∧
        host.exec options.addressing options.stem m i =
          some { m with returned := mixture hg root host states } := by
  have hstatement : ((g.assembler root options).entry p n node Role.exit.schema
      viaFallback).statement = Builtin.exit.statement?
        ((g.assembler root options).context p n node none) := rfl
  rw [Builtin.statement?, outputs_eq ho hg hroot haligned hn hnode] at hstatement
  rw [mixture, if_pos hkind]
  cases houts : g.outs root with
  | nil =>
    -- without an output there is neither a statement nor a mix
    rw [houts] at hstatement
    refine .inl ⟨?_, rfl⟩
    rw [Entry.instruction?, Entry.command?, hstatement]
    rfl
  | cons first rest =>
    rw [houts] at hstatement
    refine .inr ?_
    rw [Entry.instruction?, Entry.command?, hstatement]
    refine ⟨_, rfl, ?_⟩
    have hread : ∀ out ∈ first :: rest, _ ∧ _ := fun out hout =>
      read_channels ho hroot hplay h hn (houts ▸ hout)
    have hleft : ((((first :: rest).map (g.output root options)).map
        (·.map (g.assembler root options).naming.write)).map (·.leftText)).mapM
          (host.read options.addressing options.stem m) =
        some ((first :: rest).map (leftChannel hg root host states)) := by
      rw [List.map_map, List.map_map, List.mapM_map]
      exact mapM_eq_some fun out hout => (hread out hout).1
    have hright : ((((first :: rest).map (g.output root options)).map
        (·.map (g.assembler root options).naming.write)).map (·.rightText)).mapM
          (host.read options.addressing options.stem m) =
        some ((first :: rest).map (rightChannel hg root host states)) := by
      rw [List.map_map, List.map_map, List.mapM_map]
      exact mapM_eq_some fun out hout => (hread out hout).2
    exact (congrArg (Option.bind · _) hleft).trans (congrArg (Option.bind · _) hright)

end Patchbay
