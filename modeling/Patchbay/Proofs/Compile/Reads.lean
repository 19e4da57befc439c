import Patchbay.Proofs.Compile.SingleAssignment
import Patchbay.Proofs.Meaning.Execution
import Patchbay.Proofs.Meaning.Reading
import Patchbay.Proofs.Signal.Building

/-!
# Which slots are assigned before they are read

Every node that is not a constant has a slot, but not every such node has a statement, and not every
statement assigns. With the standard operations there are two exceptions: an output has no
statement, and that of an exit returns. Nothing keeps a patch from using either as an operand of
something else. A program that does reads a slot that it never assigns (`Script.tapped`).

These are the only exceptions. A statement takes its operands from the inputs of its node, or, if
this is an exit, from the inputs of the outputs among its inputs (`Builtin.mem_operands`). Either
way they stand for nodes that come earlier in the schedule, and any of these that has a statement
which does not return assigns its slot there.
-/

namespace Patchbay

/-! ### Operands of statements -/

section Operands

variable {α : Type}

/-- The operands of an output. -/
def Output.operands (output : Output α) : List α :=
  output.left.toList ++ output.right.toList

/-- The operands of a statement, in order. -/
def Statement.operands : Statement α → List α
  | update _ arguments => arguments
  | write _ value => value.toList
  | arithmetic _ left right => left.toList ++ right.toList
  | copy value => value.toList
  | mix outputs => outputs.flatMap Output.operands
  | verbatim _ => []

variable {c : Context α} {x : α}

theorem Context.mem_operands_of_operand? {i : Nat} (h : x ∈ (c.operand? i).toList) :
    x ∈ c.operands :=
  List.mem_of_getElem? (Option.mem_toList.mp h)

theorem Context.exists_of_mem_outputs {output : Output α} (h : output ∈ c.outputs)
    (hx : x ∈ output.operands) :
    ∃ producer, some producer ∈ c.producers ∧ x ∈ c.operandsAt producer := by
  obtain ⟨producer?, hmem, hbind⟩ := List.mem_filterMap.mp h
  obtain ⟨producer, rfl, houtput⟩ := Option.bind_eq_some_iff.mp hbind
  refine ⟨producer, List.mem_of_mem_take hmem, ?_⟩
  rw [output?] at houtput
  split at houtput
  · obtain rfl := Option.some.inj houtput
    rcases List.mem_append.mp hx with hx | hx
    · exact List.mem_of_getElem? (Option.mem_toList.mp hx)
    · exact List.mem_of_getElem? (Option.mem_toList.mp hx)
  · cases houtput

/-- Where the operands of a built-in statement come from: they are operands of the node, or operands
of a node behind one of its inputs. -/
theorem Builtin.mem_operands {b : Builtin} {statement : Statement α}
    (h : b.statement? c = some statement) (hx : x ∈ statement.operands) :
    x ∈ c.operands ∨ ∃ producer, some producer ∈ c.producers ∧ x ∈ c.operandsAt producer := by
  cases b with
  | unitUpdate =>
    obtain rfl := Option.some.inj h
    exact .inl hx
  | feedbackWrite =>
    obtain rfl := Option.some.inj h
    exact .inl (Context.mem_operands_of_operand? hx)
  | arithmetic operator =>
    obtain rfl := Option.some.inj h
    rcases List.mem_append.mp hx with hx | hx
    · exact .inl (Context.mem_operands_of_operand? hx)
    · exact .inl (Context.mem_operands_of_operand? hx)
  | thru =>
    obtain rfl := Option.some.inj h
    exact .inl (Context.mem_operands_of_operand? hx)
  | exit =>
    rw [statement?] at h
    split at h
    · cases h
    · obtain rfl := Option.some.inj h
      obtain ⟨output, houtput, hx⟩ := List.mem_flatMap.mp hx
      exact .inr (Context.exists_of_mem_outputs houtput hx)

end Operands

/-! ### Commands by node -/

namespace Job

variable {job : Job} {id reader : NodeId} {i : Nat} {c : Command}

/-- The commands of the program, in order. -/
def commands (job : Job) : List Command :=
  Patchbay.commands job.registry job.options job.graph job.root

/-- The command of a node, if it has one. -/
def command? (job : Job) (id : NodeId) : Option Command :=
  (job.generator? id).bind fun generator =>
    (generator.statement? (fun text => text) (job.context id)).map fun statement =>
      ⟨(job.context id).site, statement⟩

theorem line?_eq_command? (job : Job) (id : NodeId) :
    job.line? id = (job.command? id).map Command.text := by
  rw [line?, command?]
  cases job.generator? id with
  | none => rfl
  | some generator =>
    rw [Option.bind_some, Option.bind_some, Option.map_map]
    rfl

theorem line?_of_command? (h : job.command? id = some c) : job.line? id = some c.text := by
  rw [line?_eq_command?, h, Option.map_some]

/-- With built-in generators, where a command comes from. -/
theorem exists_builtin_of_command? (hregistry : job.registry.IsBuiltin)
    (h : job.command? id = some c) : ∃ b : Builtin,
      job.generator? id = some (.builtin b) ∧ b.statement? (job.context id) = some c.statement := by
  obtain ⟨generator, hgenerator, h⟩ := Option.bind_eq_some_iff.mp h
  obtain ⟨statement, hstatement, rfl⟩ := Option.map_eq_some_iff.mp h
  cases generator with
  | custom line? => exact (isBuiltin_of_generator? hregistry hgenerator).elim
  | builtin b => exact ⟨b, hgenerator, hstatement⟩

namespace Sound

/-- The command for a position is that of the node there. -/
theorem command?_eq (h : job.Sound) (hregistry : job.registry.IsBuiltin)
    (hi : job.order[i]? = some id) :
    (job.assembler.entryAt? i).bind (·.command? job.naming) = job.command? id := by
  obtain ⟨node, hnode⟩ := h.exists_node? (List.mem_of_getElem? hi)
  have hbuiltin : ∀ generator, job.generator? id = some generator → generator.IsBuiltin :=
    fun _ hgenerator => isBuiltin_of_generator? hregistry hgenerator
  rw [command?, generator?] at *
  rcases h.entryAt?_cases hi hnode with ⟨hschema, hentry⟩ | ⟨schema, viaFallback, hschema, hentry⟩
  · rw [hschema, hentry]
    rfl
  · rw [hschema, Option.bind_some] at hbuiltin ⊢
    rw [hentry, Option.bind_some, Entry.command?]
    cases hgenerator : schema.generator with
    | none => rfl
    | some generator =>
      cases generator with
      | custom line? => exact (hbuiltin _ hgenerator).elim
      | builtin b =>
        have hstatement := h.statement?_eq hi hnode schema.tag b
        rw [Option.bind_some, Option.bind_some, Generator.statement?, Generator.statement?,
          ← hstatement, Option.map_map, h.naming_slot hi, ← Graph.kind_of_node? hnode]
        rfl

/-- The commands are those of the nodes, in the order of the schedule. -/
theorem commands_eq (h : job.Sound) (hregistry : job.registry.IsBuiltin)
    (hstuck : job.order.find? job.isStuck = none) :
    job.commands = job.order.filterMap job.command? := by
  have hcommands : job.commands = (job.layout.assemble job.registry job.options).entries.filterMap
      (·.command? job.naming) := rfl
  rw [hcommands, h.entries_eq hstuck, List.filterMap_filterMap]
  exact filterMap_range_length fun hi => h.command?_eq hregistry hi

/-! ### Reading comes after computing -/

/-- Only the node itself is written as its slot. -/
theorem eq_node_of_inputText (h : job.Sound)
    (hlettered : job.options.addressing.Lettered job.options.stem) (hid : id ∈ job.order)
    (hslot : job.isConstant id = false) {input : Input}
    (hinput : ∀ producer, input = .node producer → producer ∈ job.order)
    (heq : job.inputText input = job.slotName id) : input = .node id := by
  have hliteral : ∀ literal : Literal, literal.form ≠ job.slotName id := fun literal hform =>
    literal.not_isSlot hlettered (hform ▸ Addressing.isSlot_slot _ _ _)
  cases input with
  | immediate value => exact absurd heq (hliteral value)
  | node producer =>
    rw [inputText] at heq
    split at heq
    · exact absurd heq (hliteral _)
    · next hproducer =>
      have hindex := Addressing.slot_inj.mp heq
      rw [h.slotIndex_inj (hinput producer rfl) hid (by simpa using hproducer) hslot hindex]

/-- An operand that is the slot of a node comes from an input that is this node. -/
theorem feeds_of_mem_operands (h : job.Sound)
    (hlettered : job.options.addressing.Lettered job.options.stem) (hid : id ∈ job.order)
    (hslot : job.isConstant id = false) (hi : job.order[i]? = some reader)
    (hmem : job.slotName id ∈ job.operands reader) : job.graph.Feeds id reader := by
  obtain ⟨input, hinput, heq⟩ := List.mem_map.mp hmem
  have hproducer : ∀ producer, input = .node producer → producer ∈ job.order := by
    rintro producer rfl
    obtain ⟨j, -, hj⟩ := h.exists_lt_of_feeds hi hinput
    exact List.mem_of_getElem? hj
  obtain rfl := h.eq_node_of_inputText hlettered hid hslot hproducer heq
  exact hinput

/-- A node whose slot is read comes before the reader. -/
theorem exists_lt_of_mem_operands (h : job.Sound) (hregistry : job.registry.IsBuiltin)
    (hlettered : job.options.addressing.Lettered job.options.stem) (hid : id ∈ job.order)
    (hslot : job.isConstant id = false) (hi : job.order[i]? = some reader)
    (hc : job.command? reader = some c) (hread : job.slotName id ∈ c.statement.operands) :
    ∃ j < i, job.order[j]? = some id := by
  obtain ⟨b, -, hstatement⟩ := exists_builtin_of_command? hregistry hc
  rcases b.mem_operands hstatement hread with hmem | ⟨producer, hproducer, hmem⟩
  · exact h.exists_lt_of_feeds hi (h.feeds_of_mem_operands hlettered hid hslot hi hmem)
  · -- the slot belongs to an output that the reader mixes
    obtain ⟨input, hinput, hnode⟩ := List.mem_map.mp hproducer
    cases input with
    | immediate value => cases hnode
    | node other =>
      obtain rfl := Option.some.inj hnode
      obtain ⟨j, hj, hother⟩ := h.exists_lt_of_feeds hi hinput
      have hmem' : job.slotName id ∈ job.operands other := by
        simp only [context] at hmem
        split at hmem
        · cases hmem
        · exact hmem
      obtain ⟨k, hk, hid'⟩ := h.exists_lt_of_feeds hother
        (h.feeds_of_mem_operands hlettered hid hslot hother hmem')
      exact ⟨k, hk.trans hj, hid'⟩

end Sound

/-- Where the slot of a node is read, an earlier command has assigned it. -/
def AssignsBeforeReading (job : Job) (id : NodeId) : Prop :=
  ∀ before c after, job.commands = before ++ c :: after →
    job.slotName id ∈ c.statement.operands →
      ∃ c' ∈ before, job.options.addressing.Assigns c'.text (job.slotName id)

namespace Sound

/-- A node with a statement that does not return has its slot assigned in time. -/
theorem assignsBeforeReading (h : job.Sound) (hregistry : job.registry.IsBuiltin)
    (hstuck : job.order.find? job.isStuck = none)
    (hlettered : job.options.addressing.Lettered job.options.stem) (hid : id ∈ job.order)
    {b : Builtin} (hgenerator : job.generator? id = some (.builtin b)) (hb : b ≠ .exit) :
    job.AssignsBeforeReading id := by
  obtain ⟨line, hline, hassigns⟩ := line?_assigns hgenerator hb
  have hslot := isConstant_of_line? hline
  rw [line?_eq_command?] at hline
  obtain ⟨c', hc', rfl⟩ := Option.map_eq_some_iff.mp hline
  intro before c after hsplit hread
  rw [h.commands_eq hregistry hstuck] at hsplit
  obtain ⟨front, rest, horder, rfl, hrest⟩ := List.filterMap_eq_append_iff.mp hsplit
  obtain ⟨silent, reader, back, rfl, hsilent, hc, -⟩ := List.filterMap_eq_cons_iff.mp hrest
  -- everything before the reader is in `front`, except for nodes without a command
  have hi : job.order[(front ++ silent).length]? = some reader := by
    rw [horder, ← List.append_assoc, List.getElem?_append_right (Nat.le_refl _), Nat.sub_self,
      List.getElem?_cons_zero]
  obtain ⟨j, hj, hid'⟩ :=
    h.exists_lt_of_mem_operands hregistry hlettered hid hslot hi hc hread
  have hmem : id ∈ front ++ silent := by
    rw [horder, ← List.append_assoc, List.getElem?_append_left hj] at hid'
    exact List.mem_of_getElem? hid'
  refine ⟨c', List.mem_filterMap.mpr ⟨id, ?_, hc'⟩, hassigns⟩
  rcases List.mem_append.mp hmem with hmem | hmem
  · exact hmem
  · cases (hsilent id hmem).symm.trans hc'

/-- The slot of a node without a statement, or with one that returns, is never assigned. -/
theorem not_assigns (h : job.Sound) (hregistry : job.registry.IsBuiltin)
    (hstuck : job.order.find? job.isStuck = none) (hid : id ∈ job.order)
    (hslot : job.isConstant id = false)
    (hgenerator : job.generator? id = none ∨ job.generator? id = some (.builtin .exit))
    (hc : c ∈ job.commands) : ¬ job.options.addressing.Assigns c.text (job.slotName id) := by
  intro hassigns
  rw [h.commands_eq hregistry hstuck] at hc
  obtain ⟨other, hother, hc⟩ := List.mem_filterMap.mp hc
  have hline := line?_of_command? hc
  have hindex := eq_slotIndex_of_assigns hregistry hline hassigns
  obtain rfl := h.slotIndex_inj hid hother hslot (isConstant_of_line? hline) hindex
  rcases hgenerator with hnone | hexit
  · rw [line?, hnone] at hline
    cases hline
  · obtain ⟨rest, hreturn⟩ := exists_return_of_exit hexit hline
    exact Addressing.not_assigns_return _ _ _ rest (hreturn ▸ hassigns)

end Sound

/-! ### The standard operations -/

/-- With the standard operations, a node that is not a constant is compiled as its role says. -/
theorem schema?_of_standard (hregistry : job.registry = .standard) (hoptions : job.options.Usual)
    (hslot : job.isConstant id = false) : job.schema? id = some (job.graph.role id).schema := by
  obtain ⟨viaFallback, hresolve⟩ := Registry.standard_resolve? (job.graph.kind id)
  rw [schema?, hslot, if_neg Bool.false_ne_true, hregistry, hoptions.fallbackKind, hresolve]
  rfl

theorem generator?_of_standard (hregistry : job.registry = .standard)
    (hoptions : job.options.Usual) (hslot : job.isConstant id = false) :
    job.generator? id = (job.graph.role id).schema.generator := by
  rw [generator?, schema?_of_standard hregistry hoptions hslot, Option.bind_some]

theorem tag?_of_standard (hregistry : job.registry = .standard) (hoptions : job.options.Usual)
    (id : NodeId) : job.tag? id = (job.graph.role id).tag? := by
  cases hslot : job.isConstant id with
  | true =>
    have hkind : job.graph.kind id = Kind.constant :=
      (of_decide_eq_true hslot).trans hoptions.constantKind
    rw [tag?_of_isConstant hslot, Graph.role, Role.ofKind_eq_constant.mpr hkind]
    rfl
  | false =>
    rw [tag?, schema?_of_standard hregistry hoptions hslot, Option.bind_some, Role.schema_tag]

/-- Every slot that the program reads has been assigned, except for those of nodes of some kinds. -/
def ReadsAssigned (job : Job) (exceptions : List String) : Prop :=
  ∀ id, job.graph.Reachable job.root id → job.graph.kind id ≠ job.options.constantKind →
    job.graph.kind id ∉ exceptions → job.AssignsBeforeReading id

/-- What a line says is what its command says: the slot, the unit and the operands of each command
are read off its line, unless what identifiers begin with gets in the way. -/
def ReadsBack (job : Job) : Prop :=
  job.options.addressing.Legible job.options.stem → ∀ c ∈ job.commands,
    ∃ i, c.instruction? = some i ∧ Instruction.read? job.options.addressing c.text = some i

/-- Which slots a program has assigned when it reads them. -/
structure AssignsAllButOutputs (job : Job) (compiled : Compiled) : Prop where
  /-- The program consists of the commands. -/
  program : compiled.program = String.intercalate "\n" (job.commands.map Command.text)
  /-- The commands are read off their lines. -/
  readsBack : job.ReadsBack
  /-- A slot that is read has been assigned, unless it is that of an output or an exit. -/
  assigned : job.ReadsAssigned [Kind.out, Kind.exit]
  /-- The slots of outputs and exits are never assigned. -/
  unassigned : ∀ id, job.graph.Reachable job.root id →
    job.graph.kind id ∈ [Kind.out, Kind.exit] →
      ∀ c ∈ job.commands, ¬ job.options.addressing.Assigns c.text (job.slotName id)

theorem Sound.assignsAllButOutputs (h : job.Sound) (hregistry : job.registry = .standard)
    (hoptions : job.options.Usual) {compiled : Compiled}
    (hok : job.compile.outcome = .ok compiled) : job.AssignsAllButOutputs compiled := by
  have hbuiltin : job.registry.IsBuiltin := hregistry ▸ Registry.standard_isBuiltin
  have hstuck := h.find?_isStuck_of_ok hok
  refine ⟨program_eq_commands hok, fun hstem c => read?_of_mem_commands hbuiltin hstem, ?_, ?_⟩
  · intro id hid hkind hexception
    have hslot : job.isConstant id = false := decide_eq_false hkind
    have hhasSlot : (job.graph.role id).hasSlot = true := by
      rw [hoptions.constantKind] at hkind
      exact Role.hasSlot_ofKind.mpr ⟨hkind, by simpa using hexception⟩
    obtain ⟨b, hb, hgenerator⟩ := Role.exists_builtin_of_hasSlot hhasSlot
    rw [← generator?_of_standard hregistry hoptions hslot] at hgenerator
    exact h.assignsBeforeReading hbuiltin hstuck hoptions.lettered (h.mem_order.mpr hid)
      hgenerator hb
  · intro id hid hkind c hc
    have hslot : job.isConstant id = false := by
      refine decide_eq_false fun hconst => ?_
      rw [hconst, hoptions.constantKind] at hkind
      revert hkind
      decide
    have hgenerator := generator?_of_standard hregistry hoptions hslot
    refine h.not_assigns hbuiltin hstuck (h.mem_order.mpr hid) hslot ?_ hc
    rw [hgenerator, Graph.role]
    rcases List.mem_pair.mp hkind with hout | hexit
    · rw [Role.ofKind_eq_out.mpr hout]
      exact .inl rfl
    · rw [Role.ofKind_eq_exit.mpr hexit]
      exact .inr rfl

/-- An output or an exit that is used as an operand is read without having been assigned. -/
theorem AssignsAllButOutputs.not_assignsBeforeReading {compiled : Compiled}
    (h : job.AssignsAllButOutputs compiled) (hid : job.graph.Reachable job.root id)
    (hkind : job.graph.kind id ∈ [Kind.out, Kind.exit]) (hc : c ∈ job.commands)
    (hread : job.slotName id ∈ c.statement.operands) : ¬ job.AssignsBeforeReading id := by
  intro hassigns
  obtain ⟨before, after, hsplit⟩ := List.append_of_mem hc
  obtain ⟨c', hc', hassign⟩ := hassigns before c after hsplit hread
  exact h.unassigned id hid hkind c' (hsplit ▸ List.mem_append_left _ hc') hassign

end Job

/-! ### Scripts -/

namespace Script

variable {n : Nat}

/-- What compiling a script is: its root, with the standard operations and the default options. -/
def job (script : Script n) (outputs : List (Fin n)) : Job where
  graph := (script.runExit outputs {}).2
  root := (script.runExit outputs {}).1

theorem job_sound (script : Script n) (outputs : List (Fin n)) : (script.job outputs).Sound := by
  have hempty : ({} : Graph).WellFormed := by
    intro id node hnode
    cases hnode
  obtain ⟨-, hwellFormed, hroot⟩ := script.ensures_runExit outputs {} (.refl {}) hempty
  exact ⟨hwellFormed.acyclic, hroot⟩

/-- Every script compiles, and its program assigns a slot before reading it, unless it is the slot
of an output or an exit. -/
theorem assigns_before_reading (script : Script n) (outputs : List (Fin n)) :
    ∃ compiled, (script.job outputs).compile.outcome = .ok compiled ∧
      (script.job outputs).AssignsAllButOutputs compiled := by
  obtain ⟨compiled, hok⟩ : ∃ compiled, (script.job outputs).compile.outcome = .ok compiled :=
    Job.exists_compiled rfl rfl
  exact ⟨compiled, hok, (script.job_sound outputs).assignsAllButOutputs rfl
    (Options.usual_default .identifiers false) hok⟩

/-- A script that uses an output and an exit as operands. -/
def tapped : Script 5 :=
  .snoc (.snoc (.snoc (.snoc (.snoc .nil
    (.apply .sine [.literal 200]))
    (.apply .out [.signal (.last 0)]))
    (.build Kind.exit [.signal (.last 1)] []))
    (.apply .add [.signal (.castSucc (.last 1)), .signal (.last 2)]))
    (.apply .out [.signal (.last 3)])

/-- Neither exception can be done without. -/
theorem tapped_not_readsAssigned : ¬ (tapped.job [4]).ReadsAssigned [] ∧
    ¬ (tapped.job [4]).ReadsAssigned [Kind.out] ∧
      ¬ (tapped.job [4]).ReadsAssigned [Kind.exit] := by
  set job := tapped.job [4]
  have hsound : job.Sound := tapped.job_sound [4]
  have hoptions : job.options.Usual := Options.usual_default .identifiers false
  obtain ⟨compiled, hok⟩ : ∃ compiled, job.compile.outcome = .ok compiled :=
    Job.exists_compiled rfl rfl
  have hassigns := hsound.assignsAllButOutputs rfl hoptions hok
  have hfive : job.graph.Reachable job.root 5 := .feeds .root (by decide)
  have hfour : job.graph.Reachable job.root 4 := .feeds hfive (by decide)
  have htwo : job.graph.Reachable job.root 2 := .feeds hfour (by decide)
  have hthree : job.graph.Reachable job.root 3 := .feeds hfour (by decide)
  -- the sum reads both slots
  have hcommand : job.command? 4 = some ⟨(job.context 4).site,
      .arithmetic .add (some (job.slotName 2)) (some (job.slotName 3))⟩ := by
    rw [Job.command?, Job.generator?_of_standard rfl hoptions (by decide)]
    rfl
  have hmem := hsound.commands_eq Registry.standard_isBuiltin (hsound.find?_isStuck_of_ok hok) ▸
    List.mem_filterMap.mpr ⟨4, hsound.mem_order.mpr hfour, hcommand⟩
  have hout : ¬ job.AssignsBeforeReading 2 :=
    hassigns.not_assignsBeforeReading htwo (by decide) hmem (by simp [Statement.operands])
  have hexit : ¬ job.AssignsBeforeReading 3 :=
    hassigns.not_assignsBeforeReading hthree (by decide) hmem (by simp [Statement.operands])
  refine ⟨fun h => hout (h 2 htwo (by decide) (by decide)),
    fun h => hexit (h 3 hthree (by decide) (by decide)),
    fun h => hout (h 2 htwo (by decide) (by decide))⟩

end Script

end Patchbay
