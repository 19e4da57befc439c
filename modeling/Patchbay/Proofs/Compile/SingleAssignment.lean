import Mathlib.Data.Set.Card
import Patchbay.Proofs.Compile.Nodes

/-!
# Programs assign each slot once

A node has at most one statement, however many others use it, and that statement stores its value
in the slot of the node. `compile_singleAssignment` says what this comes to for the text of a
program: the statements are those of the nodes that emit one, in the order of the schedule; all but
those of exits begin with the assignment of the slot of their node; and no two of them begin with
the assignment of the same slot. Registers are numbered without gaps.

That two assignments can be told apart is a matter of text, and identifiers may begin with anything.
The index in a slot is read off up to the first character that is not a digit, and both conventions
have such a character after it (`Addressing.Assigns.index_eq`).
-/

namespace Patchbay

/-! ### Assignments as text -/

namespace Addressing

variable {a : Addressing} {line stem : String} {i j : Nat}

/-- A line begins with the assignment of the slot called `name`. -/
def Assigns (a : Addressing) (line name : String) : Prop :=
  ∃ rest, line = a.declaration ++ name ++ " = " ++ rest

theorem assigns_assign (a : Addressing) (name expression : String) :
    a.Assigns (a.assign name expression) name :=
  ⟨expression ++ ";", String.append_assoc⟩

theorem Assigns.append {name : String} (h : a.Assigns line name) (tail : String) :
    a.Assigns (line ++ tail) name := by
  obtain ⟨rest, rfl⟩ := h
  exact ⟨rest ++ tail, String.append_assoc⟩

/-- The index of a slot can be read back when an assignment follows. -/
theorem indexOf_slot_append (a : Addressing) (stem : String) (index : Nat) (rest : String) :
    a.indexOf stem (a.slot stem index ++ " = " ++ rest) = index := by
  have hdigits : ∀ c ∈ Nat.toDigits 10 index, c.isDigit := fun c hc =>
    Nat.isDigit_of_mem_toDigits (by decide) (by decide) hc
  have hstop : (a.back ++ (" = " ++ rest).toList).takeWhile Char.isDigit = [] := by
    rw [String.toList_append]
    cases a <;> rfl
  rw [indexOf, String.append_assoc, String.toList_append, slot_toList, List.append_assoc,
    List.append_assoc, List.drop_left, List.takeWhile_append_of_pos hdigits, hstop,
    List.append_nil]
  exact Nat.ofDigitChars_toDigits (by decide) (by decide)

/-- A line begins with the assignment of one slot at most. -/
theorem Assigns.index_eq (hi : a.Assigns line (a.slot stem i))
    (hj : a.Assigns line (a.slot stem j)) : i = j := by
  obtain ⟨rest, rfl⟩ := hi
  obtain ⟨rest', heq⟩ := hj
  rw [String.append_assoc, String.append_assoc, String.append_assoc, String.append_assoc,
    String.append_right_inj, ← String.append_assoc, ← String.append_assoc] at heq
  rw [← indexOf_slot_append a stem i rest, heq, indexOf_slot_append]

/-- A line that returns assigns nothing. -/
theorem not_assigns_return (a : Addressing) (stem : String) (i : Nat) (rest : String) :
    ¬ a.Assigns ("return" ++ rest) (a.slot stem i) := by
  rintro ⟨rest', heq⟩
  -- the second character tells `return` from a register
  have hsecond := congrArg (fun text : String => text.toList[1]?) heq
  simp only [String.toList_append, slot_toList] at hsecond
  cases a with
  | identifiers => simp [declaration] at hsecond
  | registers => simp [declaration, front] at hsecond

end Addressing

/-- What a built-in generator other than that of exits gives begins with an assignment. -/
theorem Builtin.exists_assigns {b : Builtin} (hb : b ≠ .exit) (c : Context String) :
    ∃ statement, b.statement? c = some statement ∧
      c.addressing.Assigns (statement.text c.site) c.slot := by
  cases b with
  | unitUpdate => exact ⟨_, rfl, (Addressing.assigns_assign _ _ _).append _⟩
  | feedbackWrite => exact ⟨_, rfl, (Addressing.assigns_assign _ _ _).append _⟩
  | arithmetic operator => exact ⟨_, rfl, Addressing.assigns_assign _ _ _⟩
  | thru => exact ⟨_, rfl, Addressing.assigns_assign _ _ _⟩
  | exit => exact absurd rfl hb

/-- What mixes outputs returns. -/
theorem Statement.exists_return (site : Site) (outputs : List (Output String)) :
    ∃ rest, (mix outputs).text site = "return" ++ rest := by
  have hreturn : "return [(" = "return" ++ " [(" := rfl
  refine ⟨" [(" ++ (sumText (outputs.map (·.leftText)) ++ ("*lvl),(" ++
    (sumText (outputs.map (·.rightText)) ++ "*lvl)]"))), ?_⟩
  simp only [text, hreturn, String.append_assoc]

/-! ### Which nodes have a statement -/

namespace Job

variable {job : Job} {id : NodeId} {i : Nat} {compiled : Compiled} {line : String}

/-- Whether a node has a statement. Every built-in generator makes one, except that an exit needs an
output among its inputs. -/
def emits (job : Job) (id : NodeId) : Bool :=
  match job.generator? id with
  | none => false
  | some (.builtin .exit) => (job.graph.producers id).any (job.graph.kind · = Kind.out)
  | some _ => true

/-- The outputs among the inputs of a node, by node. -/
theorem context_outputs (job : Job) (id : NodeId) :
    (job.context id).outputs = (job.graph.producers id).filterMap (job.context id).output? := by
  have hlength : (job.context id).producers.length = (job.context id).operands.length := by
    simp only [context, operands, List.length_map]
  rw [Context.outputs, ← hlength, List.take_length, Graph.producers, List.filterMap_filterMap]
  exact List.filterMap_map

theorem kindAt_eq_out_iff (job : Job) (id producer : NodeId) :
    (job.context id).kindAt producer = some Kind.out ↔ job.graph.kind producer = Kind.out := by
  rw [context_kindAt, Graph.kind]
  cases job.graph.node? producer with
  | none => simp [Kind.out]
  | some node => simp

theorem output?_isSome (job : Job) (id producer : NodeId) :
    ((job.context id).output? producer).isSome = decide (job.graph.kind producer = Kind.out) := by
  have hkind := job.kindAt_eq_out_iff id producer
  rw [Context.output?]
  by_cases hout : job.graph.kind producer = Kind.out
  · simp [hout, hkind.mpr hout]
  · simp [hout, mt hkind.mp hout]

/-- An exit has a line if an output is among its inputs. -/
theorem line?_isSome_of_exit (hgenerator : job.generator? id = some (.builtin .exit)) :
    (job.line? id).isSome = (job.graph.producers id).any (job.graph.kind · = Kind.out) := by
  have hline : (job.line? id).isSome = !(job.context id).outputs.isEmpty := by
    rw [line?, hgenerator, Option.bind_some, Generator.line?, Option.isSome_map,
      Generator.statement?, Builtin.statement?]
    cases (job.context id).outputs <;> rfl
  rw [hline, context_outputs, Bool.eq_iff_iff]
  simp only [Bool.not_eq_true', List.isEmpty_eq_false_iff, ne_eq, List.filterMap_eq_nil_iff,
    not_forall, exists_prop, List.any_eq_true, ← output?_isSome job id,
    Option.isSome_iff_ne_none]

/-- The line of an exit returns. -/
theorem exists_return_of_exit (hgenerator : job.generator? id = some (.builtin .exit))
    (hline : job.line? id = some line) : ∃ rest, line = "return" ++ rest := by
  rw [line?, hgenerator, Option.bind_some] at hline
  obtain ⟨statement, hstatement, rfl⟩ := Option.map_eq_some_iff.mp hline
  rw [Generator.statement?, Builtin.statement?] at hstatement
  split at hstatement
  · cases hstatement
  · obtain rfl := Option.some.inj hstatement
    exact Statement.exists_return _ _

/-- Any other line begins with the assignment of the slot of its node. -/
theorem line?_assigns {b : Builtin} (hgenerator : job.generator? id = some (.builtin b))
    (hb : b ≠ .exit) : ∃ line, job.line? id = some line ∧
      job.options.addressing.Assigns line (job.slotName id) := by
  obtain ⟨statement, hstatement, hassigns⟩ := Builtin.exists_assigns hb (job.context id)
  refine ⟨_, ?_, hassigns⟩
  rw [line?, hgenerator, Option.bind_some, Generator.line?, Generator.statement?, hstatement,
    Option.map_some]

theorem isConstant_of_line? (hline : job.line? id = some line) : job.isConstant id = false := by
  rw [Bool.eq_false_iff]
  intro hconst
  rw [line?_of_isConstant hconst] at hline
  cases hline

/-- Which nodes have a line. -/
theorem line?_isSome (hregistry : job.registry.IsBuiltin) (id : NodeId) :
    (job.line? id).isSome = job.emits id := by
  rw [emits]
  split
  · next hgenerator => rw [line?, hgenerator]; rfl
  · next hgenerator => exact line?_isSome_of_exit hgenerator
  · next generator hexit hgenerator =>
    cases generator with
    | custom line? => exact (isBuiltin_of_generator? hregistry hgenerator).elim
    | builtin b =>
      obtain ⟨line, hline, -⟩ := line?_assigns hgenerator fun hb => hexit (hb ▸ rfl)
      rw [hline]
      rfl

/-- The only slot that the line of a node can begin to assign is that of the node. -/
theorem eq_slotIndex_of_assigns (hregistry : job.registry.IsBuiltin)
    (hline : job.line? id = some line) {n : Nat}
    (hassigns : job.options.addressing.Assigns line
      (job.options.addressing.slot job.options.stem n)) : n = job.slotIndex id := by
  obtain ⟨generator, hgenerator, -⟩ := Option.bind_eq_some_iff.mp hline
  cases generator with
  | custom line? => exact (isBuiltin_of_generator? hregistry hgenerator).elim
  | builtin b =>
    by_cases hb : b = .exit
    · subst hb
      obtain ⟨rest, rfl⟩ := exists_return_of_exit hgenerator hline
      exact absurd hassigns (Addressing.not_assigns_return _ _ _ _)
    · obtain ⟨line', hline', hassigns'⟩ := line?_assigns hgenerator hb
      obtain rfl := Option.some.inj (hline.symm.trans hline')
      exact hassigns.index_eq hassigns'

/-! ### Single assignment -/

/-- The statements of a compiled patch, by the slots that they assign. -/
structure SingleAssignment (job : Job) (compiled : Compiled) : Prop where
  /-- The program consists of the statements. -/
  program : compiled.program = String.intercalate "\n" (job.compile.emitted.map (·.2))
  /-- There is one statement for each node that emits one, in the order of the schedule. -/
  statements : job.compile.emitted.map (·.1) =
    (job.order.filter job.emits).map fun id => ⟨job.position id, job.graph.kind id⟩
  /-- A statement begins with the assignment of the slot of its node, unless this is an exit. -/
  own_slot : ∀ s ∈ job.compile.emitted, ∀ id, job.order[s.1.position]? = some id →
    job.generator? id ≠ some (.builtin .exit) →
    job.options.addressing.Assigns s.2 (job.naming.slot s.1.position)
  /-- No two statements begin with the assignment of the same slot. -/
  once : job.compile.emitted.Pairwise fun s s' => ∀ name,
    job.options.addressing.IsSlot job.options.stem name →
    ¬ (job.options.addressing.Assigns s.2 name ∧ job.options.addressing.Assigns s'.2 name)
  /-- The nodes that are not constants have a slot each. -/
  slotCount : compiled.slotCount =
    {id | job.graph.Reachable job.root id ∧ job.graph.kind id ≠ job.options.constantKind}.ncard
  /-- Registers are numbered in the order of the schedule, without gaps. -/
  packed : job.options.addressing = .registers →
    ((job.order.filter (!job.isConstant ·)).map fun id => job.naming.slot (job.position id)) =
      (List.range compiled.slotCount).map fun n => "r[" ++ toString n ++ "]"

namespace Sound

/-- Nodes with a slot have different indices. -/
theorem slotIndex_inj (h : job.Sound) {id' : NodeId} (hid : id ∈ job.order) (hid' : id' ∈ job.order)
    (hslot : job.isConstant id = false) (hslot' : job.isConstant id' = false)
    (heq : job.slotIndex id = job.slotIndex id') : id = id' := by
  have hi := h.getElem?_position hid
  have hj := h.getElem?_position hid'
  obtain ⟨node, hnode⟩ := h.exists_node? hid
  obtain ⟨node', hnode'⟩ := h.exists_node? hid'
  have hname : job.naming.slot (job.position id) = job.naming.slot (job.position id') := by
    rw [h.naming_slot hi, h.naming_slot hj, slotName, slotName, heq]
  have hposition : job.position id = job.position id' :=
    (Layout.naming_slot_inj ((h.layout_nodes_getElem? hi).trans hnode)
      ((isConstant_of_node? hnode).trans hslot) ((h.layout_nodes_getElem? hj).trans hnode')
      ((isConstant_of_node? hnode').trans hslot')).mp hname
  exact Option.some.inj (hi.symm.trans (hposition ▸ hj))

theorem slotCount_eq_ncard (h : job.Sound) : job.order.countP (!job.isConstant ·) =
    {id | job.graph.Reachable job.root id ∧
      job.graph.kind id ≠ job.options.constantKind}.ncard := by
  have hset : {id | job.graph.Reachable job.root id ∧
      job.graph.kind id ≠ job.options.constantKind} =
        ((job.order.filter (!job.isConstant ·)).toFinset : Set NodeId) := by
    ext id
    simp [h.mem_order, isConstant]
  rw [hset, Set.ncard_coe_finset, List.toFinset_card_of_nodup (h.nodup.filter _),
    List.countP_eq_length_filter]

/-- The registers of the nodes with a slot. -/
theorem map_slotIndex (h : job.Sound) (hregisters : job.options.addressing = .registers) :
    (job.order.filter (!job.isConstant ·)).map job.slotIndex =
      List.range (job.order.countP (!job.isConstant ·)) := by
  refine List.ext_getElem ?_ fun k hk _ => ?_
  · rw [List.length_map, List.length_range, List.countP_eq_length_filter]
  · rw [List.length_map] at hk
    rw [List.getElem_map, List.getElem_range, slotIndex, hregisters]
    exact countP_takeWhile_ne_of_getElem? h.nodup (List.getElem?_eq_getElem hk)

/-- Where a statement comes from. -/
theorem exists_of_mem_emitted (h : job.Sound) (hregistry : job.registry.IsBuiltin)
    (hstuck : job.order.find? job.isStuck = none) {s : Subject × String}
    (hs : s ∈ job.compile.emitted) :
    ∃ id ∈ job.order, s.1.position = job.position id ∧ job.line? id = some s.2 := by
  rw [h.emitted_eq hregistry hstuck] at hs
  obtain ⟨id, hid, hemission⟩ := List.mem_filterMap.mp hs
  obtain ⟨line, hline, rfl⟩ := Option.map_eq_some_iff.mp hemission
  exact ⟨id, hid, rfl, hline⟩

/-- The subjects of the statements are the nodes that emit one. -/
theorem map_emitted (h : job.Sound) (hregistry : job.registry.IsBuiltin)
    (hstuck : job.order.find? job.isStuck = none) :
    job.compile.emitted.map (·.1) =
      (job.order.filter job.emits).map fun id => ⟨job.position id, job.graph.kind id⟩ := by
  rw [h.emitted_eq hregistry hstuck, List.map_filterMap, ← List.filterMap_eq_map,
    List.filterMap_filter]
  refine List.filterMap_congr fun id _ => ?_
  rw [← line?_isSome hregistry id, emission?]
  cases job.line? id <;> rfl

/-- Statements of different nodes assign different slots. -/
theorem pairwise_emitted (h : job.Sound) (hregistry : job.registry.IsBuiltin)
    (hstuck : job.order.find? job.isStuck = none) :
    job.compile.emitted.Pairwise fun s s' => ∀ name,
      job.options.addressing.IsSlot job.options.stem name →
      ¬ (job.options.addressing.Assigns s.2 name ∧ job.options.addressing.Assigns s'.2 name) := by
  rw [h.emitted_eq hregistry hstuck, List.pairwise_filterMap]
  refine h.nodup.imp_of_mem fun {id id'} hid hid' hne => ?_
  rintro s hs s' hs' name ⟨n, rfl⟩ ⟨hassigns, hassigns'⟩
  obtain ⟨line, hline, rfl⟩ := Option.map_eq_some_iff.mp hs
  obtain ⟨line', hline', rfl⟩ := Option.map_eq_some_iff.mp hs'
  refine hne (h.slotIndex_inj hid hid' (isConstant_of_line? hline) (isConstant_of_line? hline') ?_)
  rw [← eq_slotIndex_of_assigns hregistry hline hassigns,
    ← eq_slotIndex_of_assigns hregistry hline' hassigns']

end Sound

end Job

/-- Programs are in single-assignment form. With built-in generators, a successful compile has one
statement for each node that emits one, in the order of the schedule; a statement begins with the
assignment of the slot of its own node, unless it returns, and no two begin with the assignment of
the same slot; and the nodes that are not constants have one slot each, which are numbered without
gaps if they are registers. -/
theorem compile_singleAssignment {job : Job} (h : job.Sound) (hregistry : job.registry.IsBuiltin)
    {compiled : Compiled} (hok : job.compile.outcome = .ok compiled) :
    job.SingleAssignment compiled := by
  have hstuck := h.find?_isStuck_of_ok hok
  obtain rfl := h.eq_result_of_ok hok
  refine ⟨rfl, h.map_emitted hregistry hstuck, ?_, h.pairwise_emitted hregistry hstuck,
    h.slotCount_eq_ncard, ?_⟩
  · intro s hs id hid hexit
    obtain ⟨id', hid', hposition, hline⟩ := h.exists_of_mem_emitted hregistry hstuck hs
    rw [hposition, h.getElem?_position hid', Option.some.injEq] at hid
    subst hid
    rw [hposition, h.naming_slot (h.getElem?_position hid')]
    obtain ⟨generator, hgenerator, -⟩ := Option.bind_eq_some_iff.mp hline
    cases generator with
    | custom line? => exact (Job.isBuiltin_of_generator? hregistry hgenerator).elim
    | builtin b =>
      obtain ⟨line, hline', hassigns⟩ := Job.line?_assigns hgenerator fun hb =>
        hexit (hb ▸ hgenerator)
      obtain rfl := Option.some.inj (hline.symm.trans hline')
      exact hassigns
  · intro hregisters
    rw [Job.result, ← h.map_slotIndex hregisters, List.map_map]
    refine List.map_congr_left fun id hid => ?_
    rw [h.naming_slot (h.getElem?_position (List.mem_of_mem_filter hid)), Job.slotName, hregisters]
    rfl

/-- Filtered noise, with registers. -/
def Job.filteredNoise : Job where
  options := { addressing := .registers }
  graph := .filteredNoise
  root := 6

theorem Job.filteredNoise_singleAssignment :
    Job.filteredNoise.Sound ∧ Job.filteredNoise.registry.IsBuiltin ∧ ∃ compiled,
      Job.filteredNoise.compile.outcome = .ok compiled ∧
      Job.filteredNoise.SingleAssignment compiled := by
  have hwellFormed : Graph.filteredNoise.WellFormed := by decide
  have hsound : Job.filteredNoise.Sound := ⟨hwellFormed.acyclic, by decide⟩
  obtain ⟨compiled, hok⟩ : ∃ compiled, Job.filteredNoise.compile.outcome = .ok compiled :=
    exists_compiled rfl rfl
  exact ⟨hsound, Registry.standard_isBuiltin, compiled, hok,
    compile_singleAssignment hsound Registry.standard_isBuiltin hok⟩

end Patchbay
