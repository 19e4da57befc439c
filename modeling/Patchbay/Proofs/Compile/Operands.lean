import Mathlib.Logic.ExistsUnique
import Patchbay.Proofs.Compile.Reads

/-!
# What the operands of a program stand for

An operand of a program is a text, and a host has nothing else to go by. It stands for the slot of
exactly one node or for a literal, and not for both (`operands_unambiguous`). This takes that slots
have different names, and that no literal is written like a slot, whatever the literal is.

The second can fail if identifiers begin with something that numbers begin with. If there is nothing
before the index of a slot, then the first slot is `0`.
-/

namespace Patchbay

/-! ### Operands of statements over other operands -/

section Statements

variable {α β : Type} (f : α → β)

theorem Output.operands_map (output : Output α) :
    (output.map f).operands = output.operands.map f := by
  simp [operands, map, Option.toList_map]

theorem Statement.operands_map (statement : Statement α) :
    (statement.map f).operands = statement.operands.map f := by
  cases statement with
  | mix outputs => simp [map, operands, List.flatMap_map, List.map_flatMap, Output.operands_map]
  | _ => simp [map, operands, Option.toList_map]

end Statements

/-- The operands that a node is told of another one are those of its inputs. -/
theorem Assembler.exists_of_mem_operandsAt {a : Assembler} {i j : Nat} {node : Node}
    {tag : Option String} {operand : Operand}
    (h : operand ∈ (a.contextAt i node tag).operandsAt j) :
    ∃ node', a.layout.nodes[j]? = some node' ∧ operand ∈ node'.inputs.map a.layout.operand := by
  simp only [contextAt] at h
  split at h
  · cases hnode : a.layout.nodes[j]? with
    | none =>
      rw [hnode] at h
      cases h
    | some node' =>
      rw [hnode, Option.map_some, Option.getD_some, operands] at h
      split at h
      · cases h
      · exact ⟨node', rfl, h⟩
  · cases h

namespace Job

variable {job : Job} {id : NodeId}

/-- What stands for a node where it is an operand. -/
def resolved (job : Job) (id : NodeId) : String :=
  job.naming.write (job.layout.operand (.node id))

/-- A text stands for the slot of a node. -/
structure Names (job : Job) (text : String) (id : NodeId) : Prop where
  reachable : job.graph.Reachable job.root id
  slot : job.graph.kind id ≠ job.options.constantKind
  resolved : job.resolved id = text

/-- A text stands for the slot of exactly one node or for a literal, and not for both. -/
def Unambiguous (job : Job) (text : String) : Prop :=
  (∃! id, job.Names text id) ∧ (∀ l : Literal, l.form ≠ text) ∨
    (∃ l : Literal, l.form = text) ∧ ∀ id, ¬ job.Names text id

/-- Operands can be told apart by their text. -/
structure TellsOperands (job : Job) : Prop where
  /-- Different slots have different names. -/
  slot_inj : ∀ {id id' text}, job.Names text id → job.Names text id' → id = id'
  /-- No literal is written like a slot. -/
  form_ne : ∀ {id text}, job.Names text id → ∀ l : Literal, l.form ≠ text
  /-- What stands for an input is clear. -/
  input : ∀ {id}, job.graph.Reachable job.root id → ∀ input ∈ job.graph.inputs id,
    job.Unambiguous (job.naming.write (job.layout.operand input))
  /-- What stands in the program is clear. -/
  command : ∀ c ∈ job.commands, ∀ text ∈ c.statement.operands, job.Unambiguous text

/-! ### Names of slots -/

theorem Names.eq_slotName {text : String} (h : job.Sound) (hid : job.Names text id) :
    text = job.slotName id := by
  have hi := h.getElem?_position (h.mem_order.mpr hid.reachable)
  have hslot : job.isConstant id = false := decide_eq_false hid.slot
  rw [← hid.resolved, Job.resolved, h.operand_node hi, hslot, if_neg Bool.false_ne_true,
    Naming.write, h.naming_slot hi]

section Marked

variable (h : job.Sound) (hmarked : job.options.addressing.Marked job.options.stem)

include h

theorem Names.unique {text : String} {id' : NodeId} (hid : job.Names text id)
    (hid' : job.Names text id') : id = id' := by
  have hindex := Addressing.slot_inj.mp ((hid.eq_slotName h).symm.trans (hid'.eq_slotName h))
  exact h.slotIndex_inj (h.mem_order.mpr hid.reachable) (h.mem_order.mpr hid'.reachable)
    (decide_eq_false hid.slot) (decide_eq_false hid'.slot) hindex

include hmarked

theorem Names.form_ne {text : String} (hid : job.Names text id) (l : Literal) : l.form ≠ text := by
  rintro rfl
  exact l.not_isSlot_of_marked hmarked (hid.eq_slotName h ▸ Addressing.isSlot_slot _ _ _)

theorem unambiguous_form (l : Literal) : job.Unambiguous l.form :=
  .inr ⟨⟨l, rfl⟩, fun _ hid => hid.form_ne h hmarked l rfl⟩

theorem unambiguous_of_names {text : String} (hid : job.Names text id) : job.Unambiguous text :=
  .inl ⟨⟨id, hid, fun _ hid' => hid'.unique h hid⟩, hid.form_ne h hmarked⟩

/-- An input is written as a literal or as a slot. -/
theorem unambiguous_input (hid : job.graph.Reachable job.root id) {input : Input}
    (hinput : input ∈ job.graph.inputs id) :
    job.Unambiguous (job.naming.write (job.layout.operand input)) := by
  cases input with
  | immediate value => exact unambiguous_form h hmarked value
  | node producer =>
    have hproducer := hid.feeds hinput
    by_cases hconst : job.graph.kind producer = job.options.constantKind
    · have hi := h.getElem?_position (h.mem_order.mpr hproducer)
      have hconst' : job.isConstant producer = true := decide_eq_true hconst
      rw [h.operand_node hi, if_pos hconst']
      exact unambiguous_form h hmarked _
    · exact unambiguous_of_names h hmarked ⟨hproducer, hconst, rfl⟩

end Marked

/-! ### Operands of commands -/

namespace Sound

/-- The nodes of the layout are nodes that the root depends on. -/
theorem exists_reachable (h : job.Sound) {i : Nat} {node : Node}
    (hnode : job.layout.nodes[i]? = some node) :
    ∃ id, job.graph.Reachable job.root id ∧ job.graph.inputs id = node.inputs := by
  have hlt : i < job.order.length := h.layout_nodes_size ▸ (Array.getElem?_eq_some_iff.mp hnode).1
  have hi : job.order[i]? = some job.order[i] := List.getElem?_eq_getElem hlt
  refine ⟨job.order[i], h.mem_order.mp (List.mem_of_getElem? hi), Graph.inputs_of_node? ?_⟩
  rw [← h.layout_nodes_getElem? hi, hnode]

/-- Where the operands of a command come from, whatever the generators are. -/
theorem exists_input_of_mem_operands (h : job.Sound) {c : Command} (hc : c ∈ job.commands)
    {text : String} (htext : text ∈ c.statement.operands) :
    ∃ id input, job.graph.Reachable job.root id ∧ input ∈ job.graph.inputs id ∧
      text = job.naming.write (job.layout.operand input) := by
  have hentry : ∃ e ∈ (job.layout.assemble job.registry job.options).entries,
      e.command? job.naming = some c := List.mem_filterMap.mp hc
  obtain ⟨e, he, hcommand⟩ := hentry
  obtain ⟨n, hentries, -⟩ := job.layout.assemble_entries job.registry job.options
  obtain ⟨i, -, hi⟩ := List.mem_filterMap.mp (hentries ▸ he)
  obtain ⟨node, schema, viaFallback, hnode, -, rfl⟩ := Assembler.exists_of_entryAt? hi
  obtain ⟨statement, hstatement, rfl⟩ := Option.map_eq_some_iff.mp hcommand
  obtain ⟨generator, -, hstatement⟩ := Option.bind_eq_some_iff.mp hstatement
  rw [Statement.operands_map] at htext
  obtain ⟨operand, hoperand, rfl⟩ := List.mem_map.mp htext
  -- an operand of the statement is an operand of a node at some position
  obtain ⟨j, node', hnode', hmem⟩ : ∃ (j : Nat) (node' : Node),
      job.layout.nodes[j]? = some node' ∧ operand ∈ node'.inputs.map job.layout.operand := by
    cases generator with
    | custom line? =>
      obtain ⟨line, -, rfl⟩ := Option.map_eq_some_iff.mp hstatement
      cases hoperand
    | builtin b =>
      rcases b.mem_operands hstatement hoperand with hmem | ⟨j, -, hmem⟩
      · exact ⟨i, node, hnode, hmem⟩
      · exact ⟨j, Assembler.exists_of_mem_operandsAt hmem⟩
  obtain ⟨input, hinput, rfl⟩ := List.mem_map.mp hmem
  obtain ⟨id, hid, hinputs⟩ := h.exists_reachable hnode'
  exact ⟨id, input, hid, hinputs ▸ hinput, rfl⟩

end Sound

/-- The operands of a program are unambiguous, under either convention and for any registry. Only
identifiers have to begin with something that numbers do not begin with, such as a letter or an
underscore. -/
theorem operands_unambiguous (h : job.Sound)
    (hmarked : job.options.addressing.Marked job.options.stem) : job.TellsOperands where
  slot_inj hid hid' := hid.unique h hid'
  form_ne hid := hid.form_ne h hmarked
  input hid _ hinput := unambiguous_input h hmarked hid hinput
  command c hc text htext := by
    obtain ⟨id, input, hid, hinput, rfl⟩ := h.exists_input_of_mem_operands hc htext
    exact unambiguous_input h hmarked hid hinput

theorem tapped_operands_unambiguous : (Script.tapped.job [4]).Sound ∧
    (Script.tapped.job [4]).options.addressing.Marked (Script.tapped.job [4]).options.stem ∧
      (Script.tapped.job [4]).TellsOperands := by
  have hmarked : (Script.tapped.job [4]).options.addressing.Marked
      (Script.tapped.job [4]).options.stem :=
    (Options.usual_default .identifiers false).lettered.marked
  exact ⟨Script.tapped.job_sound [4], hmarked,
    operands_unambiguous (Script.tapped.job_sound [4]) hmarked⟩

-- with nothing before their index, identifiers and whole numbers are written alike
example : Addressing.identifiers.slot "" 0 = (Literal.number ⟨false, 0⟩).form := by decide

end Job

end Patchbay
