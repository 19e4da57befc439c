import Patchbay.Proofs.Compile.Reads
import Patchbay.Proofs.Compile.Statements

/-!
# The units that statements refer to

A statement refers to a stateful unit by its place in the list of units. Those that advance a unit
refer to that of their own node. A feedback write refers to the unit of its second input, and if it
has no such partner, to the next free place at the time. That place may go to a later node, which
need not be a feedback cell, or stay free.

`Graph.compile_targetsUnits` says which unit each statement refers to, for every patch. Only a write
without a partner can refer to a place that is not in the list, and then it is the first one behind
it (`Graph.loneWrite_not_targetsListed`).
-/

namespace Patchbay

namespace Builtin

variable {α : Type} {b : Builtin} {c : Context α} {k : Nat}

/-- Which generator advances units, and which unit it advances. -/
theorem eq_unitUpdate {arguments : List α} (h : b.statement? c = some (.update k arguments)) :
    b = .unitUpdate ∧ k = c.unit := by
  cases b with
  | unitUpdate => simp_all [statement?]
  | feedbackWrite | arithmetic | thru => simp [statement?] at h
  | exit =>
    rw [statement?] at h
    split at h <;> simp at h

/-- Which generator stores in units, and which unit it stores in. -/
theorem eq_feedbackWrite {value : Option α} (h : b.statement? c = some (.write k value)) :
    b = .feedbackWrite ∧ k = (c.unitOfInput? 1).getD c.unit := by
  cases b with
  | feedbackWrite => simp_all [statement?]
  | unitUpdate | arithmetic | thru => simp [statement?] at h
  | exit =>
    rw [statement?] at h
    split at h <;> simp at h

end Builtin

namespace Job

variable {job : Job} {id : NodeId} {c : Command} {k : Nat} {compiled : Compiled}

/-! ### Places in the list of units -/

/-- The first node with a unit that is not computed before a node. -/
def nextOwner? (job : Job) (id : NodeId) : Option NodeId :=
  (job.order.drop (job.position id)).find? fun id => (job.tag? id).isSome

/-- The second input, if it is a node with a unit. -/
def partner? (job : Job) (id : NodeId) : Option NodeId :=
  ((job.graph.inputs id)[1]?.bind Input.node?).filter fun id => (job.tag? id).isSome

/-- The node whose unit a feedback write stores in: its partner, or else the next one that has a
unit. -/
def cellOwner? (job : Job) (id : NodeId) : Option NodeId :=
  (job.partner? id).or (job.nextOwner? id)

namespace Sound

/-- The units before a node are followed by that of the next owner. -/
theorem owners_getElem?_unitIndex (h : job.Sound) (hid : id ∈ job.order) :
    job.owners[job.unitIndex id]? = job.nextOwner? id ∧ job.unitIndex id ≤ job.owners.length := by
  obtain ⟨i, hi⟩ := List.mem_iff_getElem?.mp hid
  have howners : job.owners = (job.order.take i).filter (fun id => (job.tag? id).isSome) ++
      (job.order.drop i).filter fun id => (job.tag? id).isSome := by
    rw [owners, ← List.filter_append, List.take_append_drop]
  have hindex : job.unitIndex id =
      ((job.order.take i).filter fun id => (job.tag? id).isSome).length := by
    rw [unitIndex, h.before_eq_take hi, List.countP_eq_length_filter]
  constructor
  · rw [howners, hindex, List.getElem?_append_right (Nat.le_refl _), Nat.sub_self,
      ← List.head?_eq_getElem?, List.head?_filter, nextOwner?, h.position_eq hi]
  · rw [howners, hindex, List.length_append]
    omega

/-- A node with a unit is found at its own place. -/
theorem owners_getElem?_of_tag (h : job.Sound) (hid : id ∈ job.order)
    (htag : (job.tag? id).isSome) : job.owners[job.unitIndex id]? = some id := by
  obtain ⟨hlt, hget⟩ := List.getElem?_eq_some_iff.mp (h.getElem?_position hid)
  rw [(h.owners_getElem?_unitIndex hid).1, nextOwner?, List.drop_eq_getElem_cons hlt, hget]
  exact List.find?_cons_of_pos htag

theorem units_length (h : job.Sound) (hok : job.compile.outcome = .ok compiled) :
    compiled.units.length = job.owners.length :=
  (h.forall₂_units hok).length_eq.symm

/-- The unit at a place is that of the owner there. -/
theorem units_getElem? (h : job.Sound) (hok : job.compile.outcome = .ok compiled) {owner : NodeId}
    (hk : job.owners[k]? = some owner) :
    ∃ unit, compiled.units[k]? = some unit ∧ job.unit? owner = some unit := by
  have hlt : k < compiled.units.length := by
    rw [h.units_length hok]
    exact (List.getElem?_eq_some_iff.mp hk).1
  have hunit := List.getElem?_eq_getElem hlt
  exact ⟨_, hunit, h.unit?_of_getElem? hok hk hunit⟩

theorem partner?_mem_order (h : job.Sound) (hid : id ∈ job.order) {partner : NodeId}
    (hpartner : job.partner? id = some partner) :
    partner ∈ job.order ∧ (job.tag? partner).isSome := by
  obtain ⟨hsecond, htag⟩ := Option.filter_eq_some_iff.mp hpartner
  obtain ⟨input, hinput, hnode⟩ := Option.bind_eq_some_iff.mp hsecond
  refine ⟨?_, htag⟩
  cases input with
  | immediate value => cases hnode
  | node producer =>
    obtain rfl := Option.some.inj hnode
    have hfeeds : job.graph.Feeds producer id := List.mem_of_getElem? hinput
    exact h.mem_order.mpr (.feeds (h.mem_order.mp hid) hfeeds)

/-- The place that a write refers to is that of the owner of its cell, or the first one behind the
list. -/
theorem owners_getElem?_of_write (h : job.Sound) (hid : id ∈ job.order)
    (hk : k = ((job.partner? id).map job.unitIndex).getD (job.unitIndex id)) :
    job.owners[k]? = job.cellOwner? id ∧ k ≤ job.owners.length := by
  rw [cellOwner?]
  cases hpartner : job.partner? id with
  | none =>
    rw [hpartner] at hk
    exact hk ▸ h.owners_getElem?_unitIndex hid
  | some partner =>
    obtain ⟨hmem, htag⟩ := h.partner?_mem_order hid hpartner
    rw [hpartner] at hk
    exact hk ▸ ⟨h.owners_getElem?_of_tag hmem htag, (h.owners_getElem?_unitIndex hmem).2⟩

end Sound

/-! ### Targets by node -/

/-- What a generator is told of the second input. -/
theorem unitOfInput?_context (job : Job) (id : NodeId) :
    (job.context id).unitOfInput? 1 = (job.partner? id).map job.unitIndex := by
  rw [Context.unitOfInput?, Context.producer?, partner?]
  simp only [context, List.getElem?_map]
  cases (job.graph.inputs id)[1]? with
  | none => rfl
  | some input =>
    cases input with
    | immediate value => rfl
    | node producer =>
      change ((job.tag? producer).map fun _ => job.unitIndex producer) =
        ((some producer).filter fun id => (job.tag? id).isSome).map job.unitIndex
      rw [Option.filter_some]
      cases job.tag? producer <;> rfl

theorem command?_update (hregistry : job.registry.IsBuiltin) (hc : job.command? id = some c)
    {arguments : List String} (hstatement : c.statement = .update k arguments) :
    job.generator? id = some (.builtin .unitUpdate) ∧ k = job.unitIndex id := by
  obtain ⟨b, hgenerator, hb⟩ := exists_builtin_of_command? hregistry hc
  rw [hstatement] at hb
  obtain ⟨rfl, rfl⟩ := Builtin.eq_unitUpdate hb
  exact ⟨hgenerator, rfl⟩

theorem command?_write (hregistry : job.registry.IsBuiltin) (hc : job.command? id = some c)
    {value : Option String} (hstatement : c.statement = .write k value) :
    k = ((job.partner? id).map job.unitIndex).getD (job.unitIndex id) := by
  obtain ⟨b, -, hb⟩ := exists_builtin_of_command? hregistry hc
  rw [hstatement] at hb
  rw [(Builtin.eq_feedbackWrite hb).2, unitOfInput?_context]
  rfl

/-- A node that advances a unit has one, if the standard operations are used. -/
theorem tag?_isSome_of_unitUpdate (hregistry : job.registry = .standard)
    (hoptions : job.options.Usual) (hgenerator : job.generator? id = some (.builtin .unitUpdate)) :
    (job.tag? id).isSome := by
  have hslot : job.isConstant id = false := by
    rw [Bool.eq_false_iff]
    intro hconst
    rw [generator?, schema?_of_isConstant hconst] at hgenerator
    cases hgenerator
  rw [generator?_of_standard hregistry hoptions hslot] at hgenerator
  rw [tag?_of_standard hregistry hoptions]
  cases hrole : job.graph.role id with
  | unit tag => rfl
  | _ => rw [hrole] at hgenerator; simp [Role.schema, Schema.stateless, Schema.silent] at hgenerator

/-- Which units the statements of a compiled patch refer to. -/
structure TargetsUnits (job : Job) (compiled : Compiled) : Prop where
  /-- The program consists of the commands. -/
  program : compiled.program = String.intercalate "\n" (job.commands.map Command.text)
  /-- The commands are read off their lines. -/
  readsBack : job.ReadsBack
  /-- These are the commands of the nodes, in order. -/
  commands : job.commands = job.order.filterMap job.command?
  /-- An update refers to the unit of its own node. -/
  update : ∀ id ∈ job.order, ∀ c k arguments, job.command? id = some c →
    c.statement = .update k arguments →
      ∃ unit, compiled.units[k]? = some unit ∧ job.unit? id = some unit
  /-- A write refers to the unit of the owner of its cell. This is a feedback cell if the owner is a
  feedback read. -/
  write : ∀ id ∈ job.order, ∀ c k value, job.command? id = some c →
    c.statement = .write k value → ∀ owner, job.cellOwner? id = some owner →
      ∃ unit, compiled.units[k]? = some unit ∧ job.unit? owner = some unit ∧
        (unit.tag = "Feedback" ↔ job.graph.kind owner = Kind.feedbackRead)
  /-- A write without an owner refers to the first place behind the list. -/
  write_none : ∀ id ∈ job.order, ∀ c k value, job.command? id = some c →
    c.statement = .write k value → job.cellOwner? id = none → k = compiled.units.length

theorem Sound.targetsUnits (h : job.Sound) (hregistry : job.registry = .standard)
    (hoptions : job.options.Usual) (hok : job.compile.outcome = .ok compiled) :
    job.TargetsUnits compiled := by
  have hbuiltin : job.registry.IsBuiltin := hregistry ▸ Registry.standard_isBuiltin
  have hstuck := h.find?_isStuck_of_ok hok
  refine ⟨program_eq_commands hok, fun hstem c => read?_of_mem_commands hbuiltin hstem,
    h.commands_eq hbuiltin hstuck, ?_, ?_, ?_⟩
  · intro id hid c k arguments hc hstatement
    obtain ⟨hgenerator, rfl⟩ := command?_update hbuiltin hc hstatement
    have htag := tag?_isSome_of_unitUpdate hregistry hoptions hgenerator
    exact h.units_getElem? hok (h.owners_getElem?_of_tag hid htag)
  · intro id hid c k value hc hstatement owner howner
    have hk := (h.owners_getElem?_of_write hid (command?_write hbuiltin hc hstatement)).1
    obtain ⟨unit, hunit, hown⟩ := h.units_getElem? hok (hk.trans howner)
    refine ⟨unit, hunit, hown, ?_⟩
    obtain ⟨tag, htag, rfl⟩ := Option.map_eq_some_iff.mp hown
    rw [tag?_of_standard hregistry hoptions, Role.tag?_eq_some_iff] at htag
    rw [← Role.ofKind_eq_feedback, ← Graph.role, htag, Role.unit.injEq]
  · intro id hid c k value hc hstatement howner
    obtain ⟨hk, hle⟩ := h.owners_getElem?_of_write hid (command?_write hbuiltin hc hstatement)
    rw [howner, List.getElem?_eq_none_iff] at hk
    rw [h.units_length hok]
    omega

theorem TargetsUnits.mem_commands (h : job.TargetsUnits compiled) (hid : id ∈ job.order)
    (hc : job.command? id = some c) : c ∈ job.commands := by
  rw [h.commands]
  exact List.mem_filterMap.mpr ⟨id, hid, hc⟩

/-- A feedback write has a statement that writes. -/
theorem exists_write (hregistry : job.registry = .standard) (hoptions : job.options.Usual)
    (hkind : job.graph.kind id = Kind.feedbackWrite) :
    ∃ c k value, job.command? id = some c ∧ c.statement = .write k value := by
  have hslot : job.isConstant id = false := by
    rw [isConstant, hkind, hoptions.constantKind]
    rfl
  rw [command?, generator?_of_standard hregistry hoptions hslot, Graph.role,
    Role.ofKind_eq_write.mpr hkind]
  exact ⟨_, _, _, rfl, rfl⟩

/-- Every unit that a statement refers to is in the list. -/
def TargetsListed (job : Job) (compiled : Compiled) : Prop :=
  ∀ c ∈ job.commands, ∀ k, c.statement.target? = some k → k < compiled.units.length

/-- Every unit that a write refers to is a feedback cell. -/
def WritesCells (job : Job) (compiled : Compiled) : Prop :=
  ∀ c ∈ job.commands, ∀ k value, c.statement = .write k value →
    ∀ unit, compiled.units[k]? = some unit → unit.tag = "Feedback"

end Job

/-! ### Patches -/

namespace Graph

/-- A patch, to be compiled with the standard operations and the default options. -/
def job (g : Graph) (root : NodeId) : Job where
  graph := g
  root := root

/-- Every patch compiles, and its statements refer to units of the list, except for a feedback write
that has no partner and that no node with a unit follows. -/
theorem compile_targetsUnits {g : Graph} {root : NodeId} (hg : g.Acyclic) (hroot : root < g.size) :
    ∃ compiled, (g.job root).compile.outcome = .ok compiled ∧
      (g.job root).TargetsUnits compiled := by
  have hsound : (g.job root).Sound := ⟨hg, hroot⟩
  obtain ⟨compiled, hok⟩ : ∃ compiled, (g.job root).compile.outcome = .ok compiled :=
    Job.exists_compiled rfl rfl
  exact ⟨compiled, hok, hsound.targetsUnits rfl (Options.usual_default .identifiers false) hok⟩

/-- Writes of all sorts: to a feedback read, to a unit that comes later, to an oscillator, and to
nothing. -/
def strayWrites : Graph where
  nodes := #[
    { kind := Kind.feedbackRead },
    { kind := Kind.feedbackWrite, inputs := [.immediate 1, .node 0] },
    { kind := Kind.feedbackWrite, inputs := [.node 1, .immediate 2] },
    { kind := Kind.sine, inputs := [.node 2] },
    { kind := Kind.feedbackWrite, inputs := [.node 3, .node 3] },
    { kind := Kind.feedbackWrite, inputs := [.node 4] },
    { kind := Kind.out, inputs := [.node 5] },
    { kind := Kind.exit, inputs := [.node 6] }]

theorem strayWrites_targetsUnits : strayWrites.Acyclic ∧ 7 < strayWrites.size ∧
    ∃ compiled, (strayWrites.job 7).compile.outcome = .ok compiled ∧
      (strayWrites.job 7).TargetsUnits compiled := by
  have hwellFormed : strayWrites.WellFormed := by decide
  exact ⟨hwellFormed.acyclic, by decide, compile_targetsUnits hwellFormed.acyclic (by decide)⟩

/-- A feedback write and nothing else. -/
def loneWrite : Graph where
  nodes := #[{ kind := Kind.feedbackWrite }]

/-- A feedback write whose partner is an oscillator. -/
def sineWrite : Graph where
  nodes := #[{ kind := Kind.sine }, { kind := Kind.feedbackWrite, inputs := [.node 0, .node 0] }]

/-- Not every unit that a statement refers to is in the list, and of those that are, not every one
that is written to is a feedback cell. -/
theorem loneWrite_not_targetsListed :
    (∃ compiled, (loneWrite.job 0).compile.outcome = .ok compiled ∧
      ¬ (loneWrite.job 0).TargetsListed compiled) ∧
    ∃ compiled, (sineWrite.job 1).compile.outcome = .ok compiled ∧
      ¬ (sineWrite.job 1).WritesCells compiled := by
  have hoptions : ({} : Options).Usual := Options.usual_default .identifiers false
  have hlone : loneWrite.WellFormed := by decide
  have hsine : sineWrite.WellFormed := by decide
  constructor
  · have hsound : (loneWrite.job 0).Sound := ⟨hlone.acyclic, by decide⟩
    obtain ⟨compiled, hok⟩ : ∃ compiled, (loneWrite.job 0).compile.outcome = .ok compiled :=
      Job.exists_compiled rfl rfl
    have htargets := hsound.targetsUnits rfl hoptions hok
    -- there is no unit at all
    have howner : (loneWrite.job 0).cellOwner? 0 = none := by
      have hnext : (loneWrite.job 0).nextOwner? 0 = none := by
        refine List.find?_eq_none.mpr fun id hid => ?_
        have hreachable := hsound.mem_order.mp (List.mem_of_mem_drop hid)
        have hlt : id < 1 := hlone.acyclic.reachable_lt_size (by decide) hreachable
        obtain rfl : id = 0 := Nat.lt_one_iff.mp hlt
        rw [Job.tag?_of_standard rfl hoptions]
        decide
      rw [Job.cellOwner?, hnext]
      rfl
    obtain ⟨c, k, value, hc, hstatement⟩ : ∃ c k value,
        (loneWrite.job 0).command? 0 = some c ∧ c.statement = .write k value :=
      Job.exists_write rfl hoptions rfl
    have hmem : 0 ∈ (loneWrite.job 0).order := hsound.mem_order.mpr .root
    have hk := htargets.write_none 0 hmem c k value hc hstatement howner
    refine ⟨compiled, hok, fun hlisted => ?_⟩
    have hlt := hlisted c (htargets.mem_commands hmem hc) k (by rw [hstatement]; rfl)
    omega
  · have hsound : (sineWrite.job 1).Sound := ⟨hsine.acyclic, by decide⟩
    obtain ⟨compiled, hok⟩ : ∃ compiled, (sineWrite.job 1).compile.outcome = .ok compiled :=
      Job.exists_compiled rfl rfl
    have htargets := hsound.targetsUnits rfl hoptions hok
    have howner : (sineWrite.job 1).cellOwner? 1 = some 0 := by
      have hpartner : (sineWrite.job 1).partner? 1 = some 0 := by
        refine Option.filter_eq_some_iff.mpr ⟨rfl, ?_⟩
        rw [Job.tag?_of_standard rfl hoptions]
        decide
      rw [Job.cellOwner?, hpartner]
      rfl
    obtain ⟨c, k, value, hc, hstatement⟩ : ∃ c k value,
        (sineWrite.job 1).command? 1 = some c ∧ c.statement = .write k value :=
      Job.exists_write rfl hoptions rfl
    have hmem : 1 ∈ (sineWrite.job 1).order := hsound.mem_order.mpr .root
    obtain ⟨unit, hunit, -, htag⟩ := htargets.write 1 hmem c k value hc hstatement 0 howner
    refine ⟨compiled, hok, fun hcells => ?_⟩
    have hkind := htag.mp (hcells c (htargets.mem_commands hmem hc) k value hstatement unit hunit)
    revert hkind
    decide

end Graph

end Patchbay
