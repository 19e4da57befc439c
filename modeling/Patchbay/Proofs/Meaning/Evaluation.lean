import Patchbay.Proofs.Meaning.Host
import Patchbay.Proofs.Meaning.Role

/-!
# What a patch means

A patch is given its meaning without a program: `Graph.evaluate` computes what a node comes to in a
block from what its inputs come to, by recursion on the graph. It knows nothing of positions, slots
or statements. `Graph.mixture` is what a block returns.

Sharing is not an issue here. A stateful unit is advanced from the state that it has at the
beginning of the block, so the node comes to the same however many others use it. A feedback write
takes its cell from the read, as the read leaves it.

`Graph.Playable` says which patches have this meaning: exits and outputs stay at the root, and each
feedback write has a read of its own.
-/

namespace Patchbay

/-- What a node comes to in a block: its value, and the unit that it leaves behind, with the index
of that unit. -/
structure Outcome (V S : Type) where
  value : V
  unit : Option (Nat × HostUnit S) := none

namespace Host

variable {V S : Type} (host : Host V S)

/-- The value of an input, or of what stands in for it. -/
def operandValue (missing : String) (operands : List (Outcome V S)) (i : Nat) : V :=
  (operands[i]?.map (·.value)).getD (host.literal missing)

/-- What a node comes to, given what its inputs come to. The literal is for a constant; the index
and the state are for a node with a unit. -/
def outcome (role : Role) (literal : Literal) (index : Nat) (state : S)
    (operands : List (Outcome V S)) : Outcome V S :=
  match role with
  | .constant => { value := host.literal literal.form }
  | .unit tag =>
    let (value, state) := host.update index tag state (operands.map (·.value))
    { value, unit := some (index, ⟨tag, state⟩) }
  | .write =>
    let value := host.operandValue "0" operands 0
    match operands[1]?.bind (·.unit) with
    | some (cell, unit) =>
      let (value, state) := host.write cell unit.state value
      { value, unit := some (cell, ⟨unit.tag, state⟩) }
    | none => { value }
  | .arithmetic operator missing =>
    { value := host.operate operator.sign (host.operandValue missing operands 0)
        (host.operandValue missing operands 1) }
  | .copy => { value := host.operandValue "0" operands 0 }
  -- these have no value of their own; see `Graph.mixture`
  | .out | .exit => { value := host.literal "0" }

end Host

namespace Graph

variable {V S : Type} {g : Graph} {root id : NodeId}

/-! ### Evaluation -/

/-- The role of a node. -/
def role (g : Graph) (id : NodeId) : Role :=
  Role.ofKind (g.kind id)

/-- The literal of a node. -/
def literal (g : Graph) (id : NodeId) : Literal :=
  match g.node? id with
  | some node => node.literal
  | none => 0

/-- The nodes with a unit that a root depends on, in the order in which the units are listed. -/
def unitNodes (g : Graph) (root : NodeId) : List NodeId :=
  (g.postorder root).toList.filter fun id => (g.role id).tag?.isSome

/-- The index of the unit of a node. -/
def unitIndex (g : Graph) (root id : NodeId) : Nat :=
  (g.unitNodes root).idxOf id

/-- The tags of the units that a root depends on. -/
def unitTags (g : Graph) (root : NodeId) : List String :=
  (g.postorder root).toList.filterMap fun id => (g.role id).tag?

/-- What a node comes to in a block that begins with the units in the given states. -/
def evaluate (hg : g.Acyclic) (root : NodeId) (host : Host V S) (states : Nat → S) (id : NodeId) :
    Outcome V S :=
  host.outcome (g.role id) (g.literal id) (g.unitIndex root id) (states (g.unitIndex root id))
    ((g.inputs id).attach.map fun input => match input with
      | ⟨.immediate value, _⟩ => { value := host.literal value.form }
      | ⟨.node producer, _⟩ => evaluate hg root host states producer)
termination_by hg.wellFounded.wrap id
decreasing_by assumption

section Evaluate

variable (hg : g.Acyclic) (root : NodeId) (host : Host V S) (states : Nat → S)

/-- What an input comes to. -/
def evaluateInput : Input → Outcome V S
  | .immediate value => { value := host.literal value.form }
  | .node producer => evaluate hg root host states producer

/-- What the inputs of a node come to. -/
def evaluateInputs (id : NodeId) : List (Outcome V S) :=
  (g.inputs id).map (evaluateInput hg root host states)

/-- A node comes to what its role makes of its inputs. -/
theorem evaluate_eq (id : NodeId) : evaluate hg root host states id =
    host.outcome (g.role id) (g.literal id) (g.unitIndex root id) (states (g.unitIndex root id))
      (evaluateInputs hg root host states id) := by
  rw [evaluate, evaluateInputs, ← List.attach_map_val (l := g.inputs id)]
  refine congrArg _ (List.map_congr_left fun input _ => ?_)
  obtain ⟨input, hinput⟩ := input
  cases input <;> rfl

/-- The outputs that a root mixes, in order and with repeats. -/
def outs (g : Graph) (root : NodeId) : List NodeId :=
  (g.producers root).filter fun id => g.kind id = Kind.out

/-- The left channel of an output: its first input. -/
def leftChannel (id : NodeId) : V :=
  host.operandValue "0" (evaluateInputs hg root host states id) 0

/-- The right channel of an output: its second input, or the left channel if there is none. -/
def rightChannel (id : NodeId) : V :=
  ((evaluateInputs hg root host states id)[1]?.map (·.value)).getD
    (leftChannel hg root host states id)

/-- What a block returns: the sums of the two channels over the outputs, at the output level. Only
an exit with an output returns anything. -/
def mixture : Option (V × V) :=
  if g.kind root = Kind.exit then do
    let left ← host.channel ((g.outs root).map (leftChannel hg root host states))
    let right ← host.channel ((g.outs root).map (rightChannel hg root host states))
    return (left, right)
  else none

end Evaluate

/-! ### Playable patches -/

/-- Exits and outputs stay at the root, and each feedback write has a read of its own. Kinds that
are mentioned nowhere may stand anywhere. -/
structure Playable (g : Graph) (root : NodeId) : Prop where
  /-- Only the root can be an exit. -/
  exit_root : ∀ {id}, g.Reachable root id → g.kind id = Kind.exit → id = root
  /-- Only an exit at the root takes an output as input. -/
  out_consumer : ∀ {id consumer}, g.Reachable root consumer → g.Feeds id consumer →
    g.kind id = Kind.out → consumer = root ∧ g.kind root = Kind.exit
  /-- The second input of a feedback write is a feedback read. -/
  write_read : ∀ {id}, g.Reachable root id → g.kind id = Kind.feedbackWrite →
    ∃ read, (g.inputs id)[1]? = some (.node read) ∧ g.kind read = Kind.feedbackRead
  /-- No two writes share a read. -/
  write_inj : ∀ {id id' read}, g.Reachable root id → g.Reachable root id' →
    g.kind id = Kind.feedbackWrite → g.kind id' = Kind.feedbackWrite →
    (g.inputs id)[1]? = some (.node read) → (g.inputs id')[1]? = some (.node read) → id = id'

/-- A node that feeds anything but an exit has a value: it is neither an output nor an exit. -/
theorem Playable.hasSlot_of_feeds (hplay : g.Playable root) (hg : g.Acyclic)
    {producer : NodeId} (hreach : g.Reachable root id) (hfeeds : g.Feeds producer id)
    (hexit : g.kind id ≠ Kind.exit) (hconst : g.kind producer ≠ Kind.constant) :
    (g.role producer).hasSlot = true := by
  refine Role.hasSlot_ofKind.mpr ⟨hconst, fun hout => ?_, fun hexit' => ?_⟩
  · obtain ⟨rfl, hroot⟩ := hplay.out_consumer hreach hfeeds hout
    exact hexit hroot
  · -- an exit is the root, and the root feeds nothing that it depends on
    obtain rfl := hplay.exit_root (hreach.feeds hfeeds) hexit'
    exact hg.not_reachable_of_feeds hfeeds hreach

/-! ### Units -/

theorem mem_unitNodes (hg : g.Acyclic) (hroot : root < g.size) :
    id ∈ g.unitNodes root ↔ g.Reachable root id ∧ (g.role id).tag?.isSome := by
  rw [unitNodes, List.mem_filter, mem_postorder hg hroot]

/-- Nodes with a unit have different units. -/
theorem unitIndex_inj (hg : g.Acyclic) (hroot : root < g.size) {id' : NodeId}
    (h : g.Reachable root id) (hunit : (g.role id).tag?.isSome) :
    g.unitIndex root id = g.unitIndex root id' ↔ id = id' :=
  List.idxOf_inj ((mem_unitNodes hg hroot).mpr ⟨h, hunit⟩)

private theorem idxOf_filter {l : List NodeId} {p : NodeId → Bool} {i : Nat} (hnodup : l.Nodup)
    (hi : l[i]? = some id) (hid : p id) : (l.filter p).idxOf id = (l.take i).countP p := by
  induction l generalizing i with
  | nil => simp at hi
  | cons first l ih =>
    rw [List.nodup_cons] at hnodup
    cases i with
    | zero =>
      obtain rfl : first = id := by simpa using hi
      rw [List.filter_cons_of_pos hid, List.idxOf_cons_self, List.take_zero, List.countP_nil]
    | succ i =>
      have hi' : l[i]? = some id := by simpa using hi
      have hne : first ≠ id := fun h => hnodup.1 (h ▸ List.mem_of_getElem? hi')
      rw [List.take_succ_cons]
      by_cases hfirst : p first
      · rw [List.filter_cons_of_pos hfirst, List.idxOf_cons_ne _ hne, ih hnodup.2 hi',
          List.countP_cons_of_pos hfirst]
      · rw [List.filter_cons_of_neg hfirst, ih hnodup.2 hi', List.countP_cons_of_neg hfirst]

/-- The units of the nodes before a position come before the unit of the node there. -/
theorem unitIndex_of_getElem? (hg : g.Acyclic) (hroot : root < g.size) {i : Nat}
    (hi : (g.postorder root)[i]? = some id) (hunit : (g.role id).tag?.isSome) :
    g.unitIndex root id =
      ((g.postorder root).toList.take i).countP fun id => (g.role id).tag?.isSome := by
  rw [← Array.getElem?_toList] at hi
  exact idxOf_filter (postorder_nodup hg hroot) hi hunit

/-- The tag listed for the unit of a node is that of its role. -/
theorem unitTags_getElem?_unitIndex (hg : g.Acyclic) (hroot : root < g.size) {tag : String}
    (h : g.Reachable root id) (hunit : g.role id = .unit tag) :
    (g.unitTags root)[g.unitIndex root id]? = some tag := by
  have hmem : id ∈ g.unitNodes root := (mem_unitNodes hg hroot).mpr ⟨h, by rw [hunit]; rfl⟩
  have htags : g.unitTags root = (g.unitNodes root).filterMap fun id => (g.role id).tag? := by
    rw [unitTags, unitNodes, List.filterMap_filter]
    refine List.filterMap_congr fun id _ => ?_
    cases (g.role id).tag? <;> rfl
  have hsome : ∀ id ∈ g.unitNodes root, (g.role id).tag?.isSome := fun id hid =>
    ((mem_unitNodes hg hroot).mp hid).2
  rw [htags, getElem?_filterMap_of_isSome hsome, unitIndex, List.getElem?_idxOf hmem,
    Option.bind_some, hunit]
  rfl

/-- The node whose unit a node changes: a node with a unit its own, and a feedback write that of
its second input. -/
def target? (g : Graph) (id : NodeId) : Option NodeId :=
  match g.role id with
  | .unit _ => some id
  | .write => (g.inputs id)[1]?.bind Input.node?
  | _ => none

end Graph

end Patchbay
