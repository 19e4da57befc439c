import Mathlib.Data.List.TakeWhile
import Patchbay.Proofs.Compile.Lookup

/-!
# An assembly, stage by stage

An assembly passes the positions of a layout one after the other. `Assembler.Reaches` says that it
has passed the first few and how it stands then, and `Job.passed` lists the nodes that a compile
gets past: those before the first one that is stuck, or all of them (`Job.Sound.entries_eq_passed`).

On the way it looks things up: the position of an input, the name of a position, the place of a kind
in the registry, the operands of an earlier node. A look-up that misses is answered with a default,
and nobody would notice. `Job.Sound.findsAll` says that none ever misses. Whenever an assembly comes
to a node, the inputs stand at earlier positions, and the tables have exactly one entry for each of
these, which is that of the node there.
-/

namespace Patchbay

/-! ### Stages of an assembly -/

namespace Assembler

variable {a : Assembler} {nodes : List Node} {i : Nat} {p p' : Progress}

/-- What a pass over some nodes keeps, a pass over the first of them keeps. -/
theorem Keeps.take {P : Nat → Progress → Prop} (h : a.Keeps nodes P) (n : Nat) :
    a.Keeps (nodes.take n) P := by
  have hnodes : ∀ {i : Nat} {node : Node}, (nodes.take n)[i]? = some node →
      nodes[i]? = some node := by
    intro i node hnode
    rw [List.getElem?_take] at hnode
    split at hnode
    · exact hnode
    · cases hnode
  exact ⟨fun hnode => h.skip (hnodes hnode), fun hnode => h.extend (hnodes hnode)⟩

/-- A pass that gets through some nodes goes on with those behind them. -/
theorem run_append (h : a.run nodes i p = (p', none)) (rest : List Node) :
    a.run (nodes ++ rest) i p = a.run rest (i + nodes.length) p' := by
  induction nodes generalizing i p with
  | nil =>
    obtain rfl : p = p' := congrArg Prod.fst h
    rfl
  | cons node nodes ih =>
    rw [run] at h
    rw [List.cons_append, run, List.length_cons, Nat.add_comm nodes.length, ← Nat.add_assoc]
    cases hconst : a.layout.isConstant node with
    | true =>
      rw [hconst, if_pos rfl] at h
      rw [if_pos rfl, ih h]
    | false =>
      rw [hconst, if_neg Bool.false_ne_true] at h
      rw [if_neg Bool.false_ne_true]
      cases hresolve : a.registry.resolve? a.fallbackKind node.kind with
      | none =>
        rw [hresolve] at h
        cases h
      | some resolved =>
        rw [hresolve] at h
        exact ih h

/-- An assembly has passed the first `i` positions, and how it stands then. -/
structure Reaches (a : Assembler) (i : Nat) (p : Progress) : Prop where
  le_size : i ≤ a.layout.nodes.size
  run_take : a.run (a.layout.nodes.toList.take i) 0 {} = (p, none)

namespace Reaches

theorem length_take (h : a.Reaches i p) : (a.layout.nodes.toList.take i).length = i := by
  rw [List.length_take, Array.length_toList, Nat.min_eq_left h.le_size]

/-- What is left of a pass, once it has come so far. -/
theorem run_eq (h : a.Reaches i p) :
    a.run a.layout.nodes.toList 0 {} = a.run (a.layout.nodes.toList.drop i) i p := by
  have hrest := run_append h.run_take (a.layout.nodes.toList.drop i)
  rwa [List.take_append_drop, h.length_take, Nat.zero_add] at hrest

theorem listed (h : a.Reaches i p) : a.Listed i p := by
  have hends := run_invariant (a.listed_keeps.take i) ⟨Aligned.zero a, rfl⟩
  rw [h.run_take, Ends, h.length_take] at hends
  exact hends

end Reaches

/-- An assembly gets past nodes that are not stuck. -/
theorem exists_reaches (hi : i ≤ a.layout.nodes.size)
    (h : ∀ node ∈ a.layout.nodes.toList.take i, a.isStuck node = false) : ∃ p, a.Reaches i p := by
  have hfailure : (a.run (a.layout.nodes.toList.take i) 0 {}).2 = none := by
    rw [run_failure, Option.map_eq_none_iff, List.find?_eq_none]
    intro node hnode
    rw [h node hnode]
    exact Bool.false_ne_true
  exact ⟨_, hi, Prod.ext rfl hfailure⟩

/-- A pass ends where it is stuck. -/
theorem Reaches.run_of_isStuck {node : Node} (h : a.Reaches i p)
    (hnode : a.layout.nodes[i]? = some node) (hstuck : a.isStuck node) :
    a.run a.layout.nodes.toList 0 {} = (p, some node.kind) := by
  obtain ⟨hlt, rfl⟩ := List.getElem?_eq_some_iff.mp (Array.getElem?_toList ▸ hnode)
  rw [isStuck, Bool.and_eq_true, Bool.not_eq_true', Option.isNone_iff_eq_none] at hstuck
  rw [h.run_eq, List.drop_eq_getElem_cons hlt, run, hstuck.1, if_neg Bool.false_ne_true, hstuck.2]

end Assembler

/-! ### How far a compile gets -/

namespace Job

variable {job : Job} {id : NodeId} {i : Nat} {p : Progress} {compiled : Compiled}

/-- The nodes that a compile gets past: those before the first one that is stuck. -/
def passed (job : Job) : List NodeId :=
  job.order.takeWhile (!job.isStuck ·)

theorem passed_isPrefix (job : Job) : job.passed <+: job.order :=
  List.takeWhile_prefix _

theorem isStuck_of_mem_passed (h : id ∈ job.passed) : job.isStuck id = false := by
  simpa using List.mem_takeWhile_imp h

theorem passed_of_find?_eq_none (h : job.order.find? job.isStuck = none) :
    job.passed = job.order :=
  List.takeWhile_eq_self_iff.mpr fun id hid => by simpa using List.find?_eq_none.mp h id hid

theorem passed_of_find?_eq_some (h : job.order.find? job.isStuck = some id) :
    job.passed = job.before id := by
  obtain ⟨hid, front, back, horder, hfront⟩ := List.find?_eq_some_iff_append.mp h
  have hne : ∀ other ∈ front, other ≠ id := by
    rintro other hother rfl
    simpa [hid] using hfront other hother
  rw [passed, before, horder, List.takeWhile_append_of_pos hfront,
    List.takeWhile_append_of_pos (by simpa using hne), List.takeWhile_cons_of_neg (by simp [hid]),
    List.takeWhile_cons_of_neg (by simp)]

theorem getElem?_order_of_passed (h : job.passed[i]? = some id) : job.order[i]? = some id := by
  obtain ⟨rest, hrest⟩ := job.passed_isPrefix
  rw [← hrest, List.getElem?_append_left (List.getElem?_eq_some_iff.mp h).1, h]

namespace Sound

theorem passed_of_ok (h : job.Sound) (hok : job.compile.outcome = .ok compiled) :
    job.passed = job.order :=
  passed_of_find?_eq_none (h.find?_isStuck_of_ok hok)

/-- An assembly reaches every position up to the first one where it is stuck. -/
theorem exists_reaches (h : job.Sound) (hi : i ≤ job.passed.length) :
    ∃ p, job.assembler.Reaches i p := by
  have hsize : job.assembler.layout.nodes.size = job.order.length := h.layout_nodes_size
  have hsome : ∀ id ∈ job.order, (job.graph.node? id).isSome := fun id hid =>
    Option.isSome_iff_exists.mpr (h.exists_node? hid)
  refine Assembler.exists_reaches ?_ fun node hnode => ?_
  · rw [hsize]
    exact hi.trans job.passed_isPrefix.length_le
  · have hnode' : node ∈ job.layout.nodes.toList.take i := hnode
    rw [layout_nodes_toList, take_filterMap_of_isSome hsome] at hnode'
    obtain ⟨id, hid, hnode'⟩ := List.mem_filterMap.mp hnode'
    have hpassed : id ∈ job.passed := by
      rw [List.prefix_iff_eq_take.mp job.passed_isPrefix]
      exact (List.take_sublist_take_left hi).subset hid
    rw [isStuck_of_node? hnode', isStuck_of_mem_passed hpassed]

/-- A compile ends where it has passed what it gets past. -/
theorem run_fst (h : job.Sound) (hp : job.assembler.Reaches job.passed.length p) :
    (job.assembler.run job.layout.nodes.toList 0 {}).1 = p := by
  have hsize : job.assembler.layout.nodes.size = job.order.length := h.layout_nodes_size
  cases hfind : job.order.find? job.isStuck with
  | none =>
    have hrun := hp.run_take
    rw [passed_of_find?_eq_none hfind, ← hsize, ← Array.length_toList, List.take_length] at hrun
    exact congrArg Prod.fst hrun
  | some id =>
    have hid := List.mem_of_find?_eq_some hfind
    have hstuck : job.isStuck id := List.find?_some hfind
    obtain ⟨node, hnode⟩ := h.exists_node? hid
    have hat : job.assembler.layout.nodes[job.passed.length]? = some node := by
      rw [passed_of_find?_eq_some hfind]
      exact (h.layout_nodes_getElem? (h.getElem?_position hid)).trans hnode
    exact congrArg Prod.fst (hp.run_of_isStuck hat ((isStuck_of_node? hnode).trans hstuck))

/-- Whether a compile succeeds or not, it lists the entries of what it gets past. -/
theorem entries_eq_passed (h : job.Sound) :
    (job.layout.assemble job.registry job.options).entries =
      (List.range job.passed.length).filterMap job.assembler.entryAt? := by
  obtain ⟨p, hp⟩ := h.exists_reaches le_rfl
  rw [← hp.listed.entries, ← h.run_fst hp]
  rfl

end Sound

/-! ### Look-ups -/

/-- What an assembly finds in its tables when it comes to the node at a position. -/
structure Finds (job : Job) (i : Nat) (id : NodeId) (p : Progress) : Prop where
  /-- There is a name for the node, and one for each node before it. -/
  named : ∀ j ≤ i, j < job.layout.nodes.size ∧ j < job.naming.ranks.size
  /-- Every node among the inputs has a position, and an earlier one. -/
  positioned : ∀ producer, job.graph.Feeds producer id →
    ∃ j < i, job.layout.position? producer = some j ∧ job.order[j]? = some producer
  /-- The tables have an entry for each earlier position, and no more. -/
  unitAt_size : p.unitAt.size = i
  operandsAt_size : p.operandsAt.size = i
  /-- The entry for a position is that of the node there. A constant has neither a unit nor
  operands. -/
  unitAt : ∀ {j : Nat} {other : NodeId}, j < i → job.order[j]? = some other →
    p.unitAt[j]? = some ((job.tag? other).map fun _ => job.unitIndex other)
  operandsAt : ∀ {j : Nat} {other : NodeId}, j < i → job.order[j]? = some other →
    p.operandsAt[j]?.map (·.map job.naming.write) =
      some (if job.isConstant other then [] else job.operands other)
  /-- So what a generator is told of the nodes behind the inputs is what there is to tell. -/
  told : ∀ {producer : NodeId} {node : Node} {tag : Option String} {j : Nat},
    job.graph.Feeds producer id → job.graph.node? id = some node →
    job.layout.position? producer = some j →
    (job.assembler.context p i node tag).kindAt j = some (job.graph.kind producer) ∧
      (job.assembler.context p i node tag).unitAt j =
        ((job.tag? producer).map fun _ => job.unitIndex producer) ∧
      ((job.assembler.context p i node tag).operandsAt j).map job.naming.write =
        if job.isConstant producer then [] else job.operands producer

/-- No look-up of a compile misses. -/
structure FindsAll (job : Job) : Prop where
  /-- The index of the registry leads to an operation of the kind that is looked up. -/
  registered : ∀ kind place, job.registry.index? kind = some place →
    ∃ operation, job.registry.operations[place]? = some operation ∧ operation.kind = kind
  /-- A compile comes to every node up to the first one that is stuck, so to all of them if none is,
  and it goes on from there. -/
  reached : ∀ i ≤ job.passed.length, ∃ p, job.assembler.Reaches i p ∧
    job.assembler.run job.layout.nodes.toList 0 {} =
      job.assembler.run (job.layout.nodes.toList.drop i) i p
  /-- Whenever it comes to a node, it finds what it looks for. -/
  finds : ∀ {i : Nat} {id : NodeId} {p : Progress}, job.order[i]? = some id →
    job.assembler.Reaches i p → job.Finds i id p

namespace Sound

theorem finds (h : job.Sound) (hi : job.order[i]? = some id) (hp : job.assembler.Reaches i p) :
    job.Finds i id p := by
  have haligned := hp.listed.aligned
  have hlt : i < job.layout.nodes.size := by
    rw [h.layout_nodes_size]
    exact (List.getElem?_eq_some_iff.mp hi).1
  have hpositioned : ∀ producer, job.graph.Feeds producer id →
      ∃ j < i, job.layout.position? producer = some j ∧ job.order[j]? = some producer := by
    intro producer hfeeds
    obtain ⟨j, hji, hj⟩ := h.exists_lt_of_feeds hi hfeeds
    exact ⟨j, hji, h.position?_eq hj, hj⟩
  have hunitAt : ∀ {j : Nat} {other : NodeId}, j < i → job.order[j]? = some other →
      p.unitAt[j]? = some ((job.tag? other).map fun _ => job.unitIndex other) := by
    intro j other hji hj
    obtain ⟨node, hnode⟩ := h.exists_node? (List.mem_of_getElem? hj)
    rw [haligned.unitAt hji ((h.layout_nodes_getElem? hj).trans hnode), h.unit?_eq hj hnode]
  have hoperandsAt : ∀ {j : Nat} {other : NodeId}, j < i → job.order[j]? = some other →
      p.operandsAt[j]?.map (·.map job.naming.write) =
        some (if job.isConstant other then [] else job.operands other) := by
    intro j other hji hj
    obtain ⟨node, hnode⟩ := h.exists_node? (List.mem_of_getElem? hj)
    rw [haligned.operandsAt hji ((h.layout_nodes_getElem? hj).trans hnode), Option.map_some,
      h.write_assembler_operands hj hnode]
  refine ⟨fun j hj => ⟨hj.trans_lt hlt, ?_⟩, hpositioned, haligned.unitAt_size,
    haligned.operandsAt_size, hunitAt, hoperandsAt, ?_⟩
  · exact (Array.getElem?_eq_some_iff.mp (Layout.ranks_getElem? (hj.trans_lt hlt))).1
  · intro producer node tag j hfeeds hnode hposition
    obtain ⟨k, hk, hposition', hproducer⟩ := hpositioned producer hfeeds
    obtain rfl : k = j := Option.some.inj (hposition'.symm.trans hposition)
    obtain ⟨other, hother⟩ := h.exists_node? (List.mem_of_getElem? hproducer)
    have hat : job.assembler.layout.nodes[k]? = some other :=
      (h.layout_nodes_getElem? hproducer).trans hother
    refine ⟨?_, ?_, ?_⟩
    · rw [Context.kindAt, Assembler.context, Layout.map_kind_placedAt, hat, Option.map_some,
        Graph.kind_of_node? hother]
    · rw [haligned.context_unitAt hk hat, h.unit?_eq hproducer hother]
    · rw [haligned.context_operandsAt hk hat, h.write_assembler_operands hproducer hother]

/-- A compile never misses in a look-up, whatever the registry and the options, and whether it
succeeds or not. -/
theorem findsAll (h : job.Sound) : job.FindsAll where
  registered kind place hplace := by
    rw [Registry.index?_eq_findIdx?] at hplace
    obtain ⟨hlt, hkind, -⟩ := List.findIdx?_eq_some_iff_getElem.mp hplace
    exact ⟨_, List.getElem?_eq_getElem hlt, by simpa using hkind⟩
  reached _ hi := by
    obtain ⟨p, hp⟩ := h.exists_reaches hi
    exact ⟨p, hp, hp.run_eq⟩
  finds hi hp := h.finds hi hp

end Sound

theorem metered_sound : metered.Sound := by
  have hwellFormed : metered.graph.WellFormed := by decide
  exact ⟨hwellFormed.acyclic, by decide⟩

theorem hidden_sound : hidden.Sound := by
  have hwellFormed : hidden.graph.WellFormed := by decide
  exact ⟨hwellFormed.acyclic, by decide⟩

/-- One patch whose registry has been added to and whose units are numbered across a constant and a
silent node, and one that is stuck behind a constant. -/
theorem metered_findsAll : (metered.Sound ∧ metered.FindsAll) ∧ hidden.Sound ∧ hidden.FindsAll :=
  ⟨⟨metered_sound, metered_sound.findsAll⟩, hidden_sound, hidden_sound.findsAll⟩

end Job

end Patchbay
