import Patchbay.Proofs.Compile.Correspondence
import Patchbay.Proofs.Graph.Composition

/-!
# Extending a patch

Patches grow from their outputs: a node is put behind another, and the new node is compiled in its
place. `compile_extends` says that nothing is rewritten when the old node is the first input of the
new one. The statements and the units of the old node begin those of the new one, and if the old
node cannot be compiled, the new one fails in the same way.

The schedule of the new node begins with that of the old one (`Graph.postorder_isPrefix`), and what
a node is given, its slot and its unit included, depends on the nodes before it only.
-/

namespace Patchbay

namespace Job

variable {job : Job} {first id : NodeId}

/-- The first node among the inputs of the root is `first`, and the graph is acyclic. -/
structure Begins (job : Job) (first : NodeId) : Prop where
  acyclic : job.graph.Acyclic
  head?_producers : (job.graph.producers job.root).head? = some first

namespace Begins

theorem feeds (h : job.Begins first) : job.graph.Feeds first job.root :=
  Graph.mem_producers.mp (List.mem_of_head? h.head?_producers)

theorem sound (h : job.Begins first) : job.Sound where
  acyclic := h.acyclic
  root_lt := h.feeds.consumer_lt_size

theorem sound_rooted (h : job.Begins first) : (job.rooted first).Sound where
  acyclic := h.acyclic
  root_lt := h.acyclic.lt_size h.feeds

theorem order_isPrefix (h : job.Begins first) : (job.rooted first).order <+: job.order :=
  Graph.postorder_isPrefix h.acyclic h.head?_producers

/-- The nodes before a node of the first input stay the same. -/
theorem before_eq (h : job.Begins first) (hid : id ∈ (job.rooted first).order) :
    (job.rooted first).before id = job.before id := by
  obtain ⟨i, hi⟩ := List.mem_iff_getElem?.mp hid
  obtain ⟨others, horder⟩ := h.order_isPrefix
  have hlt : i < (job.rooted first).order.length := (List.getElem?_eq_some_iff.mp hi).1
  have hi' : job.order[i]? = some id := by
    rw [← horder, List.getElem?_append_left hlt, hi]
  rw [h.sound_rooted.before_eq_take hi, h.sound.before_eq_take hi', ← horder,
    List.take_append_of_le_length hlt.le]

theorem position_eq (h : job.Begins first) (hid : id ∈ (job.rooted first).order) :
    (job.rooted first).position id = job.position id := by
  rw [position, position, h.before_eq hid]

/-- So do their slots and units, and the nodes behind their inputs are among them. -/
theorem corresponds (h : job.Begins first) :
    job.Corresponds (job.rooted first) (· ∈ (job.rooted first).order) where
  compiler := rfl
  kind _ := rfl
  literal _ := rfl
  inputs := by
    intro id hid
    refine List.forall₂_same.mpr fun input hinput => ?_
    cases input with
    | immediate value => exact .immediate value
    | node producer =>
      have hreach := h.sound_rooted.mem_order.mp hid
      exact .node (h.sound_rooted.mem_order.mpr (hreach.feeds hinput))
  slotIndex := by
    intro id hid
    rw [slotIndex, slotIndex, h.position_eq hid, h.before_eq hid]
    rfl
  unitIndex := by
    intro id hid
    rw [unitIndex, unitIndex, h.before_eq hid]
    rfl

theorem emission?_eq (h : job.Begins first) (hregistry : job.registry.IsBuiltin)
    (hid : id ∈ (job.rooted first).order) :
    (job.rooted first).emission? id = job.emission? id := by
  rw [emission?, emission?, h.corresponds.line?_eq hregistry hid, h.position_eq hid]
  rfl

/-- A node that is stuck behind the first input is met first. -/
theorem find?_isStuck (h : job.Begins first) (hid : (job.rooted first).order.find?
    (job.rooted first).isStuck = some id) : job.order.find? job.isStuck = some id := by
  obtain ⟨others, horder⟩ := h.order_isPrefix
  rw [← horder, List.find?_append]
  exact congrArg (Option.or · _) hid

end Begins

end Job

/-- Extending a patch rewrites nothing. If a root can be compiled, with built-in generators, then so
can its first input, and the statements and the units of the input begin those of the root. Each
program consists of the statements that its compile emits. If the first input cannot be compiled,
the root fails with the same error. -/
theorem compile_extends {job : Job} {first : NodeId} (hg : job.graph.Acyclic)
    (hregistry : job.registry.IsBuiltin)
    (hfirst : (job.graph.producers job.root).head? = some first) :
    (∀ compiled, job.compile.outcome = .ok compiled →
      ∃ compiled', (job.rooted first).compile.outcome = .ok compiled' ∧
        compiled.program = String.intercalate "\n" (job.compile.emitted.map (·.2)) ∧
        compiled'.program =
          String.intercalate "\n" ((job.rooted first).compile.emitted.map (·.2)) ∧
        (job.rooted first).compile.emitted <+: job.compile.emitted ∧
        compiled'.units <+: compiled.units) ∧
      ∀ error, (job.rooted first).compile.outcome = .error error →
        job.compile.outcome = .error error := by
  have h : job.Begins first := ⟨hg, hfirst⟩
  cases hstuck' : (job.rooted first).order.find? (job.rooted first).isStuck with
  | some id =>
    have hstuck := h.find?_isStuck hstuck'
    refine ⟨fun compiled hok => ?_, fun error herror => ?_⟩
    · rw [h.sound.find?_isStuck_of_ok hok] at hstuck
      cases hstuck
    · rw [← herror, h.sound.outcome_of_find?_eq_some hstuck,
        h.sound_rooted.outcome_of_find?_eq_some hstuck']
      rfl
  | none =>
    have houtcome := h.sound_rooted.outcome_of_find?_eq_none hstuck'
    refine ⟨fun compiled hok => ⟨_, houtcome, ?_, rfl, ?_, ?_⟩, fun error herror => ?_⟩
    · exact congrArg Compiled.program (h.sound.eq_result_of_ok hok)
    · rw [h.sound_rooted.emitted_eq hregistry hstuck',
        h.sound.emitted_eq hregistry (h.sound.find?_isStuck_of_ok hok),
        List.filterMap_congr fun id => h.emission?_eq hregistry]
      exact h.order_isPrefix.filterMap _
    · rw [h.sound.eq_result_of_ok hok, Job.result, Job.result,
        List.filterMap_congr fun id => h.corresponds.unit?_eq]
      exact h.order_isPrefix.filterMap _
    · rw [houtcome] at herror
      cases herror

/-- The squared diamond, with registers. Its first input is the diamond. -/
def Job.diamond : Job where
  options := { addressing := .registers }
  graph := .diamond
  root := 5

theorem Job.diamond_compile_extends :
    Job.diamond.graph.Acyclic ∧ Job.diamond.registry.IsBuiltin ∧
      (Job.diamond.graph.producers Job.diamond.root).head? = some 3 ∧
      (∃ compiled, Job.diamond.compile.outcome = .ok compiled ∧
        ∃ compiled', (Job.diamond.rooted 3).compile.outcome = .ok compiled' ∧
          compiled.program = String.intercalate "\n" (Job.diamond.compile.emitted.map (·.2)) ∧
          compiled'.program =
            String.intercalate "\n" ((Job.diamond.rooted 3).compile.emitted.map (·.2)) ∧
          (Job.diamond.rooted 3).compile.emitted <+: Job.diamond.compile.emitted ∧
          compiled'.units <+: compiled.units) ∧
      ∀ error, (Job.diamond.rooted 3).compile.outcome = .error error →
        Job.diamond.compile.outcome = .error error := by
  have hg : Job.diamond.graph.Acyclic := Graph.diamond_wellFormed.acyclic
  obtain ⟨compiled, hok⟩ : ∃ compiled, Job.diamond.compile.outcome = .ok compiled :=
    exists_compiled rfl rfl
  obtain ⟨hextends, hfails⟩ := compile_extends hg Registry.standard_isBuiltin
    (by decide : (Job.diamond.graph.producers Job.diamond.root).head? = some 3)
  exact ⟨hg, Registry.standard_isBuiltin, by decide, ⟨compiled, hok, hextends compiled hok⟩, hfails⟩

end Patchbay
