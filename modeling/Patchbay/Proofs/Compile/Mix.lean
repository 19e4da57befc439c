import Patchbay.Proofs.Compile.SingleAssignment
import Patchbay.Proofs.Compile.Stages

/-!
# The closing mix

An exit ends the block: it returns the sum of the outputs among its inputs, at the output level.
Outputs have no statement of their own. The exit finds the operands of each in a table by position,
and the table has to be right for outputs that are shared or repeated, and with other inputs in
between.

`compile_mixes` says that the statement of an exit is the one that the graph asks for, channel by
channel. If the root is the only exit, nothing else returns, and this statement is the last one.
-/

namespace Patchbay

/-- A line returns. -/
def Returns (line : String) : Prop :=
  ∃ rest, line = "return" ++ rest

/-- A line that assigns a slot does not return. -/
theorem Addressing.Assigns.not_returns {a : Addressing} {line stem : String} {i : Nat}
    (h : a.Assigns line (a.slot stem i)) : ¬ Returns line := by
  rintro ⟨rest, rfl⟩
  exact a.not_assigns_return stem i rest h

theorem Statement.sumText_of_two_le {texts : List String} (h : 2 ≤ texts.length) :
    sumText texts = "(" ++ String.intercalate " + " texts ++ ")" := by
  match texts, h with
  | _ :: _ :: _, _ => rfl

namespace Job

variable {job : Job} {id : NodeId} {compiled : Compiled}

/-! ### What an exit returns -/

/-- The left channel of an output: its first operand. -/
def leftText (job : Job) (out : NodeId) : String :=
  (job.operands out)[0]?.getD "0"

/-- The right channel of an output: its second operand, or the left channel if there is none. -/
def rightText (job : Job) (out : NodeId) : String :=
  (job.operands out)[1]?.getD (job.leftText out)

/-- The statements that are emitted for a node. -/
def emittedBy (job : Job) (id : NodeId) : List (Subject × String) :=
  job.compile.emitted.filter (·.1.position = job.position id)

/-- What is emitted for an exit, by the outputs among its inputs, which are taken in order and with
repeats. -/
structure MixesAt (job : Job) (id : NodeId) : Prop where
  /-- Without an output there is no statement. -/
  silent : job.graph.outs id = [] → job.emittedBy id = []
  /-- One output is returned as it is. -/
  single : ∀ out, job.graph.outs id = [out] →
    job.emittedBy id = [(⟨job.position id, job.graph.kind id⟩,
      "return [(" ++ job.leftText out ++ "*lvl),(" ++ job.rightText out ++ "*lvl)]")]
  /-- Several are added up, channel by channel. -/
  several : 2 ≤ (job.graph.outs id).length →
    job.emittedBy id = [(⟨job.position id, job.graph.kind id⟩,
      "return [((" ++ String.intercalate " + " ((job.graph.outs id).map job.leftText) ++ ")*lvl),(("
        ++ String.intercalate " + " ((job.graph.outs id).map job.rightText) ++ ")*lvl)]")]

/-- What the exits of a job emit. -/
structure Mixes (job : Job) : Prop where
  /-- Every exit that the compile gets past mixes its outputs. -/
  mixesAt : ∀ id ∈ job.passed, job.generator? id = some (.builtin .exit) → job.MixesAt id
  /-- A compile that succeeds gets past everything that the root depends on. -/
  passed : ∀ {compiled}, job.compile.outcome = .ok compiled →
    ∀ id, job.graph.Reachable job.root id → id ∈ job.passed
  /-- If the root is an exit and nothing else is, only the last statement returns, and it is that
  of the root. -/
  closing : ∀ {compiled}, job.compile.outcome = .ok compiled →
    job.generator? job.root = some (.builtin .exit) →
    (∀ id, job.graph.Reachable job.root id → job.generator? id = some (.builtin .exit) →
      id = job.root) →
    ∃ front, job.compile.emitted = front ++ job.emittedBy job.root ∧
      (∀ s ∈ front, ¬ Returns s.2) ∧
      compiled.program = String.intercalate "\n" ((front ++ job.emittedBy job.root).map (·.2))

/-- The outputs that an exit is told of are those of the graph. -/
theorem context_outputs_eq (hconst : job.options.constantKind ≠ Kind.out) (id : NodeId) :
    (job.context id).outputs = (job.graph.outs id).map fun out =>
      ⟨(job.operands out)[0]?, (job.operands out)[1]?⟩ := by
  rw [context_outputs, Graph.outs, ← List.filterMap_eq_map, List.filterMap_filter]
  refine List.filterMap_congr fun producer _ => ?_
  have hkind := job.kindAt_eq_out_iff id producer
  rw [Context.output?]
  by_cases hout : job.graph.kind producer = Kind.out
  · have hslot : job.isConstant producer = false := decide_eq_false (hout ▸ hconst.symm)
    rw [if_pos (hkind.mpr hout), if_pos (decide_eq_true hout)]
    simp only [context, hslot, Bool.false_eq_true, if_false, Function.comp_apply]
  · rw [if_neg (mt hkind.mp hout), if_neg (by simpa using hout)]

/-- The line of an exit. -/
theorem line?_of_exit (hconst : job.options.constantKind ≠ Kind.out)
    (hgenerator : job.generator? id = some (.builtin .exit)) :
    job.line? id = if job.graph.outs id = [] then none else
      some ("return [(" ++ Statement.sumText ((job.graph.outs id).map job.leftText) ++ "*lvl),("
        ++ Statement.sumText ((job.graph.outs id).map job.rightText) ++ "*lvl)]") := by
  rw [line?, hgenerator, Option.bind_some, Generator.line?, Generator.statement?,
    Builtin.statement?, context_outputs_eq hconst]
  cases job.graph.outs id with
  | nil => rfl
  | cons out outs =>
    rw [if_neg (List.cons_ne_nil _ _)]
    simp only [List.map_cons, Option.map_some, Statement.text, List.map_map]
    rfl

namespace Sound

/-- What is emitted for a node that the compile gets past. -/
theorem emittedBy_eq (h : job.Sound) (hregistry : job.registry.IsBuiltin) (hid : id ∈ job.passed) :
    job.emittedBy id = (job.emission? id).toList := by
  obtain ⟨i, hi⟩ := List.mem_iff_getElem?.mp hid
  have hi' := getElem?_order_of_passed hi
  rw [emittedBy, job.emitted_eq_entries, h.entries_eq_passed, List.filterMap_filterMap,
    h.position_eq hi',
    filter_filterMap_range Assembler.position_of_emission? (List.getElem?_eq_some_iff.mp hi).1,
    h.emission?_eq hi' fun _ hgenerator => isBuiltin_of_generator? hregistry hgenerator]

theorem mixesAt (h : job.Sound) (hregistry : job.registry.IsBuiltin)
    (hconst : job.options.constantKind ≠ Kind.out) (hid : id ∈ job.passed)
    (hgenerator : job.generator? id = some (.builtin .exit)) : job.MixesAt id := by
  have hemitted := h.emittedBy_eq hregistry hid
  rw [emission?, line?_of_exit hconst hgenerator] at hemitted
  refine ⟨fun houts => ?_, fun out houts => ?_, fun hlength => ?_⟩
  · rw [hemitted, houts]
    rfl
  · rw [hemitted, houts]
    rfl
  · have hne : job.graph.outs id ≠ [] := by
      rw [← List.length_pos_iff]
      omega
    have hopening : "return [((" = "return [(" ++ "(" := rfl
    have hmiddle : ")*lvl),((" = ")" ++ "*lvl),(" ++ "(" := rfl
    have hclosing : ")*lvl)]" = ")" ++ "*lvl)]" := rfl
    rw [hemitted, if_neg hne, Statement.sumText_of_two_le (by rwa [List.length_map]),
      Statement.sumText_of_two_le (by rwa [List.length_map]), hopening, hmiddle, hclosing]
    simp only [Option.map_some, Option.toList_some, String.append_assoc]

/-- The root is computed last. -/
theorem order_eq_before_root (h : job.Sound) : job.order = job.before job.root ++ [job.root] := by
  have hlast : job.order.getLast? = some job.root := Graph.postorder_getLast? h.acyclic h.root_lt
  obtain ⟨front, horder⟩ := List.getLast?_eq_some_iff.mp hlast
  have hi : job.order[front.length]? = some job.root := by
    rw [horder, List.getElem?_concat_length]
  rw [h.before_eq_take hi, horder, List.take_left]

/-- If the root is the only exit, what comes before it does not return. -/
theorem not_returns_of_mem_before (h : job.Sound) (hregistry : job.registry.IsBuiltin)
    (hexit : ∀ id, job.graph.Reachable job.root id → job.generator? id = some (.builtin .exit) →
      id = job.root) {s : Subject × String}
    (hs : s ∈ (job.before job.root).filterMap job.emission?) : ¬ Returns s.2 := by
  obtain ⟨id, hid, hemission⟩ := List.mem_filterMap.mp hs
  obtain ⟨line, hline, rfl⟩ := Option.map_eq_some_iff.mp hemission
  have hne : id ≠ job.root := by simpa using List.mem_takeWhile_imp hid
  have hmem : id ∈ job.order := (List.takeWhile_sublist _).subset hid
  obtain ⟨generator, hgenerator, -⟩ := Option.bind_eq_some_iff.mp hline
  cases generator with
  | custom line? => exact (isBuiltin_of_generator? hregistry hgenerator).elim
  | builtin b =>
    have hb : b ≠ .exit := by
      rintro rfl
      exact hne (hexit id (h.mem_order.mp hmem) hgenerator)
    obtain ⟨line', hline', hassigns⟩ := line?_assigns hgenerator hb
    obtain rfl := Option.some.inj (hline.symm.trans hline')
    exact hassigns.not_returns

end Sound

end Job

/-- The closing mix is the one that the graph asks for. With built-in generators, and if outputs are
not taken for constants, an exit emits nothing or one statement, which returns the sums of the two
channels over the outputs among its inputs. If the root is the only exit, this is the last
statement, and no other returns. -/
theorem compile_mixes {job : Job} (h : job.Sound) (hregistry : job.registry.IsBuiltin)
    (hconst : job.options.constantKind ≠ Kind.out) : job.Mixes where
  mixesAt _ hid hgenerator := h.mixesAt hregistry hconst hid hgenerator
  passed := by
    intro compiled hok id hid
    rw [h.passed_of_ok hok]
    exact h.mem_order.mpr hid
  closing := by
    intro compiled hok _ hexit
    have hroot : job.root ∈ job.passed := by
      rw [h.passed_of_ok hok]
      exact h.mem_order.mpr .root
    have hemitted : job.compile.emitted =
        (job.before job.root).filterMap job.emission? ++ job.emittedBy job.root := by
      rw [h.emittedBy_eq hregistry hroot, h.emitted_eq hregistry (h.find?_isStuck_of_ok hok)]
      nth_rewrite 1 [h.order_eq_before_root]
      rw [List.filterMap_append, List.filterMap_eq_flatMap_toList job.emission? [job.root],
        List.flatMap_singleton]
    refine ⟨_, hemitted, fun s hs => h.not_returns_of_mem_before hregistry hexit hs, ?_⟩
    rw [← hemitted, h.eq_result_of_ok hok, Job.result]

/-- A patch with two outputs, one of them on two channels and mixed twice, and with a feedback write
and an immediate among the inputs of the exit. -/
def Job.desk : Job where
  graph.nodes := #[
    { kind := Kind.feedbackRead },
    { kind := Kind.sine, inputs := [.immediate 200, .node 0] },
    { kind := Kind.constant, value := some 2 },
    { kind := Kind.out, inputs := [.node 1, .node 2] },
    { kind := Kind.out, inputs := [.node 1] },
    { kind := Kind.feedbackWrite, inputs := [.node 1, .node 0] },
    { kind := Kind.exit, inputs := [.node 3, .node 5, .node 4, .immediate 7, .node 3] }]
  root := 6

theorem Job.desk_mixes : desk.Sound ∧ desk.registry.IsBuiltin ∧
    desk.options.constantKind ≠ Kind.out ∧ desk.graph.outs 6 = [3, 4, 3] ∧ desk.Mixes := by
  have hwellFormed : desk.graph.WellFormed := by decide
  have hsound : desk.Sound := ⟨hwellFormed.acyclic, by decide⟩
  exact ⟨hsound, Registry.standard_isBuiltin, by decide, by decide,
    compile_mixes hsound Registry.standard_isBuiltin (by decide)⟩

end Patchbay
