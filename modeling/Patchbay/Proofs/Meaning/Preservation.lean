import Patchbay.Proofs.Meaning.Execution
import Patchbay.Proofs.Meaning.Reading

/-!
# Compiling keeps the meaning of a patch

Playing a compiled patch gives what evaluating the patch gives, on any host: this is
`compile_realizes`. The host reads the lines of the program and runs them on the units that the
compiled patch lists, in whatever states they are. Every line can be read, and the program runs to
the end. Afterwards every node with a slot has left there what it comes to, every unit is as the
last node to change it has left it, and what was returned is the mix of the outputs.

The proof follows the assembly. `Assembler.run_of_resolves` is the induction and `Simulates` the
invariant; the step is `exec_instruction` and `exec_exit`. That the instructions are those on the
lines of the program is `Compiled.mapM_read?_statements`.
-/

namespace Patchbay

variable {V S : Type} {g : Graph} {hg : g.Acyclic} {root id : NodeId} {host : Host V S}
  {states : Nat → S} {options : Options} {n : Nat} {m : Memory V S} {p : Progress} {node : Node}

open Patchbay.Graph

/-! ### What a block leaves behind -/

/-- A memory is what a block of a patch leaves behind, if the node at each position has the slot
that is given for it. -/
structure Memory.Realizes (hg : g.Acyclic) (root : NodeId) (host : Host V S) (states : Nat → S)
    (slot : Nat → String) (m : Memory V S) : Prop where
  /-- Every node but constants, outputs and exits has left its value in its slot. -/
  slots : ∀ {i id}, (g.schedule root).order[i]? = some id → g.kind id ≠ Kind.constant →
    g.kind id ≠ Kind.out → g.kind id ≠ Kind.exit →
    m.slots (slot i) = some (evaluate hg root host states id).value
  /-- Every node has left its unit as it has changed it, unless a feedback write comes after it. -/
  units : ∀ {id k unit}, g.Reachable root id →
    (evaluate hg root host states id).unit = some (k, unit) →
    (∀ {other}, g.Reachable root other → g.kind other = Kind.feedbackWrite →
      (g.inputs other)[1]? ≠ some (.node id)) →
    m.units[k]? = some unit
  /-- What was returned is the mix of the outputs. -/
  returned : m.returned = mixture hg root host states

/-- A memory that holds what all nodes come to is what the block leaves behind. -/
theorem Memory.Holds.realizes {slot : Nat → String}
    (h : m.Holds hg root host states slot (g.postorder root).size) (hroot : root < g.size)
    (hplay : g.Playable root) (hreturned : m.returned = mixture hg root host states) :
    m.Realizes hg root host states slot where
  slots hi hconst hout hexit :=
    h.slots (Array.getElem?_eq_some_iff.mp hi).1 hi (Role.hasSlot_ofKind.mpr ⟨hconst, hout, hexit⟩)
  returned := hreturned
  units := by
    intro id k unit hreach hunit hlast
    obtain ⟨i, hi⟩ := exists_getElem?_postorder hg hroot hreach
    obtain ⟨target, tag, htarget, -, hrole, -⟩ := hplay.exists_target hreach hunit
    refine h.held (Array.getElem?_eq_some_iff.mp hi).1 hi hunit ?_
    intro j other hij _ hother hsame
    have hreach' := reachable_of_getElem?_postorder hg hroot hother
    rw [htarget] at hsame
    -- both nodes change the unit of the target, so one of them is the write and the other the read
    rcases target?_eq_some hsame with rfl | ⟨hwrite, hinput⟩
    · rcases target?_eq_some htarget with rfl | ⟨-, hinput⟩
      · exact hij.ne (getElem?_postorder_inj hg hroot hi hother)
      · obtain ⟨j', hj', hread⟩ :=
          exists_lt_of_feeds hg hroot hi (List.mem_of_getElem? hinput)
        exact (hj'.trans hij).ne (getElem?_postorder_inj hg hroot hread hother)
    · rcases target?_eq_some htarget with rfl | ⟨hwrite', hinput'⟩
      · exact hlast hreach' (Role.ofKind_eq_write.mp hwrite) hinput
      · obtain rfl : id = other := hplay.write_inj hreach hreach'
          (Role.ofKind_eq_write.mp hwrite') (Role.ofKind_eq_write.mp hwrite) hinput' hinput
        exact hij.ne (getElem?_postorder_inj hg hroot hi hother)

/-! ### The run along the assembly -/

/-- The instructions assembled so far run to a memory that holds what the nodes so far come to. -/
def Simulates (hg : g.Acyclic) (root : NodeId) (options : Options) (host : Host V S)
    (states : Nat → S) (n : Nat) (p : Progress) : Prop :=
  ∃ m : Memory V S,
    host.run options.addressing options.stem
        (p.entries.toList.filterMap (·.instruction? (g.assembler root options).naming))
        (Memory.start states (g.unitTags root)) = some m ∧
      (g.assembler root options).Aligned n p ∧
      m.Holds hg root host states (g.assembler root options).naming.slot n ∧
      m.returned = if n < (g.postorder root).size then none else mixture hg root host states

theorem lt_size_of_getElem?_postorder (hn : (g.postorder root)[n]? = some id) :
    n < (g.postorder root).size :=
  (Array.getElem?_eq_some_iff.mp hn).1

/-- The root is the last to be scheduled. -/
theorem succ_lt_size_iff (hg : g.Acyclic) (hroot : root < g.size)
    (hn : (g.postorder root)[n]? = some id) : n + 1 < (g.postorder root).size ↔ id ≠ root := by
  have hlast : (g.postorder root)[(g.postorder root).size - 1]? = some root := by
    have hget := postorder_getLast? hg hroot
    rw [List.getLast?_eq_getElem?, Array.length_toList, Array.getElem?_toList] at hget
    exact hget
  have hlt := lt_size_of_getElem?_postorder hn
  constructor
  · rintro h rfl
    have := getElem?_postorder_inj hg hroot hn hlast
    omega
  · intro hne
    by_contra hge
    obtain rfl : n = (g.postorder root).size - 1 := by omega
    exact hne (Option.some.inj (hn.symm.trans hlast))

/-- Nothing is returned at a node that is not an exit. -/
theorem returned_of_ne_exit (hroot : root < g.size) (hn : (g.postorder root)[n]? = some id)
    (hexit : g.kind id ≠ Kind.exit) :
    (if n + 1 < (g.postorder root).size then none else mixture hg root host states) = none := by
  split
  · rfl
  · next hge =>
    obtain rfl : id = root := by
      by_contra hne
      exact hge ((succ_lt_size_iff hg hroot hn).mpr hne)
    rw [mixture, if_neg hexit]

namespace Simulates

theorem zero (hg : g.Acyclic) (hroot : root < g.size) (options : Options) (host : Host V S)
    (states : Nat → S) : Simulates hg root options host states 0 {} := by
  have hpos : 0 < (g.postorder root).size := by
    obtain ⟨i, hi⟩ := exists_getElem?_postorder hg hroot Reachable.root
    exact Nat.zero_lt_of_lt (lt_size_of_getElem?_postorder hi)
  refine ⟨_, rfl, .zero _, .start hg hroot host states _, ?_⟩
  rw [if_pos hpos]
  rfl

/-- A constant adds nothing to the program. -/
theorem skip (ho : options.Usual) (hroot : root < g.size)
    (h : Simulates hg root options host states n p) (hn : (g.postorder root)[n]? = some id)
    (hnode : g.node? id = some node)
    (hconst : (g.assembler root options).layout.isConstant node = true) :
    Simulates hg root options host states (n + 1) p.skip := by
  obtain ⟨m, hrun, haligned, hholds, hreturned⟩ := h
  have hrole := (Assembler.isConstant_iff ho hnode).mp hconst
  have hexit : g.kind id ≠ Kind.exit := by
    rw [Role.ofKind_eq_constant.mp hrole]
    decide
  refine ⟨m, hrun, haligned.skip (Assembler.layout_nodes_eq_some hg hroot hn hnode) hconst,
    hholds.silent hn (by rw [hrole]; rfl), ?_⟩
  rw [hreturned, if_pos (lt_size_of_getElem?_postorder hn), returned_of_ne_exit hroot hn hexit]

private theorem filterMap_extend (p : Progress) (e : Entry) (naming : Naming) :
    (p.extend e).entries.toList.filterMap (Entry.instruction? · naming) =
      p.entries.toList.filterMap (Entry.instruction? · naming) ++
        (e.instruction? naming).toList := by
  rw [Progress.extend, Array.toList_push, List.filterMap_append]
  cases hinstruction : e.instruction? naming <;> simp [hinstruction]

/-- A node with an instruction adds what the instruction does. -/
private theorem run_extend {e : Entry} {i : Instruction} {m m' : Memory V S}
    (hrun : host.run options.addressing options.stem
      (p.entries.toList.filterMap (·.instruction? (g.assembler root options).naming))
      (Memory.start states (g.unitTags root)) = some m) (hreturned : m.returned = none)
    (hinstruction : e.instruction? (g.assembler root options).naming = some i)
    (hexec : host.exec options.addressing options.stem m i = some m') :
    host.run options.addressing options.stem
      ((p.extend e).entries.toList.filterMap (·.instruction? (g.assembler root options).naming))
      (Memory.start states (g.unitTags root)) = some m' := by
  rw [filterMap_extend, Host.run_append, hrun, Option.bind_some, hinstruction, Option.toList_some,
    Host.run_singleton hreturned, hexec]

/-- The slot of a node is not one that has been assigned before. -/
private theorem slot_ne (ho : options.Usual) (hg : g.Acyclic) (hroot : root < g.size)
    (hn : (g.postorder root)[n]? = some id) (hslot : (g.role id).hasSlot = true) {i : Nat}
    {id' : NodeId} (hi : i < n) (hid' : (g.postorder root)[i]? = some id')
    (hslot' : (g.role id').hasSlot = true) :
    (g.assembler root options).naming.slot i ≠ (g.assembler root options).naming.slot n := by
  have hnode : ∀ {j : Nat} {id : NodeId}, (g.postorder root)[j]? = some id →
      (g.role id).hasSlot = true →
      ∃ node, (g.assembler root options).layout.nodes[j]? = some node ∧
        (g.assembler root options).layout.isConstant node = false := by
    intro j id hj hslot
    obtain ⟨node, hnode⟩ := exists_node?_of_lt
      (hg.reachable_lt_size hroot (reachable_of_getElem?_postorder hg hroot hj))
    refine ⟨node, Assembler.layout_nodes_eq_some hg hroot hj hnode, ?_⟩
    rw [Bool.eq_false_iff, ne_eq, Assembler.isConstant_iff ho hnode]
    intro hrole
    rw [hrole] at hslot
    cases hslot
  obtain ⟨node, hat, hconst⟩ := hnode hn hslot
  obtain ⟨node', hat', hconst'⟩ := hnode hid' hslot'
  intro hsame
  exact hi.ne ((Layout.naming_slot_inj hat' hconst' hat hconst).mp hsame)

/-- Any other node adds its instruction, if it has one. -/
theorem extend (ho : options.Usual) (hroot : root < g.size) (hplay : g.Playable root)
    (h : Simulates hg root options host states n p) (hn : (g.postorder root)[n]? = some id)
    (hnode : g.node? id = some node)
    (hconst : (g.assembler root options).layout.isConstant node = false) {schema : Schema}
    {viaFallback : Bool} (hschema : (g.assembler root options).registry.resolve?
      (g.assembler root options).fallbackKind node.kind = some (schema, viaFallback)) :
    Simulates hg root options host states (n + 1)
      (p.extend ((g.assembler root options).entry p n node schema viaFallback)) := by
  obtain ⟨m, hrun, haligned, hholds, hreturned⟩ := h
  rw [if_pos (lt_size_of_getElem?_postorder hn)] at hreturned
  have haligned' :=
    haligned.extend (Assembler.layout_nodes_eq_some hg hroot hn hnode) hconst hschema
  obtain rfl := Assembler.schema_eq ho hnode hschema
  by_cases hexit : g.kind id = Kind.exit
  · -- an exit is the root, and the last node
    have hreach := reachable_of_getElem?_postorder hg hroot hn
    obtain rfl := hplay.exit_root hreach hexit
    have hrole : g.role id = .exit := Role.ofKind_eq_exit.mpr hexit
    have hlast : ¬ n + 1 < (g.postorder id).size := fun hlt =>
      (succ_lt_size_iff hg hroot hn).mp hlt rfl
    have hholds' := hholds.silent hn (by rw [hrole]; rfl)
    rw [hrole] at haligned' ⊢
    rcases exec_exit ho hroot hplay haligned hholds hn hnode hexit viaFallback with
      ⟨hnone, hmixture⟩ | ⟨i, hinstruction, hexec⟩
    · refine ⟨m, ?_, haligned', hholds', ?_⟩
      · rw [filterMap_extend, hnone, Option.toList_none, List.append_nil, hrun]
      · rw [hreturned, if_neg hlast, hmixture]
    · -- returning changes neither slots nor units
      refine ⟨_, run_extend hrun hreturned hinstruction hexec, haligned',
        ⟨hholds'.slots, hholds'.length, hholds'.fresh, hholds'.held⟩, ?_⟩
      rw [if_neg hlast]
  · have hreturned' : (if n + 1 < (g.postorder root).size then none
        else mixture hg root host states) = none := returned_of_ne_exit hroot hn hexit
    by_cases hslot : (g.role id).hasSlot = true
    · obtain ⟨i, hinstruction, hexec⟩ :=
        exec_instruction ho hroot hplay haligned hholds hn hnode hslot viaFallback
      refine ⟨_, run_extend hrun hreturned hinstruction hexec, haligned',
        hholds.record hroot hplay hn (slot_ne ho hg hroot hn hslot), ?_⟩
      rw [Memory.record_returned, hreturned, hreturned']
    · -- only an output is left
      have hrole : g.role id = .out := by
        by_contra hout
        refine hslot (Role.hasSlot_ofKind.mpr ⟨fun hkind => ?_, fun hkind => ?_, hexit⟩)
        · rw [(Assembler.isConstant_iff ho hnode).mpr (Role.ofKind_eq_constant.mpr hkind)] at hconst
          cases hconst
        · exact hout (Role.ofKind_eq_out.mpr hkind)
      refine ⟨m, ?_, haligned', hholds.silent hn (by rw [hrole]; rfl), ?_⟩
      · have hnone : ((g.assembler root options).entry p n node (g.role id).schema
            viaFallback).instruction? (g.assembler root options).naming = none := by
          rw [hrole]
          rfl
        rw [filterMap_extend, hnone, Option.toList_none, List.append_nil, hrun]
      · rw [hreturned, hreturned']

end Simulates

/-- The whole assembly succeeds, and its instructions run as they should. -/
theorem exists_simulates (ho : options.Usual) (hg : g.Acyclic) (hroot : root < g.size)
    (hplay : g.Playable root) (host : Host V S) (states : Nat → S) :
    ∃ p, (g.assembler root options).run (g.assembler root options).layout.nodes.toList 0 {} =
        (p, none) ∧
      Simulates hg root options host states (g.postorder root).size p := by
  have hsize : (g.assembler root options).layout.nodes.toList.length =
      (g.postorder root).size := by
    rw [Array.length_toList]
    exact Layout.ofGraph_nodes_size hg hroot
  rw [← hsize]
  have hat : ∀ {i : Nat} {node : Node},
      (g.assembler root options).layout.nodes.toList[i]? = some node →
      ∃ id, (g.postorder root)[i]? = some id ∧ g.node? id = some node := by
    intro i node hi
    rw [Array.getElem?_toList] at hi
    exact (Layout.ofGraph_nodes_eq_some_iff hg hroot).mp hi
  -- every kind has a schema, if only by the fallback, so the assembly cannot fail
  refine Assembler.run_of_resolves ⟨?_, ?_⟩ (.zero hg hroot options host states) ?_
  · intro i node p hi hconst h
    obtain ⟨id, hid, hnode⟩ := hat hi
    exact h.skip ho hroot hid hnode hconst
  · intro i node p schema viaFallback hi hconst hschema h
    obtain ⟨id, hid, hnode⟩ := hat hi
    exact h.extend ho hroot hplay hid hnode hconst hschema
  · intro node _
    obtain ⟨viaFallback, hresolve⟩ := Registry.standard_resolve? node.kind
    rw [← ho.fallbackKind] at hresolve
    exact Option.isSome_iff_exists.mpr ⟨_, hresolve⟩

/-! ### The program -/

/-- If the assembly succeeds, so does the compile, and the units are those of the entries. -/
theorem exists_compiled_of_assemble {registry : Registry} {entries : List Entry}
    (h : (Layout.ofGraph g root options.constantKind).assemble registry options =
      ⟨entries, none⟩) :
    ∃ compiled, (compile registry options g root).outcome = .ok compiled ∧
      compiled.unitTags = entries.filterMap (·.tag) := by
  rw [compile, h]
  refine ⟨_, rfl, ?_⟩
  rw [Compiled.unitTags, List.map_filterMap]
  refine List.filterMap_congr fun e _ => ?_
  rw [Entry.unit?, Option.map_map]
  exact Option.map_id'

/-- The units of a compiled patch are those of its nodes. -/
private theorem filterMap_tag_eq_unitTags (ho : options.Usual) (hg : g.Acyclic)
    (hroot : root < g.size)
    (haligned : (g.assembler root options).Aligned (g.postorder root).size p) :
    p.entries.toList.filterMap (·.tag) = g.unitTags root := by
  have hsize : (g.assembler root options).layout.nodes.toList.length ≤
      (g.postorder root).size := by
    rw [Array.length_toList]
    exact (Layout.ofGraph_nodes_size hg hroot).le
  have hnodes : (g.assembler root options).layout.nodes.toList =
      (g.postorder root).toList.filterMap g.node? :=
    Layout.ofGraph_nodes_toList g root options.constantKind
  rw [haligned.tags, List.take_of_length_le hsize, hnodes, List.filterMap_filterMap, unitTags]
  refine List.filterMap_congr fun id hid => ?_
  obtain ⟨node, hnode⟩ := exists_node?_of_lt
    (hg.reachable_lt_size hroot ((mem_postorder hg hroot).mp hid))
  rw [hnode, Option.bind_some, Assembler.tag?_eq ho hnode]

/-- A kind that is named in a comment is one of the library. -/
private theorem inline_kind (ho : options.Usual) {c : Command}
    (hc : c ∈ commands .standard options g root) (htarget : c.statement.target?.isSome) :
    Text.Inline c.site.kind := by
  obtain ⟨i, node, schema, viaFallback, b, context, statement, -, hresolve, hgenerator, hstatement,
    rfl⟩ := exists_of_mem_commands Registry.standard_isBuiltin hc
  obtain ⟨viaFallback', hrole⟩ := Registry.standard_resolve? node.kind
  rw [ho.fallbackKind] at hresolve
  obtain rfl := (Prod.mk.inj (Option.some.inj (hresolve.symm.trans hrole))).1
  -- a kind that the library does not know is compiled to a copy, which has no comment
  have hcopy : Role.ofKind node.kind ≠ .copy := by
    intro hcopy
    rw [hcopy] at hgenerator
    obtain rfl := Generator.builtin.inj (Option.some.inj hgenerator)
    obtain rfl := Option.some.inj hstatement
    cases htarget
  have htable : ∀ e ∈ Role.table, Text.Inline e.1 := by decide
  exact htable _ (Role.mem_table_of_ofKind rfl hcopy)

/-- Compiling keeps meaning. A playable patch compiles, whatever other kinds it has and under
either convention for slots. On every host, with its units in any states, the lines of the program
can be read and run to the end, and this leaves behind what the patch means. -/
theorem compile_realizes (hg : g.Acyclic) (hroot : root < g.size) (hplay : g.Playable root)
    (hoptions : options.Usual) (hstem : options.addressing.Legible options.stem) (host : Host V S)
    (states : Nat → S) :
    ∃ compiled final,
      (compile .standard options g root).outcome = .ok compiled ∧
      compiled.unitTags = g.unitTags root ∧
      host.play options.addressing options.stem compiled states = some final ∧
      final.Realizes hg root host states
        ((Layout.ofGraph g root options.constantKind).naming options).slot := by
  obtain ⟨p, hassembly, final, hrun, haligned, hholds, hreturned⟩ :=
    exists_simulates hoptions hg hroot hplay host states
  rw [if_neg (Nat.lt_irrefl _)] at hreturned
  have hassemble : (Layout.ofGraph g root options.constantKind).assemble .standard options =
      ⟨p.entries.toList, none⟩ := by
    have hassembly' : Assembler.run ⟨.standard, options.fallbackKind,
        Layout.ofGraph g root options.constantKind,
        (Layout.ofGraph g root options.constantKind).naming options⟩
        (Layout.ofGraph g root options.constantKind).nodes.toList 0 {} = (p, none) := hassembly
    rw [Layout.assemble, hassembly']
  obtain ⟨compiled, houtcome, htags⟩ := exists_compiled_of_assemble hassemble
  rw [filterMap_tag_eq_unitTags hoptions hg hroot haligned] at htags
  -- what is read off the lines is what the assembly has run along
  have hinstructions : (commands .standard options g root).filterMap Command.instruction? =
      p.entries.toList.filterMap (·.instruction? (g.assembler root options).naming) := by
    rw [commands, hassemble, List.filterMap_filterMap]
    rfl
  have hread := Compiled.mapM_read?_statements Registry.standard_isBuiltin hstem
    (fun c hc => inline_kind hoptions hc) houtcome
  refine ⟨compiled, final, houtcome, htags, ?_, hholds.realizes hroot hplay hreturned⟩
  rw [Host.play, hread, hinstructions, htags]
  exact hrun

/-- A loop: what is read from a cell is added to a constant, written back, passed through a kind
that nobody knows, and mixed with the sum into one output. -/
def Graph.echo : Graph where
  nodes := #[
    { kind := Kind.feedbackRead },
    { kind := Kind.constant, value := some (.text "\"dry\", (a + b);") },
    { kind := Kind.add, inputs := [.node 0, .node 1] },
    { kind := Kind.feedbackWrite, inputs := [.node 2, .node 0] },
    { kind := "wobble", inputs := [.node 3] },
    { kind := Kind.out, inputs := [.node 4, .node 2] },
    { kind := Kind.exit, inputs := [.node 5] }]

theorem Graph.echo_wellFormed : echo.WellFormed := by decide

theorem Graph.echo_playable : echo.Playable 6 := by
  have hlt : ∀ {id}, echo.Reachable 6 id → id < 7 := fun h =>
    echo_wellFormed.acyclic.reachable_lt_size (by decide) h
  have hwrite : ∀ id < 7, echo.kind id = Kind.feedbackWrite → id = 3 := by decide
  refine ⟨fun h => ?_, fun h hfeeds => ?_, fun h hkind => ?_, fun h h' hkind hkind' _ _ => ?_⟩
  · exact (by decide : ∀ id < 7, echo.kind id = Kind.exit → id = 6) _ (hlt h)
  · exact (by decide : ∀ consumer < 7, ∀ id < 7, Input.node id ∈ echo.inputs consumer →
      echo.kind id = Kind.out → consumer = 6 ∧ echo.kind 6 = Kind.exit) _ (hlt h) _
        (hlt (h.feeds hfeeds)) hfeeds
  · rw [hwrite _ (hlt h) hkind]
    exact ⟨0, by decide, by decide⟩
  · rw [hwrite _ (hlt h) hkind, hwrite _ (hlt h') hkind']

/-- A host on which a value is the text of how it came about. -/
def Host.tracing : Host String String where
  literal text := text
  operate sign left right := "(" ++ left ++ sign.toString ++ right ++ ")"
  level := "lvl"
  update _ tag state _ := (tag ++ state, state)
  write _ _ value := (value, value)

theorem Graph.echo_realizes :
    echo.Playable 6 ∧ ∃ compiled final,
      (compile .standard {} echo 6).outcome = .ok compiled ∧
      compiled.unitTags = echo.unitTags 6 ∧
      Host.tracing.play .identifiers "n" compiled (fun _ => "wet") = some final ∧
      final.Realizes echo_wellFormed.acyclic 6 Host.tracing (fun _ => "wet")
        ((Layout.ofGraph echo 6 Kind.constant).naming {}).slot := by
  have hstem : Addressing.identifiers.Legible "n" := fun _ => by decide
  exact ⟨echo_playable, compile_realizes echo_wellFormed.acyclic (by decide) echo_playable
    (Options.usual_default .identifiers false) hstem Host.tracing fun _ => "wet"⟩

end Patchbay
