import Mathlib.Data.List.Basic
import Patchbay.Proofs.Compile.Assembly

/-!
# The entries of an assembly, one position at a time

An assembly makes its entries in one pass over a layout, with tables that grow as it goes. Here the
pass is taken apart. `Assembler.entryAt?` says what the entry of a position is from the layout
alone, and `Layout.assemble_entries` says that the assembly lists just these entries, up to the
first position whose kind has no schema.

The second half is about what a compile reports. `Compilation.emitted` reads the statements off the
events, each with the node that it is for; the program is these statements, one a line
(`compile_outcome`).
-/

namespace Patchbay

/-! ### Lists made position by position -/

section Positions

variable {β : Type} {f : Nat → Option β} {n i j : Nat}

/-- The positions before a given one, that one, and those after it. -/
private theorem range_eq_append (hi : i < n) :
    List.range n = List.range i ++ i :: (List.range (n - (i + 1))).map (i + 1 + ·) := by
  obtain ⟨k, rfl⟩ := Nat.exists_eq_add_of_le hi
  rw [List.range_add, List.range_succ, Nat.add_sub_cancel_left, List.append_assoc]
  rfl

/-- If contributions tell their position, a position can be found by it. -/
theorem filter_filterMap_range {position : β → Nat} (hf : ∀ {i b}, f i = some b → position b = i)
    (hi : i < n) : ((List.range n).filterMap f).filter (position · = i) = (f i).toList := by
  -- no other position contributes anything that tells position `i`
  have hnone : ∀ (is : List Nat), i ∉ is → (is.filterMap f).filter (position · = i) = [] := by
    intro is hmem
    refine List.filter_eq_nil_iff.mpr fun b hb => ?_
    obtain ⟨k, hk, hfk⟩ := List.mem_filterMap.mp hb
    rw [decide_eq_true_eq, hf hfk]
    rintro rfl
    exact hmem hk
  rw [range_eq_append hi, List.filterMap_append, List.filter_append, hnone _ (by simp),
    List.nil_append]
  cases hfi : f i with
  | none =>
    rw [List.filterMap_cons_none hfi, hnone _ (by simp; omega)]
    rfl
  | some b =>
    rw [List.filterMap_cons_some hfi, List.filter_cons_of_pos (by simp [hf hfi]),
      hnone _ (by simp; omega)]
    rfl

end Positions

/-! ### Entries by position -/

namespace Assembler

variable {a : Assembler} {n i j : Nat} {p : Progress} {node : Node} {schema : Schema}
  {viaFallback : Bool}

/-- What the node at a position is told, said without a pass over the layout. -/
def contextAt (a : Assembler) (i : Nat) (node : Node) (tag : Option String) : Context Operand where
  addressing := a.naming.addressing
  slot := .slot i
  node := ⟨node, a.layout.place i⟩
  position := i
  tag
  operands := node.inputs.map a.layout.operand
  producers := node.inputs.map a.layout.producer?
  unit := a.unitsBefore i
  nodeAt := a.layout.placedAt
  unitAt := fun j => if j < i then a.layout.nodes[j]?.bind (a.unit? j) else none
  operandsAt := fun j => if j < i then (a.layout.nodes[j]?.map a.operands).getD [] else []

/-- What compiling the node at a position gives, if it is not a constant and has a schema. -/
def entryAt? (a : Assembler) (i : Nat) : Option Entry :=
  a.layout.nodes[i]?.bind fun node =>
    if a.layout.isConstant node then none
    else (a.registry.resolve? a.fallbackKind node.kind).map fun (schema, viaFallback) =>
      { position := i
        kind := node.kind
        viaFallback
        operands := node.inputs.map a.layout.operand
        statement := schema.generator.bind
          (·.statement? a.naming.write (a.contextAt i node schema.tag))
        tag := schema.tag }

theorem entryAt?_of_constant (hnode : a.layout.nodes[i]? = some node)
    (hconst : a.layout.isConstant node = true) : a.entryAt? i = none := by
  rw [entryAt?, hnode, Option.bind_some, if_pos hconst]

theorem entryAt?_of_resolve? (hnode : a.layout.nodes[i]? = some node)
    (hconst : a.layout.isConstant node = false)
    (hschema : a.registry.resolve? a.fallbackKind node.kind = some (schema, viaFallback)) :
    a.entryAt? i = some
      { position := i
        kind := node.kind
        viaFallback
        operands := node.inputs.map a.layout.operand
        statement := schema.generator.bind
          (·.statement? a.naming.write (a.contextAt i node schema.tag))
        tag := schema.tag } := by
  rw [entryAt?, hnode, Option.bind_some, if_neg (by simp [hconst]), hschema]
  rfl

/-- Where an entry comes from. -/
theorem exists_of_entryAt? {e : Entry} (h : a.entryAt? i = some e) :
    ∃ node schema viaFallback, a.layout.nodes[i]? = some node ∧
      a.registry.resolve? a.fallbackKind node.kind = some (schema, viaFallback) ∧
      e = { position := i
            kind := node.kind
            viaFallback
            operands := node.inputs.map a.layout.operand
            statement := schema.generator.bind
              (·.statement? a.naming.write (a.contextAt i node schema.tag))
            tag := schema.tag } := by
  obtain ⟨node, hnode, h⟩ := Option.bind_eq_some_iff.mp h
  split at h
  · cases h
  · obtain ⟨⟨schema, viaFallback⟩, hschema, rfl⟩ := Option.map_eq_some_iff.mp h
    exact ⟨node, schema, viaFallback, hnode, hschema, rfl⟩

theorem position_of_entryAt? {e : Entry} (h : a.entryAt? i = some e) : e.position = i := by
  obtain ⟨node, schema, viaFallback, -, -, rfl⟩ := exists_of_entryAt? h
  rfl

/-- The tables of an assembly under way tell a node what the layout tells it. -/
theorem Aligned.context_eq (h : a.Aligned n p) (hnode : a.layout.nodes[n]? = some node)
    (tag : Option String) : a.context p n node tag = a.contextAt n node tag := by
  have hlt : n < a.layout.nodes.size := (Array.getElem?_eq_some_iff.mp hnode).1
  have hat : ∀ {j : Nat}, j < n → ∃ node, a.layout.nodes[j]? = some node := fun hj =>
    ⟨_, Array.getElem?_eq_getElem (hj.trans hlt)⟩
  have hunitAt : (fun j => p.unitAt[j]?.join) = (a.contextAt n node tag).unitAt := by
    funext j
    simp only [contextAt]
    split
    · next hj =>
      obtain ⟨other, hother⟩ := hat hj
      rw [h.unitAt hj hother, hother]
      rfl
    · next hj =>
      -- the table does not reach as far as this
      rw [Array.getElem?_eq_none (by rw [h.unitAt_size]; omega)]
      rfl
  have hoperandsAt : (fun j => p.operandsAt[j]?.getD []) = (a.contextAt n node tag).operandsAt := by
    funext j
    simp only [contextAt]
    split
    · next hj =>
      obtain ⟨other, hother⟩ := hat hj
      rw [h.operandsAt hj hother, hother]
      rfl
    · next hj =>
      rw [Array.getElem?_eq_none (by rw [h.operandsAt_size]; omega)]
      rfl
  rw [context, hunitAt, hoperandsAt, h.units]
  rfl

/-- The tables and the entries of an assembly that has passed `n` positions. -/
structure Listed (a : Assembler) (n : Nat) (p : Progress) : Prop where
  aligned : a.Aligned n p
  entries : p.entries.toList = (List.range n).filterMap a.entryAt?

theorem listed_keeps (a : Assembler) : a.Keeps a.layout.nodes.toList a.Listed where
  skip := by
    intro i node p hnode hconst hp
    rw [Array.getElem?_toList] at hnode
    refine ⟨hp.aligned.skip hnode hconst, ?_⟩
    rw [List.range_succ, List.filterMap_append, ← hp.entries, List.filterMap_cons_none
      (entryAt?_of_constant hnode hconst), List.filterMap_nil, List.append_nil]
    rfl
  extend := by
    intro i node p schema viaFallback hnode hconst hschema hp
    rw [Array.getElem?_toList] at hnode
    refine ⟨hp.aligned.extend hnode hconst hschema, ?_⟩
    have hentry : a.entryAt? i = some (a.entry p i node schema viaFallback) := by
      rw [entryAt?_of_resolve? hnode hconst hschema, entry, hp.aligned.context_eq hnode]
      rfl
    rw [List.range_succ, List.filterMap_append, ← hp.entries, List.filterMap_cons_some hentry,
      List.filterMap_nil, Progress.extend, Array.toList_push]

end Assembler

namespace Layout

/-- What assembles a layout. -/
def assembler (l : Layout) (registry : Registry) (options : Options) : Assembler :=
  ⟨registry, options.fallbackKind, l, l.naming options⟩

variable {l : Layout} {registry : Registry} {options : Options}

theorem assemble_eq_run (l : Layout) (registry : Registry) (options : Options) :
    l.assemble registry options =
      ⟨((l.assembler registry options).run l.nodes.toList 0 {}).1.entries.toList,
        ((l.assembler registry options).run l.nodes.toList 0 {}).2⟩ := rfl

/-- An assembly lists the entries of the positions in order. It goes to the end, or stops at a node
that is not a constant and has no schema. -/
theorem assemble_entries (l : Layout) (registry : Registry) (options : Options) : ∃ n : Nat,
    (l.assemble registry options).entries =
        (List.range n).filterMap (l.assembler registry options).entryAt? ∧
      match (l.assemble registry options).failure with
      | none => n = l.nodes.size
      | some kind => ∃ node, l.nodes[n]? = some node ∧ l.isConstant node = false ∧
          registry.resolve? options.fallbackKind node.kind = none ∧ node.kind = kind := by
  have hends := Assembler.run_invariant (l.assembler registry options).listed_keeps
    ⟨Assembler.Aligned.zero _, rfl⟩
  have hlayout : (l.assembler registry options).layout = l := rfl
  rw [hlayout] at hends
  rw [assemble_eq_run]
  match hrun : (l.assembler registry options).run l.nodes.toList 0 {} with
  | (p, none) =>
    rw [hrun] at hends
    exact ⟨l.nodes.toList.length, hends.entries, Array.length_toList⟩
  | (p, some kind) =>
    rw [hrun] at hends
    obtain ⟨i, node, hnode, hconst, hnone, hkind, hp⟩ := hends
    rw [Array.getElem?_toList] at hnode
    exact ⟨i, hp.entries, node, hnode, hconst, hnone, hkind⟩

theorem entries_of_failure_eq_none (h : (l.assemble registry options).failure = none) :
    (l.assemble registry options).entries =
      (List.range l.nodes.size).filterMap (l.assembler registry options).entryAt? := by
  obtain ⟨n, hentries, hend⟩ := l.assemble_entries registry options
  rw [h] at hend
  rw [hentries, hend]

end Layout

/-! ### What a compile reports -/

/-- The statement that an event reports, and the node that it is for. -/
def Event.emission? (e : Event) : Option (Subject × String) :=
  e.subject.map (·, e.message)

/-- The statements that a compile has emitted, in order, each with the node that it is for. -/
def Compilation.emitted (c : Compilation) : List (Subject × String) :=
  c.events.filterMap Event.emission?

/-- The line of a node, with the node that it is for. -/
def Entry.emission? (e : Entry) (naming : Naming) : Option (Subject × String) :=
  (e.line? naming).map (⟨e.position, e.kind⟩, ·)

/-- What is emitted for a position tells that position. -/
theorem Assembler.position_of_emission? {a : Assembler} {i : Nat} {naming : Naming}
    {s : Subject × String} (h : (a.entryAt? i).bind (·.emission? naming) = some s) :
    s.1.position = i := by
  obtain ⟨e, he, hs⟩ := Option.bind_eq_some_iff.mp h
  obtain ⟨line, -, rfl⟩ := Option.map_eq_some_iff.mp hs
  exact position_of_entryAt? he

theorem Event.filterMap_ofEntry (fallbackKind : String) (e : Entry) (line? : Option String) :
    (Event.ofEntry fallbackKind e line?).filterMap Event.emission? =
      (line?.map fun line => (⟨e.position, e.kind⟩, line)).toList := by
  rw [ofEntry, List.filterMap_append]
  cases line? <;> split <;> rfl

/-- The events before any statement is made are of two kinds. -/
theorem Event.mem_ofLayout {options : Options} {rootKind : String} {l : Layout} {e : Event}
    (h : e ∈ ofLayout options rootKind l) :
    (∃ message, e = diagnostic options .scheduling message) ∨
      ∃ position kind, e = scheduled position kind := by
  rw [ofLayout, List.mem_append] at h
  rcases h with h | h
  · rcases List.mem_cons.mp h with rfl | h
    · exact .inl ⟨_, rfl⟩
    · exact .inl ⟨_, List.mem_singleton.mp h⟩
  · obtain ⟨i, hi, rfl⟩ := List.mem_mapIdx.mp h
    exact .inr ⟨_, _, rfl⟩

theorem Event.filterMap_ofLayout (options : Options) (rootKind : String) (l : Layout) :
    (Event.ofLayout options rootKind l).filterMap Event.emission? = [] := by
  refine List.filterMap_eq_nil_iff.mpr fun e he => ?_
  rcases mem_ofLayout he with ⟨message, rfl⟩ | ⟨position, kind, rfl⟩ <;> rfl

section Compile

variable (registry : Registry) (options : Options) (g : Graph) (root : NodeId)

/-- A compile emits the lines of its entries, in order, whether it succeeds or not. -/
theorem compile_emitted : (compile registry options g root).emitted =
    ((Layout.ofGraph g root options.constantKind).assemble registry options).entries.filterMap
      (·.emission? ((Layout.ofGraph g root options.constantKind).naming options)) := by
  -- the warnings and the diagnostics are not about a node
  have hentries : ∀ (f : Entry × Option String → List Event) (entries : List Entry)
      (naming : Naming), (∀ e line?, f (e, line?) = Event.ofEntry options.fallbackKind e line?) →
      ((entries.map fun e => (e, e.line? naming)).flatMap f).filterMap Event.emission? =
        entries.filterMap (·.emission? naming) := by
    intro f entries naming hf
    induction entries with
    | nil => rfl
    | cons e entries ih =>
      rw [List.map_cons, List.flatMap_cons, List.filterMap_append, ih, hf,
        Event.filterMap_ofEntry, List.filterMap_cons]
      cases hline : e.line? naming <;> simp [Entry.emission?, hline]
  rw [Compilation.emitted, compile]
  split <;> simp only [List.filterMap_append, Event.filterMap_ofLayout, hentries, implies_true] <;>
    exact List.append_nil _

/-- What comes out of a compile: an error that names the kind without a schema, or the emitted
statements, one a line, with the units of the entries and the number of slots. -/
theorem compile_outcome : (compile registry options g root).outcome =
    match ((Layout.ofGraph g root options.constantKind).assemble registry options).failure with
    | some kind => .error (.missingFallback kind options.fallbackKind)
    | none => .ok
      { program :=
          String.intercalate "\n" ((compile registry options g root).emitted.map (·.2))
        units := ((Layout.ofGraph g root options.constantKind).assemble registry
          options).entries.filterMap
            (·.unit? ((Layout.ofGraph g root options.constantKind).naming options))
        slotCount := (Layout.ofGraph g root options.constantKind).slotCount } := by
  rw [compile_emitted, compile]
  cases ((Layout.ofGraph g root options.constantKind).assemble registry options).failure with
  | some kind => rfl
  | none =>
    have hline : ∀ (e : Entry) (naming : Naming),
        (e.emission? naming).map (·.2) = e.line? naming := by
      intro e naming
      rw [Entry.emission?, Option.map_map]
      exact Option.map_id'
    simp only [List.map_filterMap, List.filterMap_map, hline]
    rfl

/-- If the fallback kind has a schema, every patch compiles. -/
theorem exists_compiled_of_fallback (h : (registry.schema? options.fallbackKind).isSome) :
    ∃ compiled, (compile registry options g root).outcome = .ok compiled := by
  rw [compile_outcome]
  cases hfailure : ((Layout.ofGraph g root options.constantKind).assemble registry
      options).failure with
  | none => exact ⟨_, rfl⟩
  | some kind =>
    obtain ⟨n, -, hend⟩ := (Layout.ofGraph g root options.constantKind).assemble_entries registry
      options
    rw [hfailure] at hend
    obtain ⟨node, -, -, hnone, -⟩ := hend
    obtain ⟨fallback, hfallback⟩ := Option.isSome_iff_exists.mp h
    rw [Registry.resolve?, hfallback] at hnone
    split at hnone <;> cases hnone

end Compile

end Patchbay
