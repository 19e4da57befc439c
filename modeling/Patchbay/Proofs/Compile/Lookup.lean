import Mathlib.Tactic.IntervalCases
import Patchbay.Proofs.Compile.Units
import Patchbay.Proofs.Graph.Renaming

/-!
# What a compile asks of its registry

A compile looks up the kinds of the nodes that it goes through, except for constants, and the
fallback kind. Nothing else about the registry matters: neither what else is registered nor in which
order.

A compile fails if such a lookup and that of the fallback kind both find nothing, at the first node
where this happens (`Job.Sound.outcome_eq_error_iff`). A kind that is compiled like the fallback
kind may as well be registered with the schema of the fallback kind: this only takes away warnings.
So one pass of the assembler is compared with another whose entries carry other flags
(`Assembler.run_reflag`).
-/

namespace Patchbay

/-! ### Lookups that fail -/

theorem Registry.resolve?_eq_none_iff {r : Registry} {fallbackKind kind : String} :
    r.resolve? fallbackKind kind = none ↔
      r.contains kind = false ∧ r.contains fallbackKind = false := by
  rw [resolve?, ← schema?_eq_none_iff, ← schema?_eq_none_iff]
  cases r.schema? kind <;> simp

namespace Job

variable {job : Job} {id : NodeId}

/-- A node would have to be compiled, and neither its kind nor the fallback kind is registered. -/
structure Unhandled (job : Job) (id : NodeId) : Prop where
  kind_ne : job.graph.kind id ≠ job.options.constantKind
  kind : job.registry.contains (job.graph.kind id) = false
  fallback : job.registry.contains job.options.fallbackKind = false

/-- The first node of a job that is unhandled, in the order in which the nodes are computed. -/
def FirstUnhandled (job : Job) (id : NodeId) : Prop :=
  ∃ i : Nat, job.order[i]? = some id ∧ job.Unhandled id ∧
    ∀ j < i, ∀ other, job.order[j]? = some other → ¬ job.Unhandled other

theorem isStuck_iff : job.isStuck id ↔ job.Unhandled id := by
  have hconst : job.isConstant id = false ↔ job.graph.kind id ≠ job.options.constantKind :=
    decide_eq_false_iff_not
  rw [isStuck, Bool.and_eq_true, Bool.not_eq_true', Option.isNone_iff_eq_none]
  constructor
  · rintro ⟨hid, hschema⟩
    rw [schema?, hid, if_neg Bool.false_ne_true, Option.map_eq_none_iff,
      Registry.resolve?_eq_none_iff] at hschema
    exact ⟨hconst.mp hid, hschema.1, hschema.2⟩
  · rintro ⟨hkind, hunregistered, hfallback⟩
    refine ⟨hconst.mpr hkind, ?_⟩
    rw [schema?, hconst.mpr hkind, if_neg Bool.false_ne_true,
      Registry.resolve?_eq_none_iff.mpr ⟨hunregistered, hfallback⟩, Option.map_none]

theorem find?_isStuck_eq_some_iff :
    job.order.find? job.isStuck = some id ↔ job.FirstUnhandled id := by
  rw [List.find?_eq_some_iff_getElem]
  constructor
  · rintro ⟨hid, i, hi, rfl, hbefore⟩
    refine ⟨i, List.getElem?_eq_getElem hi, isStuck_iff.mp hid, fun j hj other hother => ?_⟩
    obtain ⟨-, rfl⟩ := List.getElem?_eq_some_iff.mp hother
    rw [← isStuck_iff]
    simpa using hbefore j hj
  · rintro ⟨i, hi, hid, hbefore⟩
    obtain ⟨hlt, rfl⟩ := List.getElem?_eq_some_iff.mp hi
    refine ⟨isStuck_iff.mpr hid, i, hlt, rfl, fun j hj => ?_⟩
    have hother := hbefore j hj _ (List.getElem?_eq_getElem (hj.trans hlt))
    rw [← isStuck_iff] at hother
    simpa using hother

/-- A job has a first unhandled node if it has any. -/
theorem Sound.exists_firstUnhandled_iff (h : job.Sound) : (∃ id, job.FirstUnhandled id) ↔
    ∃ id, job.graph.Reachable job.root id ∧ job.Unhandled id := by
  constructor
  · rintro ⟨id, i, hi, hid, -⟩
    exact ⟨id, h.mem_order.mp (List.mem_of_getElem? hi), hid⟩
  · rintro ⟨id, hid, hunhandled⟩
    have hfind : (job.order.find? job.isStuck).isSome :=
      List.find?_isSome.mpr ⟨id, h.mem_order.mpr hid, isStuck_iff.mpr hunhandled⟩
    obtain ⟨first, hfirst⟩ := Option.isSome_iff_exists.mp hfind
    exact ⟨first, find?_isStuck_eq_some_iff.mp hfirst⟩

theorem Sound.outcome_eq_error_iff (h : job.Sound) {error : CompileError} :
    job.compile.outcome = .error error ↔ ∃ id, job.FirstUnhandled id ∧
      error = .missingFallback (job.graph.kind id) job.options.fallbackKind := by
  constructor
  · intro herror
    cases hfind : job.order.find? job.isStuck with
    | none => cases herror.symm.trans (h.outcome_of_find?_eq_none hfind)
    | some id =>
      have houtcome := herror.symm.trans (h.outcome_of_find?_eq_some hfind)
      exact ⟨id, find?_isStuck_eq_some_iff.mp hfind, Except.error.inj houtcome⟩
  · rintro ⟨id, hid, rfl⟩
    exact h.outcome_of_find?_eq_some (find?_isStuck_eq_some_iff.mpr hid)

/-- When a compile fails, and with which error. -/
structure FailsAtUnhandled (job : Job) : Prop where
  /-- A compile fails exactly if the root depends on an unhandled node. -/
  fails_iff : (∃ error, job.compile.outcome = .error error) ↔
    ∃ id, job.graph.Reachable job.root id ∧ job.Unhandled id
  /-- The error is about the first unhandled node. -/
  error_iff : ∀ error, job.compile.outcome = .error error ↔ ∃ id, job.FirstUnhandled id ∧
    error = .missingFallback (job.graph.kind id) job.options.fallbackKind
  /-- A constant needs no schema. -/
  succeeds_of_registered : (∀ id, job.graph.Reachable job.root id →
    job.graph.kind id = job.options.constantKind ∨ job.registry.contains (job.graph.kind id)) →
      ∃ compiled, job.compile.outcome = .ok compiled
  /-- What a constant depends on does. -/
  fails_behind_constant : ∀ constant id, job.graph.Reachable job.root constant →
    job.graph.kind constant = job.options.constantKind → job.graph.Reachable constant id →
      job.Unhandled id → ∃ error, job.compile.outcome = .error error

/-- A compile fails exactly at the first node that would have to be compiled and that has no
schema, neither its own nor that of the fallback kind. -/
theorem Sound.failsAtUnhandled (h : job.Sound) : job.FailsAtUnhandled := by
  have hfails : (∃ error, job.compile.outcome = .error error) ↔
      ∃ id, job.graph.Reachable job.root id ∧ job.Unhandled id := by
    rw [← h.exists_firstUnhandled_iff]
    constructor
    · rintro ⟨error, herror⟩
      obtain ⟨id, hid, -⟩ := h.outcome_eq_error_iff.mp herror
      exact ⟨id, hid⟩
    · rintro ⟨id, hid⟩
      exact ⟨_, h.outcome_eq_error_iff.mpr ⟨id, hid, rfl⟩⟩
  refine ⟨hfails, fun error => h.outcome_eq_error_iff, fun hregistered => ?_, ?_⟩
  · cases houtcome : job.compile.outcome with
    | ok compiled => exact ⟨compiled, rfl⟩
    | error error =>
      obtain ⟨id, hid, hunhandled⟩ := hfails.mp ⟨error, houtcome⟩
      rcases hregistered id hid with hconst | hcontains
      · exact absurd hconst hunhandled.kind_ne
      · exact absurd hcontains (by simp [hunhandled.kind])
  · intro constant id hconstant _ hid hunhandled
    exact hfails.mpr ⟨id, hconstant.trans hid, hunhandled⟩

/-- A patch with a constant of an unregistered kind, and behind it a node that cannot be
compiled. -/
def hidden : Job where
  options := { constantKind := "number", fallbackKind := "nothing" }
  graph.nodes := #[
    { kind := "ghost" },
    { kind := "number", inputs := [.node 0], value := some 2 },
    { kind := Kind.mul, inputs := [.node 1, .immediate 3] },
    { kind := "phantom", inputs := [.node 2] }]
  root := 3

theorem hidden_failsAtUnhandled : hidden.Sound ∧ hidden.FailsAtUnhandled ∧
    hidden.compile.outcome = .error (.missingFallback "ghost" "nothing") := by
  have hwellFormed : hidden.graph.WellFormed := by decide
  have hsound : hidden.Sound := ⟨hwellFormed.acyclic, by decide⟩
  have hfails := hsound.failsAtUnhandled
  have hcontains : ∀ kind, hidden.registry.contains kind =
      (Operation.standard.find? (·.kind = kind)).isSome := by
    intro kind
    rw [← Registry.isSome_get?, Registry.get?_eq_find?, hidden, Registry.standard_operations]
  have hghost : hidden.Unhandled 0 :=
    ⟨by decide, by rw [hcontains]; decide, by rw [hcontains]; decide⟩
  have hfeeds : ∀ id < 3, hidden.graph.Feeds id (id + 1) := by decide
  have htwo : hidden.graph.Reachable 3 2 := .feeds .root (hfeeds 2 (by decide))
  have hone : hidden.graph.Reachable 3 1 := .feeds htwo (hfeeds 1 (by decide))
  obtain ⟨error, herror⟩ :=
    hfails.fails_behind_constant 1 0 hone rfl (hfeeds 0 (by decide)).reachable hghost
  obtain ⟨id, ⟨i, hi, hid, hbefore⟩, rfl⟩ := (hfails.error_iff error).mp herror
  have hlt : id < 4 := hsound.acyclic.reachable_lt_size hsound.root_lt
    (hsound.mem_order.mp (List.mem_of_getElem? hi))
  refine ⟨hsound, hfails, herror.trans ?_⟩
  interval_cases id
  · rfl
  · exact absurd rfl hid.kind_ne
  · have hkind := hid.kind
    rw [hcontains] at hkind
    revert hkind
    decide
  · -- the ghost comes before the phantom
    obtain ⟨j, hj, htwo⟩ := hsound.exists_lt_of_feeds hi (hfeeds 2 (by decide))
    obtain ⟨k, hk, hone⟩ := hsound.exists_lt_of_feeds htwo (hfeeds 1 (by decide))
    obtain ⟨l, hl, hzero⟩ := hsound.exists_lt_of_feeds hone (hfeeds 0 (by decide))
    exact absurd hghost (hbefore l (by omega) 0 hzero)

end Job

/-! ### Passes with other flags -/

/-- An entry, with another say on whether it is compiled like the fallback kind. -/
def Entry.reflag (flag : String → Bool → Bool) (e : Entry) : Entry :=
  { e with viaFallback := flag e.kind e.viaFallback }

/-- An assembly under way, with other flags. -/
def Progress.reflag (flag : String → Bool → Bool) (p : Progress) : Progress :=
  { p with entries := p.entries.map (·.reflag flag) }

/-- Another registry resolves a kind to the same schema, up to whether it is that of the fallback
kind. -/
def Registry.ResolvesAs (r r' : Registry) (fallbackKind : String) (flag : String → Bool → Bool)
    (kind : String) : Prop :=
  r'.resolve? fallbackKind kind =
    (r.resolve? fallbackKind kind).map fun resolved => (resolved.1, flag kind resolved.2)

variable {r r' : Registry} {options : Options} {g : Graph} {root : NodeId}
  {flag : String → Bool → Bool}

theorem Progress.extend_reflag (p : Progress) (e : Entry) :
    (p.reflag flag).extend (e.reflag flag) = (p.extend e).reflag flag := by
  rw [reflag, reflag, extend, extend, Array.map_push]
  rfl

/-- A pass with a registry that has the same schemas differs in the flags only. -/
theorem Assembler.run_reflag {a : Assembler} {nodes : List Node}
    (h : ∀ node ∈ nodes, a.layout.isConstant node = false →
      a.registry.ResolvesAs r a.fallbackKind flag node.kind) (position : Nat) (p : Progress) :
    { a with registry := r }.run nodes position (p.reflag flag) =
      ((a.run nodes position p).1.reflag flag, (a.run nodes position p).2) := by
  induction nodes generalizing position p with
  | nil => rfl
  | cons node nodes ih =>
    have hrest := ih fun other hother => h other (List.mem_cons_of_mem _ hother)
    rw [run, run]
    cases hconst : a.layout.isConstant node with
    | true => exact hrest (position + 1) p.skip
    | false =>
      have hresolve : r.resolve? a.fallbackKind node.kind = _ := h node List.mem_cons_self hconst
      simp only [hresolve, Bool.false_eq_true, if_false]
      cases a.registry.resolve? a.fallbackKind node.kind with
      | none => rfl
      | some resolved =>
        have hnode := hrest (position + 1)
          (p.extend (a.entry p position node resolved.1 resolved.2))
        rw [← Progress.extend_reflag] at hnode
        exact hnode

theorem Layout.assemble_reflag {l : Layout} (h : ∀ node ∈ l.nodes.toList,
      l.isConstant node = false → r.ResolvesAs r' options.fallbackKind flag node.kind) :
    l.assemble r' options =
      ⟨(l.assemble r options).entries.map (·.reflag flag), (l.assemble r options).failure⟩ := by
  have hstart : ({} : Progress).reflag flag = {} := by simp [Progress.reflag]
  have hrun := Assembler.run_reflag (a := l.assembler r options) h 0 {}
  rw [hstart] at hrun
  have hrun' : (l.assembler r' options).run l.nodes.toList 0 {} = _ := hrun
  rw [assemble_eq_run, assemble_eq_run, hrun', Progress.reflag, Array.toList_map]

theorem Layout.exists_of_mem_ofGraph {constantKind : String} {node : Node}
    (h : node ∈ (Layout.ofGraph g root constantKind).nodes.toList) :
    ∃ id, g.Reachable root id ∧ g.kind id = node.kind := by
  rw [ofGraph_nodes_toList] at h
  obtain ⟨id, hid, hnode⟩ := List.mem_filterMap.mp h
  exact ⟨id, Graph.reachable_of_mem_postorder hid, Graph.kind_of_node? hnode⟩

/-- Registries that resolve the same kinds to the same schemas assemble the same entries. -/
theorem assemble_ofGraph_reflag (flag : String → Bool → Bool) (h : ∀ id, g.Reachable root id →
      g.kind id ≠ options.constantKind → r.ResolvesAs r' options.fallbackKind flag (g.kind id)) :
    (Layout.ofGraph g root options.constantKind).assemble r' options =
      ⟨((Layout.ofGraph g root options.constantKind).assemble r options).entries.map
        (·.reflag flag),
        ((Layout.ofGraph g root options.constantKind).assemble r options).failure⟩ := by
  refine Layout.assemble_reflag fun node hmem hconst => ?_
  obtain ⟨id, hid, hkind⟩ := Layout.exists_of_mem_ofGraph hmem
  have hne : g.kind id ≠ options.constantKind := hkind ▸ of_decide_eq_false hconst
  exact hkind ▸ h id hid hne

/-! ### Compiles with other registries -/

/-- Registries with the same lookups, as far as a compile makes them, give the same compile. -/
theorem compile_eq_of_schema?_eq
    (hfallback : r.schema? options.fallbackKind = r'.schema? options.fallbackKind)
    (h : ∀ id, g.Reachable root id → g.kind id ≠ options.constantKind →
      r.schema? (g.kind id) = r'.schema? (g.kind id)) :
    compile r options g root = compile r' options g root := by
  have hassemble : (Layout.ofGraph g root options.constantKind).assemble r' options =
      (Layout.ofGraph g root options.constantKind).assemble r options := by
    rw [assemble_ofGraph_reflag (r := r) fun _ viaFallback => viaFallback]
    · simp [Entry.reflag]
    · intro id hid hkind
      rw [Registry.ResolvesAs, Registry.resolve?, Registry.resolve?, h id hid hkind, hfallback]
      exact Option.map_id'.symm
  rw [compile, compile, hassemble]

/-- A kind that is registered with the schema of the fallback kind resolves to what it resolved to
before, without falling back. -/
theorem Registry.resolvesAs_register {fallbackKind : String} {operation : Operation}
    (hkind : r.contains operation.kind = false)
    (hfallback : r.schema? fallbackKind = some operation.schema) (kind : String) :
    r.ResolvesAs (r.register operation) fallbackKind
      (fun kind viaFallback => viaFallback && kind ≠ operation.kind) kind := by
  have hnone : r.schema? operation.kind = none := schema?_eq_none_iff.mpr hkind
  have hne : operation.kind ≠ fallbackKind := by
    rintro rfl
    cases hnone.symm.trans hfallback
  rw [ResolvesAs, resolve?, resolve?, schema?_register, schema?_register, if_neg hne, hfallback]
  by_cases heq : operation.kind = kind
  · rw [if_pos heq, ← heq, hnone]
    simp
  · rw [if_neg heq]
    cases r.schema? kind with
    | none => simp [Ne.symm heq]
    | some schema => rfl

/-- Registering a kind with the schema that it falls back to makes no difference to the outcome. -/
theorem outcome_register_of_fallback {operation : Operation}
    (hkind : r.contains operation.kind = false)
    (hfallback : r.schema? options.fallbackKind = some operation.schema) :
    (compile (r.register operation) options g root).outcome =
      (compile r options g root).outcome := by
  have hassemble : (Layout.ofGraph g root options.constantKind).assemble (r.register operation)
      options = _ := assemble_ofGraph_reflag _ fun id _ _ =>
    Registry.resolvesAs_register hkind hfallback (g.kind id)
  rw [compile_outcome, compile_outcome, compile_emitted, compile_emitted, hassemble,
    List.filterMap_map, List.filterMap_map]
  rfl

/-- The outcome of a compile is decided by what the registry has for the fallback kind and for the
kinds of the nodes that are compiled. What else is registered, and in which order, does not matter,
and neither does whether a kind falls back to a schema or is registered with it. -/
theorem compile_eq_of_lookups (options : Options) (g : Graph) (root : NodeId) :
    (∀ r r' : Registry, r.schema? options.fallbackKind = r'.schema? options.fallbackKind →
      (∀ id, g.Reachable root id → g.kind id ≠ options.constantKind →
        r.schema? (g.kind id) = r'.schema? (g.kind id)) →
      compile r options g root = compile r' options g root) ∧
    ∀ (r : Registry) (operation : Operation), r.contains operation.kind = false →
      r.schema? options.fallbackKind = some operation.schema →
      (compile (r.register operation) options g root).outcome =
        (compile r options g root).outcome :=
  ⟨fun _ _ => compile_eq_of_schema?_eq, fun _ _ => outcome_register_of_fallback⟩

/-- A tuner, which `Job.metered` does not use. -/
def Operation.tuner : Operation :=
  ⟨"tuner", "Tuner", .custom, .stateful "Tuner" (.builtin .unitUpdate)⟩

/-- A wobble that is noise. -/
def Operation.wobble : Operation :=
  ⟨"wobble", "Wobble", .source, .stateful "Noise" (.builtin .unitUpdate)⟩

theorem metered_compile_eq :
    (compile ([.tuner, .handmade, .meter].foldl Registry.register .standard) Job.metered.options
        Job.metered.graph 7 = Job.metered.compile) ∧
      Job.metered.registry.contains "wobble" = false ∧
      (compile (Job.metered.registry.register .wobble) Job.metered.options Job.metered.graph
        7).outcome = Job.metered.compile.outcome := by
  have hwellFormed : Job.metered.graph.WellFormed := by decide
  have hkinds : ∀ id < 8, Job.metered.graph.kind id ≠ "tuner" := by decide
  have hschema : ∀ kind, kind ≠ "tuner" →
      ([Operation.tuner, .handmade, .meter].foldl Registry.register .standard).schema? kind =
        Job.metered.registry.schema? kind := by
    intro kind hkind
    have htuner : Operation.tuner.kind ≠ kind := Ne.symm hkind
    simp only [Job.metered, List.foldl_cons, List.foldl_nil, Registry.schema?_register,
      if_neg htuner]
    by_cases hmeter : Operation.meter.kind = kind
    · have hne : Operation.handmade.kind ≠ kind := hmeter ▸ by decide
      rw [if_pos hmeter, if_neg hne, if_pos hmeter]
    · rw [if_neg hmeter, if_neg hmeter]
  have hwobble : Job.metered.registry.contains "wobble" = false := by
    rw [← Registry.schema?_eq_none_iff, Job.metered, Registry.schema?_foldl_register
      (by simp [Operation.meter, Operation.handmade]; decide), Registry.standard_schema?]
    rfl
  have hnoise : Job.metered.registry.schema? Kind.noise = some Operation.wobble.schema := by
    rw [Job.metered, Registry.schema?_standard (.unit "Noise") rfl
      (by simp [Operation.meter, Operation.handmade]; decide)]
    rfl
  have h := compile_eq_of_lookups Job.metered.options Job.metered.graph 7
  refine ⟨h.1 _ _ (hschema _ (by decide)) fun id hid _ => hschema _ (hkinds id ?_), hwobble,
    h.2 _ .wobble hwobble hnoise⟩
  exact hwellFormed.acyclic.reachable_lt_size (by decide) hid

end Patchbay
