import Patchbay.Proofs.Compile.Correspondence
import Patchbay.Proofs.Compile.Renaming
import Patchbay.Proofs.Graph.Inlining

/-!
# Constants and immediates

A constant is written in place, and so is an immediate. To replace one by the other shifts the
position of every node after it, and with it every table that is kept by position. With registers
none of this is seen in the program: slots and units are numbered by nodes that are not constants
(`Job.Inlinable.corresponds`). `compile_inlined` says that what comes out of a compile stays the
same when all constants without inputs become immediates, and hence when such constants are shared
between their uses or are made afresh for each use.

Identifiers are numbered by position, so with these it is not true. Nor is it if outputs are
constants, since exits look for nodes that are outputs.
-/

namespace Patchbay

/-! ### Filtered lists -/

section Lists

variable {α β : Type} {p : α → Bool}

/-- What is before an element that is kept. -/
theorem takeWhile_ne_filter [DecidableEq α] {a : α} (ha : p a) (l : List α) :
    (l.filter p).takeWhile (· ≠ a) = (l.takeWhile (· ≠ a)).filter p := by
  induction l with
  | nil => rfl
  | cons b l ih =>
    by_cases hb : b = a
    · subst hb
      simp [ha]
    · have hcons : ∀ l : List α, (b :: l).takeWhile (· ≠ a) = b :: l.takeWhile (· ≠ a) := fun l =>
        List.takeWhile_cons_of_pos (decide_eq_true hb)
      rw [hcons]
      cases hp : p b with
      | true => rw [List.filter_cons_of_pos hp, List.filter_cons_of_pos hp, hcons, ih]
      | false =>
        rw [List.filter_cons_of_neg (by simp [hp]), List.filter_cons_of_neg (by simp [hp]), ih]

theorem countP_filter_of_imp {q : α → Bool} (h : ∀ {a}, q a → p a) (l : List α) :
    (l.filter p).countP q = l.countP q := by
  rw [List.countP_filter]
  refine List.countP_congr fun a _ => ?_
  rw [Bool.and_eq_true]
  exact ⟨fun hq => hq.1, fun hq => ⟨hq, h hq⟩⟩

theorem filterMap_filter_of_eq_none {f : α → Option β} (h : ∀ {a}, p a = false → f a = none)
    (l : List α) : (l.filter p).filterMap f = l.filterMap f := by
  rw [List.filterMap_filter]
  refine List.filterMap_congr fun a _ => ?_
  cases hp : p a with
  | true => rfl
  | false => exact (h hp).symm

end Lists

namespace Job

variable {job : Job} {id : NodeId}

/-- Whether a node is a constant without inputs. -/
def isPlain (job : Job) (id : NodeId) : Bool :=
  job.graph.isPlain job.options.constantKind id

/-- The same job, with constants without inputs replaced by immediates. -/
def inlined (job : Job) : Job :=
  { job with graph := job.graph.inlined job.options.constantKind }

theorem isConstant_of_isPlain (h : job.isPlain id) : job.isConstant id :=
  decide_eq_true (Graph.kind_of_isPlain h)

theorem kind_inlined (job : Job) (id : NodeId) : job.inlined.graph.kind id = job.graph.kind id :=
  Graph.kind_inlined _ _ _

theorem isConstant_inlined (job : Job) (id : NodeId) :
    job.inlined.isConstant id = job.isConstant id :=
  isConstant_congr rfl (job.kind_inlined id)

/-- Among nodes that are not constants, none is left out. -/
theorem countP_filter_isPlain {q : NodeId → Bool}
    (hq : ∀ {id}, q id → job.isConstant id = false) (ids : List NodeId) :
    (ids.filter (!job.isPlain ·)).countP q = ids.countP q := by
  refine countP_filter_of_imp (fun {id} hid => ?_) ids
  rw [Bool.not_eq_true', Bool.eq_false_iff]
  intro hplain
  have hconst := isConstant_of_isPlain hplain
  rw [hq hid] at hconst
  cases hconst

/-- A job whose outcome does not show which of its literals are constants. -/
structure Inlinable (job : Job) : Prop where
  sound : job.Sound
  registers : job.options.addressing = .registers
  constantKind_ne_out : job.options.constantKind ≠ Kind.out
  root_ne_constantKind : job.graph.kind job.root ≠ job.options.constantKind

namespace Inlinable

theorem sound_inlined (h : job.Inlinable) : job.inlined.Sound where
  acyclic := h.sound.acyclic.inlined _
  root_lt := (Graph.size_inlined _ _).symm ▸ h.sound.root_lt

theorem isPlain_root (h : job.Inlinable) : job.isPlain job.root = false := by
  rw [Bool.eq_false_iff]
  exact fun hplain => h.root_ne_constantKind (Graph.kind_of_isPlain hplain)

theorem order_inlined (h : job.Inlinable) :
    job.inlined.order = job.order.filter (!job.isPlain ·) :=
  Graph.postorder_inlined h.sound.acyclic h.isPlain_root

theorem before_inlined (h : job.Inlinable) (hid : job.isPlain id = false) :
    job.inlined.before id = (job.before id).filter (!job.isPlain ·) := by
  rw [before, h.order_inlined, takeWhile_ne_filter (by simpa using hid)]
  rfl

/-- Nodes that are not written in place keep their registers and their units. -/
theorem corresponds (h : job.Inlinable) :
    job.Corresponds job.inlined (job.isPlain · = false) where
  compiler := rfl
  kind := by
    intro id _
    change ((job.graph.inlined _).node? id).map _ = _
    rw [Graph.node?_inlined, Option.map_map]
    rfl
  literal _ := Graph.literal_inlined _ _ _
  inputs := by
    intro id _
    change List.Forall₂ _ _ ((job.graph.inlined _).inputs id)
    rw [Graph.inputs_inlined, List.forall₂_map_right_iff]
    refine List.forall₂_same.mpr fun input _ => ?_
    cases input with
    | immediate value => exact .immediate value
    | node producer =>
      rw [Input.inlined]
      split
      · next hplain =>
        have hkind := Graph.kind_of_isPlain hplain
        exact .inlined (isConstant_of_isPlain hplain) (hkind ▸ h.constantKind_ne_out)
      · next hplain => exact .node (Bool.eq_false_iff.mpr hplain)
  slotIndex := by
    intro id hid
    have hregisters : job.inlined.options.addressing = .registers := h.registers
    rw [slotIndex, slotIndex, h.registers, hregisters]
    change (job.inlined.before id).countP _ = (job.before id).countP _
    simp only [isConstant_inlined]
    rw [h.before_inlined hid, countP_filter_isPlain (by simp)]
  unitIndex := by
    intro id hid
    have htag : ∀ id, job.inlined.tag? id = job.tag? id := fun id =>
      tag?_congr rfl (job.kind_inlined id)
    rw [unitIndex, unitIndex, h.before_inlined hid]
    simp only [htag]
    -- a constant has no unit, so none is left out of the count
    refine countP_filter_isPlain (fun {id} htag => ?_) _
    rw [Bool.eq_false_iff]
    intro hconst
    rw [tag?_of_isConstant hconst] at htag
    cases htag

/-- What constants do not have is the same for the nodes of both jobs. -/
theorem filterMap_order (h : job.Inlinable) {β : Type} {f f' : NodeId → Option β}
    (hf : ∀ {id}, job.isPlain id = false → f' id = f id)
    (hconst : ∀ {id}, job.isConstant id → f id = none) :
    job.inlined.order.filterMap f' = job.order.filterMap f := by
  have hshared : ∀ id ∈ job.order.filter (!job.isPlain ·), f' id = f id := fun id hid =>
    hf (by simpa using (List.mem_filter.mp hid).2)
  rw [h.order_inlined, List.filterMap_congr hshared]
  refine filterMap_filter_of_eq_none (fun {id} hplain => ?_) _
  exact hconst (isConstant_of_isPlain (by simpa using hplain))

theorem find?_isStuck (h : job.Inlinable) :
    job.inlined.order.find? job.inlined.isStuck = job.order.find? job.isStuck := by
  rw [h.order_inlined, List.find?_filter]
  refine List.find?_congr fun id _ => ?_
  have hstuck : job.inlined.isStuck id = job.isStuck id :=
    isStuck_congr rfl (job.kind_inlined id)
  rw [hstuck]
  cases hplain : job.isPlain id with
  | false => simp
  | true => simp [isStuck, isConstant_of_isPlain hplain]

theorem outcome_eq (h : job.Inlinable) (hregistry : job.registry.IsBuiltin) :
    job.inlined.compile.outcome = job.compile.outcome := by
  cases hstuck : job.order.find? job.isStuck with
  | some id =>
    have hstuck' := h.find?_isStuck.trans hstuck
    rw [h.sound_inlined.outcome_of_find?_eq_some hstuck', h.sound.outcome_of_find?_eq_some hstuck,
      kind_inlined]
    rfl
  | none =>
    have hstuck' := h.find?_isStuck.trans hstuck
    have hlines : job.inlined.compile.emitted.map (·.2) = job.compile.emitted.map (·.2) := by
      rw [h.sound_inlined.map_emitted_snd hregistry hstuck',
        h.sound.map_emitted_snd hregistry hstuck]
      exact h.filterMap_order (h.corresponds.line?_eq hregistry) line?_of_isConstant
    have hunits : job.inlined.order.filterMap job.inlined.unit? = job.order.filterMap job.unit? :=
      h.filterMap_order h.corresponds.unit?_eq fun hconst => by
        rw [unit?, tag?_of_isConstant hconst, Option.map_none]
    have hslotCount : job.inlined.order.countP (!job.inlined.isConstant ·) =
        job.order.countP (!job.isConstant ·) := by
      simp only [isConstant_inlined]
      rw [h.order_inlined, countP_filter_isPlain (by simp)]
    rw [h.sound_inlined.outcome_of_find?_eq_none hstuck', h.sound.outcome_of_find?_eq_none hstuck,
      result, result, hlines, hunits, hslotCount]

end Inlinable

end Job

/-! ### Sharing constants -/

namespace Graph

variable {σ : NodeId → NodeId} {g g' : Graph} {root root' id : NodeId} {kind : String}

/-- What `root` depends on in `g` is what `root'` depends on in `g'`, except that nodes have other
names and that constants without inputs may have been merged. -/
structure Merges (kind : String) (σ : NodeId → NodeId) (g : Graph) (root : NodeId) (g' : Graph)
    (root' : NodeId) : Prop where
  maps_root : σ root = root'
  node?_eq : ∀ {id}, g.Reachable root id → g'.node? (σ id) = (g.node? id).map (Node.rename σ)
  /-- No other nodes are given the same name. -/
  eq_or_isPlain : ∀ {id id'}, g.Reachable root id → g.Reachable root id' → σ id = σ id' →
    id = id' ∨ g.isPlain kind id

namespace Merges

theorem kind_eq (h : Merges kind σ g root g' root') (hid : g.Reachable root id) :
    g'.kind (σ id) = g.kind id := by
  rw [Graph.kind, Graph.kind, h.node?_eq hid]
  cases g.node? id <;> rfl

theorem literal_eq (h : Merges kind σ g root g' root') (hid : g.Reachable root id) :
    g'.literal (σ id) = g.literal id := by
  rw [literal, literal, h.node?_eq hid]
  cases g.node? id <;> rfl

theorem inputs_eq (h : Merges kind σ g root g' root') (hid : g.Reachable root id) :
    g'.inputs (σ id) = (g.inputs id).map (Input.rename σ) := by
  rw [inputs, inputs, h.node?_eq hid]
  cases g.node? id <;> rfl

theorem isPlain_eq (h : Merges kind σ g root g' root') (hid : g.Reachable root id) :
    g'.isPlain kind (σ id) = g.isPlain kind id := by
  rw [isPlain, isPlain, h.kind_eq hid, h.inputs_eq hid, List.isEmpty_map]

/-- To rename an input and to write it in place can be done in any order. -/
theorem inlined_rename (h : Merges kind σ g root g' root') {input : Input}
    (hinput : ∀ id, input = .node id → g.Reachable root id) :
    (input.rename σ).inlined g' kind = (input.inlined g kind).rename σ := by
  cases input with
  | immediate _ => rfl
  | node id =>
    have hid : g.Reachable root id := hinput id rfl
    rw [Input.rename, Input.inlined, Input.inlined, h.isPlain_eq hid, h.literal_eq hid]
    cases g.isPlain kind id <;> rfl

theorem node?_inlined_eq (h : Merges kind σ g root g' root') (hid : g.Reachable root id) :
    (g'.inlined kind).node? (σ id) = ((g.inlined kind).node? id).map (Node.rename σ) := by
  rw [node?_inlined, node?_inlined, h.node?_eq hid]
  cases hnode : g.node? id with
  | none => rfl
  | some node =>
    have hinputs : (node.inputs.map (Input.rename σ)).map (Input.inlined g' kind) =
        (node.inputs.map (Input.inlined g kind)).map (Input.rename σ) := by
      rw [List.map_map, List.map_map]
      refine List.map_congr_left fun input hinput => h.inlined_rename ?_
      rintro producer rfl
      have hfeeds : g.Feeds producer id := by rwa [Feeds, inputs_of_node? hnode]
      exact hid.feeds hfeeds
    simp only [Option.map_some, Node.rename, hinputs]

/-- Once constants are written in place, only names are left to differ. -/
theorem renames (h : Merges kind σ g root g' root') (hroot : g.isPlain kind root = false) :
    Renames σ (g.inlined kind) root (g'.inlined kind) root' := by
  have hreach : ∀ {id}, (g.inlined kind).Reachable root id →
      g.Reachable root id ∧ g.isPlain kind id = false := by
    intro id hid
    induction hid with
    | root => exact ⟨.root, hroot⟩
    | feeds _ hfeeds ih => exact (feeds_inlined.mp hfeeds).imp_left ih.1.feeds
  refine .of_injOn h.maps_root ?_ fun hid => h.node?_inlined_eq (hreach hid).1
  intro id hid id' hid' heq
  rcases h.eq_or_isPlain (hreach hid).1 (hreach hid').1 heq with heq | hplain
  · exact heq
  · rw [(hreach hid).2] at hplain
    cases hplain

end Merges

end Graph

theorem Job.Inlinable.merge {job : Job} (h : job.Inlinable) {σ : NodeId → NodeId} {g' : Graph}
    {root' : NodeId} (hg : g'.Acyclic)
    (hmerges : Graph.Merges job.options.constantKind σ job.graph job.root g' root') :
    ({ job with graph := g', root := root' } : Job).Inlinable where
  sound := by
    refine ⟨hg, ?_⟩
    change root' < g'.size
    rw [← Graph.node?_isSome, ← hmerges.maps_root, hmerges.node?_eq .root, Option.isSome_map,
      Graph.node?_isSome]
    exact h.sound.root_lt
  registers := h.registers
  constantKind_ne_out := h.constantKind_ne_out
  root_ne_constantKind := by
    change g'.kind root' ≠ job.options.constantKind
    rw [← hmerges.maps_root, hmerges.kind_eq .root]
    exact h.root_ne_constantKind

/-- Constants and immediates are interchangeable. With registers and built-in generators, a root
that is not a constant compiles to the same program, units and number of slots, or fails with the
same error, when all constants without inputs become immediates. It makes no difference either
whether such a constant is shared between its uses. -/
theorem compile_inlined {job : Job} (h : job.Sound) (hregistry : job.registry.IsBuiltin)
    (hregisters : job.options.addressing = .registers)
    (hconstant : job.options.constantKind ≠ Kind.out)
    (hroot : job.graph.kind job.root ≠ job.options.constantKind) :
    job.inlined.compile.outcome = job.compile.outcome ∧
      ∀ (σ : NodeId → NodeId) (g' : Graph) (root' : NodeId), g'.Acyclic →
        Graph.Merges job.options.constantKind σ job.graph job.root g' root' →
        (job.toCompiler.compile g' root').outcome = job.compile.outcome := by
  have hjob : job.Inlinable := ⟨h, hregisters, hconstant, hroot⟩
  refine ⟨hjob.outcome_eq hregistry, fun σ g' root' hg hmerges => ?_⟩
  let job' : Job := { job with graph := g', root := root' }
  have hjob' : job'.Inlinable := hjob.merge hg hmerges
  have hrenames := hmerges.renames hjob.isPlain_root
  calc
    job'.compile.outcome = job'.inlined.compile.outcome := (hjob'.outcome_eq hregistry).symm
    _ = job.inlined.compile.outcome :=
      congrArg Compilation.outcome (hrenames.compile_eq hregistry.ignoresNames job.options)
    _ = job.compile.outcome := hjob.outcome_eq hregistry

/-- Two tones of one pitch, with a constant for each of them. Another constant has an input. -/
def Graph.twinTones : Graph where
  nodes := #[
    { kind := Kind.constant, value := some 440 },
    { kind := Kind.sine, inputs := [.node 0] },
    { kind := Kind.constant, value := some 440 },
    { kind := Kind.saw, inputs := [.node 2] },
    { kind := Kind.constant, inputs := [.node 3] },
    { kind := Kind.mul, inputs := [.node 1, .node 3] },
    { kind := Kind.add, inputs := [.node 5, .node 4] }]

/-- The same tones with one constant for both. -/
def Graph.sharedPitch : Graph where
  nodes := #[
    { kind := Kind.constant, value := some 440 },
    { kind := Kind.sine, inputs := [.node 0] },
    { kind := Kind.saw, inputs := [.node 0] },
    { kind := Kind.constant, inputs := [.node 2] },
    { kind := Kind.mul, inputs := [.node 1, .node 2] },
    { kind := Kind.add, inputs := [.node 4, .node 3] }]

/-- Where the nodes went. -/
def Graph.sharePitch (id : NodeId) : NodeId :=
  [0, 1, 0, 2, 3, 4, 5].getD id 0

theorem Graph.twinTones_wellFormed : twinTones.WellFormed := by decide

theorem Graph.twinTones_merges :
    Merges Kind.constant sharePitch twinTones 6 sharedPitch 5 := by
  have hlt : ∀ {id}, twinTones.Reachable 6 id → id < 7 := fun hid =>
    twinTones_wellFormed.acyclic.reachable_lt_size (by decide) hid
  refine ⟨by decide, fun {id} hid => ?_, fun {id id'} hid hid' heq => ?_⟩
  · exact (by decide +kernel : ∀ id < 7, sharedPitch.node? (sharePitch id) =
      (twinTones.node? id).map (Node.rename sharePitch)) id (hlt hid)
  · exact (by decide : ∀ id < 7, ∀ id' < 7, sharePitch id = sharePitch id' →
      id = id' ∨ twinTones.isPlain Kind.constant id) id (hlt hid) id' (hlt hid') heq

/-- The two tones, with registers. -/
def Job.twinTones : Job where
  options := { addressing := .registers }
  graph := .twinTones
  root := 6

theorem Job.twinTones_compile_inlined :
    Job.twinTones.Sound ∧ Job.twinTones.registry.IsBuiltin ∧
      Graph.Merges Kind.constant Graph.sharePitch .twinTones 6 .sharedPitch 5 ∧
      Job.twinTones.inlined.compile.outcome = Job.twinTones.compile.outcome ∧
      (Job.twinTones.toCompiler.compile .sharedPitch 5).outcome =
        Job.twinTones.compile.outcome := by
  have hsound : Job.twinTones.Sound := ⟨Graph.twinTones_wellFormed.acyclic, by decide⟩
  have hwellFormed : Graph.sharedPitch.WellFormed := by decide
  obtain ⟨hinlined, hmerged⟩ := compile_inlined hsound Registry.standard_isBuiltin rfl (by decide)
    (by decide)
  exact ⟨hsound, Registry.standard_isBuiltin, Graph.twinTones_merges, hinlined,
    hmerged _ _ _ hwellFormed.acyclic Graph.twinTones_merges⟩

end Patchbay
