import Mathlib.Data.List.Nodup
import Patchbay.Proofs.Graph.Loop
import Patchbay.Signal.Script

/-!
# No feedback loop is lost

Nothing downstream of a feedback loop uses its write. That the write gets into a patch at all rests
on every combinator handing on the pending writes of its arguments. `Signal.CarriesLoops` is what
has to be true of each signal on the way: every loop that it depends on, directly or through one of
its pending writes, is still open around the current place, or is closed by a pending write of the
signal itself.

A combinator makes such signals from such signals, and a loop does if its body does (`Built.add`,
`Built.close`). Scripts can nest loops to any depth, use outer signals inside a body, and ignore the
value that is fed back; the induction over steps and bodies (`Step.built`, `Body.built`) covers all
of this. At the root no loop is open, so everything is closed (`Script.runExit_closes_loops`).
-/

namespace Patchbay

variable {g g' : Graph} {opens opens' : List NodeId} {read write id : NodeId}

/-! ### Merging pending writes -/

theorem mergePending_cons (known more : List NodeId) (id : NodeId) :
    mergePending known (id :: more) =
      mergePending (if id ∈ known then known else known ++ [id]) more := rfl

/-- Merging appends what is new, each node where it first occurs. -/
theorem mergePending_eq (known more : List NodeId) :
    mergePending known more = known ++ (more.filter (· ∉ known)).eraseDups := by
  induction more generalizing known with
  | nil => simp [mergePending]
  | cons id more ih =>
    rw [mergePending_cons, ih]
    by_cases hid : id ∈ known
    · simp [hid]
    · have hrest : more.filter (· ∉ known ++ [id]) =
          (more.filter (· ∉ known)).filter (!· == id) := by
        rw [List.filter_filter]
        refine List.filter_congr fun other _ => ?_
        by_cases hother : other = id <;> simp [hother, hid]
      rw [if_neg hid, hrest, List.filter_cons_of_pos (by simpa using hid), List.eraseDups_cons,
        List.append_assoc]
      rfl

theorem mem_mergePending {known more : List NodeId} :
    id ∈ mergePending known more ↔ id ∈ known ∨ id ∈ more := by
  rw [mergePending_eq, List.mem_append, List.mem_eraseDups, List.mem_filter]
  by_cases hid : id ∈ known <;> simp [hid]

theorem nodup_mergePending {known : List NodeId} (h : known.Nodup) (more : List NodeId) :
    (mergePending known more).Nodup := by
  induction more generalizing known with
  | nil => exact h
  | cons id more ih =>
    rw [mergePending_cons]
    refine ih ?_
    split
    · exact h
    · next hid =>
      rw [← List.concat_eq_append]
      exact h.concat hid

namespace Signal

variable {signals : List Signal}

theorem allPending_eq_mergePending (signals : List Signal) :
    allPending signals = mergePending [] (signals.flatMap (·.pending)) := by
  have hfoldl : ∀ known, signals.foldl (fun all signal => mergePending all signal.pending) known =
      mergePending known (signals.flatMap (·.pending)) := by
    induction signals with
    | nil => intro known; rfl
    | cons signal signals ih =>
      intro known
      rw [List.foldl_cons, ih, List.flatMap_cons]
      exact List.foldl_append.symm
  exact hfoldl []

/-- The pending writes of several signals are all of theirs, each where it first occurs. -/
theorem allPending_eq_eraseDups (signals : List Signal) :
    allPending signals = (signals.flatMap (·.pending)).eraseDups := by
  simp [allPending_eq_mergePending, mergePending_eq]

theorem mem_allPending : id ∈ allPending signals ↔ ∃ signal ∈ signals, id ∈ signal.pending := by
  rw [allPending_eq_eraseDups, List.mem_eraseDups, List.mem_flatMap]

theorem nodup_allPending (signals : List Signal) : (allPending signals).Nodup :=
  allPending_eq_mergePending signals ▸ nodup_mergePending List.nodup_nil _

/-! ### Signals that carry their loops -/

/-- A signal carries the loops behind it: a loop that it depends on, or that a pending write of it
depends on, is open or is closed by a pending write. -/
structure CarriesLoops (s : Signal) (g : Graph) (opens : List NodeId) : Prop where
  node_lt : s.node < g.size
  node_kind : g.kind s.node ≠ Kind.feedbackWrite
  pending_kind : ∀ write ∈ s.pending, g.kind write = Kind.feedbackWrite
  covered : ∀ start ∈ s.node :: s.pending, g.Covered opens s.pending start

namespace CarriesLoops

variable {s : Signal}

theorem pending_lt (h : s.CarriesLoops g opens) : ∀ write ∈ s.pending, write < g.size :=
  fun write hwrite => Graph.lt_size_of_kind (h.pending_kind write hwrite) (by decide)

/-- More loops may be open. -/
theorem mono (h : s.CarriesLoops g opens) (hopens : opens ⊆ opens') : s.CarriesLoops g opens' :=
  { h with covered := fun start hstart =>
      (h.covered start hstart).mono (List.Subset.refl _) fun _ hread => .inl (hopens hread) }

/-- Appending nodes changes nothing behind a signal. -/
theorem grow (h : s.CarriesLoops g opens) (hg : g.WellFormed) (hgrows : g.Grows g') :
    s.CarriesLoops g' opens where
  node_lt := h.node_lt.trans_le hgrows.size_le
  node_kind := by
    rw [hgrows.kind_eq h.node_lt]
    exact h.node_kind
  pending_kind write hwrite := by
    rw [hgrows.kind_eq (h.pending_lt write hwrite), h.pending_kind write hwrite]
  covered start hstart := by
    have hlt : start < g.size :=
      (List.mem_cons.mp hstart).elim (fun heq => heq ▸ h.node_lt) (h.pending_lt start)
    exact (h.covered start hstart).grow hg hgrows hlt h.pending_lt

end CarriesLoops

end Signal

/-- What building a signal from a wired table gives: a wired table again, with the same loops open,
and a signal that carries its loops. -/
structure Built (g : Graph) (opens : List NodeId) (result : Signal × Graph) : Prop where
  grows : g.Grows result.2
  wired : result.2.Wired opens
  carries : result.1.CarriesLoops result.2 opens

/-- A kind that has no part in feedback. -/
def Kind.Ordinary (kind : String) : Prop :=
  kind ≠ Kind.feedbackRead ∧ kind ≠ Kind.feedbackWrite

instance (kind : String) : Decidable (Kind.Ordinary kind) :=
  inferInstanceAs (Decidable (_ ∧ _))

namespace Built

variable {node : Node}

/-- What is built after some nodes have been appended is built from the start. -/
theorem of_grows {result : Signal × Graph} (h : g.Grows g') (hbuilt : Built g' opens result) :
    Built g opens result :=
  { hbuilt with grows := h.trans hbuilt.grows }

/-- A node that uses some signals carries the loops behind them. -/
theorem add (signals : List Signal) (h : g.Wired opens) (hkind : Kind.Ordinary node.kind)
    (hsignals : ∀ s ∈ signals, s.CarriesLoops g opens)
    (hinputs : ∀ producer, .node producer ∈ node.inputs → ∃ s ∈ signals, s.node = producer) :
    Built g opens ({ node := g.size, pending := Signal.allPending signals }, (g.add node).2) := by
  have hgrows := Graph.Grows.add g node
  have hcarries : ∀ s ∈ signals, s.CarriesLoops (g.add node).2 opens := fun s hs =>
    (hsignals s hs).grow h.wellFormed hgrows
  have hcovered : ∀ s ∈ signals, ∀ start ∈ s.node :: s.pending,
      (g.add node).2.Covered opens (Signal.allPending signals) start := by
    intro s hs start hstart
    refine ((hcarries s hs).covered start hstart).mono ?_ fun _ hread => .inl hread
    exact fun write hwrite => Signal.mem_allPending.mpr ⟨s, hs, hwrite⟩
  have hnew : (g.add node).2.kind g.size = node.kind := by rw [Graph.kind_add, if_pos rfl]
  refine ⟨hgrows, h.add_node hkind.1 hkind.2 ?_, ?_, ?_, ?_, ?_⟩
  · intro producer hmem
    obtain ⟨s, hs, rfl⟩ := hinputs producer hmem
    exact ⟨(hsignals s hs).node_lt, (hsignals s hs).node_kind⟩
  · rw [Graph.size_add]
    exact Nat.lt_succ_self _
  · rw [hnew]
    exact hkind.2
  · intro write hwrite
    obtain ⟨s, hs, hmem⟩ := Signal.mem_allPending.mp hwrite
    exact (hcarries s hs).pending_kind write hmem
  · intro start hstart
    rcases List.mem_cons.mp hstart with rfl | hstart
    · -- whatever the node depends on, one of the signals depends on
      refine .of_feeds (hnew ▸ hkind.1) fun producer hfeeds => ?_
      rw [Graph.Feeds, Graph.inputs_add, if_pos rfl] at hfeeds
      obtain ⟨s, hs, rfl⟩ := hinputs producer hfeeds
      exact hcovered s hs _ List.mem_cons_self
    · obtain ⟨s, hs, hmem⟩ := Signal.mem_allPending.mp hstart
      exact hcovered s hs start (List.mem_cons_of_mem _ hmem)

/-- The write of a loop goes with the pending writes of what the loop gives and of what is fed
back. -/
theorem close {s fed : Signal} {pending : List NodeId} (h : g.Wired (read :: opens))
    (hs : s.CarriesLoops g (read :: opens)) (hfed : fed.CarriesLoops g (read :: opens))
    (hpending : ∀ {write}, write ∈ pending ↔ write ∈ s.pending ∨ write ∈ fed.pending) :
    Built g opens ({ node := s.node, pending := pending ++ [g.size] },
      (g.add { kind := Kind.feedbackWrite, inputs := [.node fed.node, .node read] }).2) := by
  have hgrows := Graph.Grows.add g
    { kind := Kind.feedbackWrite, inputs := [.node fed.node, .node read] }
  have hwired := h.add_write hfed.node_lt hfed.node_kind
  set g' := (g.add { kind := Kind.feedbackWrite, inputs := [.node fed.node, .node read] }).2
    with hg'
  have hs := hs.grow h.wellFormed hgrows
  have hfed := hfed.grow h.wellFormed hgrows
  have hnew : g'.kind g.size = Kind.feedbackWrite := by rw [hg', Graph.kind_add, if_pos rfl]
  have hcloses : ∃ write ∈ pending ++ [g.size], g'.Closes write read :=
    ⟨g.size, by simp, Graph.closes_add.mpr (.inr ⟨rfl, rfl, rfl⟩)⟩
  -- behind either signal, the loop that was open is closed now
  have hcovered : ∀ {t : Signal}, t.CarriesLoops g' (read :: opens) → t.pending ⊆ pending →
      ∀ start ∈ t.node :: t.pending, g'.Covered opens (pending ++ [g.size]) start := by
    intro t ht hsub start hstart
    refine (ht.covered start hstart).mono (List.subset_append_of_subset_left _ hsub) ?_
    intro other hopen
    rcases List.mem_cons.mp hopen with rfl | hopen
    · exact .inr hcloses
    · exact .inl hopen
  have hcoveredResult := hcovered hs fun _ hwrite => hpending.mpr (.inl hwrite)
  have hcoveredFed := hcovered hfed fun _ hwrite => hpending.mpr (.inr hwrite)
  refine ⟨hgrows, hwired, hs.node_lt, hs.node_kind, ?_, ?_⟩
  · intro write hwrite
    rcases List.mem_append.mp hwrite with hwrite | hwrite
    · exact (hpending.mp hwrite).elim (hs.pending_kind write) (hfed.pending_kind write)
    · rw [List.mem_singleton.mp hwrite, hnew]
  · intro start hstart
    rcases List.mem_cons.mp hstart with rfl | hstart
    · exact hcoveredResult _ List.mem_cons_self
    rcases List.mem_append.mp hstart with hstart | hstart
    · rcases hpending.mp hstart with hstart | hstart
      · exact hcoveredResult start (List.mem_cons_of_mem _ hstart)
      · exact hcoveredFed start (List.mem_cons_of_mem _ hstart)
    · -- the write depends on what is fed back and on its read, which depends on nothing
      obtain rfl := List.mem_singleton.mp hstart
      refine .of_feeds (by rw [hnew]; decide) fun producer hfeeds => ?_
      rw [Graph.Feeds, hg', Graph.inputs_add, if_pos rfl] at hfeeds
      rcases List.mem_pair.mp hfeeds with heq | heq
      · obtain rfl := Input.node.inj heq
        exact hcoveredFed _ List.mem_cons_self
      · obtain rfl := Input.node.inj heq
        have hkind := h.opens_kind List.mem_cons_self
        have hlt := Graph.lt_size_of_kind hkind (by decide)
        exact .of_read (hwired.read_inputs ((hgrows.kind_eq hlt).trans hkind)) (.inr hcloses)

end Built

/-! ### Building -/

/-- A body builds signals that carry their loops, wherever it is run from here on. -/
def BodyBuilds (g : Graph) (opens : List NodeId) (body : Signal → Build Signal) : Prop :=
  ∀ ⦃g' opens' fed⦄, opens ⊆ opens' → g.Grows g' → g'.Wired opens' → fed.CarriesLoops g' opens' →
    Built g' opens' (body fed g')

namespace Signal

variable {kind : String} {body : Signal → Build Signal}

theorem built_payload (h : g.Wired opens) (hkind : Kind.Ordinary kind) (value : Literal) :
    Built g opens (payload kind value g) :=
  Built.add [] h hkind (fun _ hs => by cases hs) (fun _ hmem => by cases hmem)

theorem built_build {arguments : List Signal} (h : g.Wired opens) (hkind : Kind.Ordinary kind)
    (harguments : ∀ s ∈ arguments, s.CarriesLoops g opens) (immediates : List Literal) :
    Built g opens (build kind arguments immediates g) := by
  refine Built.add arguments h hkind harguments fun producer hmem => ?_
  rcases List.mem_append.mp hmem with hmem | hmem
  · obtain ⟨s, hs, heq⟩ := List.mem_map.mp hmem
    exact ⟨s, hs, Input.node.inj heq⟩
  · obtain ⟨value, -, heq⟩ := List.mem_map.mp hmem
    cases heq

/-- A new read carries its own loop, which is open. -/
theorem carriesLoops_read (h : g.Wired opens) :
    CarriesLoops { node := g.size } (g.add { kind := Kind.feedbackRead }).2 (g.size :: opens) := by
  have hkind : (g.add { kind := Kind.feedbackRead }).2.kind g.size = Kind.feedbackRead := by
    rw [Graph.kind_add, if_pos rfl]
  refine ⟨?_, ?_, (fun _ hwrite => by cases hwrite), ?_⟩
  · rw [Graph.size_add]
    exact Nat.lt_succ_self _
  · rw [hkind]
    decide
  · intro start hstart
    obtain rfl := List.mem_singleton.mp hstart
    exact .of_read (h.add_read.read_inputs hkind) (.inl List.mem_cons_self)

theorem built_feedback (h : g.Wired opens) (hbody : BodyBuilds g opens body) :
    Built g opens (feedback body g) := by
  have hgrows := Graph.Grows.add g { kind := Kind.feedbackRead }
  have hvalue := hbody (List.subset_cons_self _ _) hgrows h.add_read (carriesLoops_read h)
  -- the value is both what the loop gives and what is fed back
  have hclose := Built.close hvalue.wired hvalue.carries hvalue.carries or_self_iff.symm
  exact .of_grows (hgrows.trans hvalue.grows) hclose

theorem built_feedbackWith {s : Signal} (h : g.Wired opens) (hkind : Kind.Ordinary kind)
    (hs : s.CarriesLoops g opens) (hbody : BodyBuilds g opens body) :
    Built g opens (feedbackWith kind s body g) := by
  have hgrows := Graph.Grows.add g { kind := Kind.feedbackRead }
  have harguments : ∀ t ∈ [s, { node := g.size }],
      t.CarriesLoops (g.add { kind := Kind.feedbackRead }).2 (g.size :: opens) := by
    intro t ht
    rcases List.mem_pair.mp ht with rfl | rfl
    · exact (hs.grow h.wellFormed hgrows).mono (List.subset_cons_self _ _)
    · exact carriesLoops_read h
  have hsum := built_build h.add_read hkind harguments []
  have hfed := hbody (List.subset_cons_self _ _) (hgrows.trans hsum.grows) hsum.wired hsum.carries
  have hclose := Built.close hfed.wired (hsum.carries.grow hsum.wired.wellFormed hfed.grows)
    hfed.carries mem_mergePending
  exact .of_grows (hgrows.trans (hsum.grows.trans hfed.grows)) hclose

end Signal

/-! ### Scripts -/

namespace Script

variable {n : Nat} {scope : Vector Signal n}

mutual

/-- A step detaches no signal from its pending writes, and names no feedback kind. -/
def Step.Plain {n : Nat} : Step n → Prop
  | .constant _ => True
  | .payload kind _ => Kind.Ordinary kind
  | .apply _ _ => True
  | .build kind _ _ => Kind.Ordinary kind
  | .detach _ => False
  | .feedback body => body.Plain
  | .feedbackWith kind _ body => Kind.Ordinary kind ∧ body.Plain

/-- All steps of a body are plain. -/
def Body.Plain {n : Nat} : Body n → Prop
  | .result _ => True
  | .step first rest => first.Plain ∧ rest.Plain

end

/-- All steps of a script are plain. -/
def Plain : {n : Nat} → Script n → Prop
  | _, nil => True
  | _, snoc front last => front.Plain ∧ last.Plain

theorem ordinary_kind (combinator : Combinator) : Kind.Ordinary combinator.kind := by
  cases combinator <;> decide

theorem Argument.built (h : g.Wired opens) (hscope : ∀ s ∈ scope, s.CarriesLoops g opens)
    (argument : Argument n) : Built g opens (argument.run scope g) := by
  cases argument with
  | signal place => exact ⟨.refl g, h, hscope _ (Vector.getElem_mem place.isLt)⟩
  | literal value => exact Signal.built_payload h (by decide) value

theorem Argument.built_mapM (h : g.Wired opens) (hscope : ∀ s ∈ scope, s.CarriesLoops g opens)
    (arguments : List (Argument n)) :
    g.Grows (arguments.mapM (·.run scope) g).2 ∧
      (arguments.mapM (·.run scope) g).2.Wired opens ∧
      ∀ s ∈ (arguments.mapM (·.run scope) g).1,
        s.CarriesLoops (arguments.mapM (·.run scope) g).2 opens := by
  induction arguments generalizing g with
  | nil => exact ⟨.refl g, h, fun _ hs => by cases hs⟩
  | cons argument arguments ih =>
    have hfirst := argument.built h hscope
    obtain ⟨hgrows, hwired, hrest⟩ := ih hfirst.wired fun s hs =>
      (hscope s hs).grow h.wellFormed hfirst.grows
    rw [List.mapM_cons]
    refine ⟨hfirst.grows.trans hgrows, hwired, fun s hs => ?_⟩
    rcases List.mem_cons.mp hs with rfl | hs
    · exact hfirst.carries.grow hfirst.wired.wellFormed hgrows
    · exact hrest s hs

/-- A body run with one more signal in scope builds what it builds in any scope. -/
theorem Body.builds (h : g.Wired opens) (hscope : ∀ s ∈ scope, s.CarriesLoops g opens)
    {body : Body (n + 1)}
    (hbody : ∀ {scope : Vector Signal (n + 1)} {g opens}, g.Wired opens →
      (∀ s ∈ scope, s.CarriesLoops g opens) → Built g opens (body.run scope g)) :
    BodyBuilds g opens fun fed => body.run (scope.push fed) := by
  intro g' opens' fed hopens hgrows hwired hfed
  refine hbody hwired fun s hs => ?_
  rcases Vector.mem_push.mp hs with hs | rfl
  · exact ((hscope s hs).grow h.wellFormed hgrows).mono hopens
  · exact hfed

mutual

theorem Step.built {n : Nat} {scope : Vector Signal n} {g : Graph} {opens : List NodeId}
    (h : g.Wired opens) (hscope : ∀ s ∈ scope, s.CarriesLoops g opens) :
    (step : Step n) → step.Plain → Built g opens (step.run scope g)
  | .constant value, _ => Signal.built_payload h (by decide) value
  | .payload kind value, hplain => Signal.built_payload h hplain value
  | .apply combinator arguments, _ => by
    obtain ⟨hgrows, hwired, hsignals⟩ := Argument.built_mapM h hscope arguments
    exact .of_grows hgrows (Signal.built_build hwired (ordinary_kind combinator) hsignals _)
  | .build kind arguments immediates, hplain => by
    obtain ⟨hgrows, hwired, hsignals⟩ := Argument.built_mapM h hscope arguments
    exact .of_grows hgrows (Signal.built_build hwired hplain hsignals immediates)
  | .detach _, hplain => hplain.elim
  | .feedback body, hplain =>
    Signal.built_feedback h (Body.builds h hscope fun h hscope => Body.built h hscope body hplain)
  | .feedbackWith kind place body, hplain =>
    Signal.built_feedbackWith h hplain.1 (hscope _ (Vector.getElem_mem place.isLt))
      (Body.builds h hscope fun h hscope => Body.built h hscope body hplain.2)

theorem Body.built {n : Nat} {scope : Vector Signal n} {g : Graph} {opens : List NodeId}
    (h : g.Wired opens) (hscope : ∀ s ∈ scope, s.CarriesLoops g opens) :
    (body : Body n) → body.Plain → Built g opens (body.run scope g)
  | .result argument, _ => argument.built h hscope
  | .step first rest, hplain => by
    have hfirst := Step.built h hscope first hplain.1
    have hbody := Body.builds h hscope fun h hscope => Body.built h hscope rest hplain.2
    exact .of_grows hfirst.grows
      (hbody (List.Subset.refl _) hfirst.grows hfirst.wired hfirst.carries)

end

/-- The signals of a script carry their loops, and no loop is open. -/
theorem built {n : Nat} (script : Script n) (hplain : script.Plain) :
    (script.run {}).2.Wired [] ∧
      ∀ s ∈ (script.run {}).1, s.CarriesLoops (script.run {}).2 [] := by
  induction script with
  | nil => exact ⟨.empty, fun s hs => absurd hs (Vector.not_mem_empty s)⟩
  | snoc front last ih =>
    obtain ⟨hwired, hscope⟩ := ih hplain.1
    have hlast := Step.built hwired hscope last hplain.2
    refine ⟨hlast.wired, fun s hs => ?_⟩
    rcases Vector.mem_push.mp hs with hs | rfl
    · exact (hscope s hs).grow hwired.wellFormed hlast.grows
    · exact hlast.carries

end Script

/-! ### The root -/

/-- The loops behind a root are closed by the pending writes of some outputs. -/
structure Graph.LoopsClosed (g : Graph) (root : NodeId) (outputs : List Signal) : Prop where
  /-- Every read has exactly one write. -/
  read_closed : ∀ read, g.Reachable root read → g.kind read = Kind.feedbackRead →
    ∃! write, g.Loop root read write
  /-- Every write has a read. -/
  write_paired : ∀ write, g.Reachable root write → g.kind write = Kind.feedbackWrite →
    ∃ read, g.Loop root read write
  /-- Every write is an input of the root once, before all outputs. -/
  write_once : ∀ write, g.Reachable root write → g.kind write = Kind.feedbackWrite →
    ∃ before after, g.inputs root = before ++ .node write :: after ∧
      .node write ∉ before ∧ .node write ∉ after ∧ outputs.map (.node ·.node) <:+ after
  /-- The writes among the inputs of the root are the pending ones, each where it first occurs. -/
  writes_eq : (g.producers root).filter (g.kind · = Kind.feedbackWrite) =
    (outputs.flatMap (·.pending)).eraseDups

namespace Signal

variable {outputs : List Signal}

theorem grows_exit (g : Graph) (outputs : List Signal) : g.Grows (exit outputs g).2 :=
  Graph.Grows.add g _

theorem kind_exit (g : Graph) (outputs : List Signal) :
    (exit outputs g).2.kind (exit outputs g).1 = Kind.exit :=
  (Graph.kind_add g _ g.size).trans (if_pos rfl)

theorem inputs_exit (g : Graph) (outputs : List Signal) :
    (exit outputs g).2.inputs (exit outputs g).1 =
      (allPending outputs).map .node ++ outputs.map (.node ·.node) :=
  (Graph.inputs_add g _ g.size).trans (if_pos rfl)

theorem closes_exit : (exit outputs g).2.Closes write read ↔ g.Closes write read := by
  have hkind : Kind.exit ≠ Kind.feedbackWrite := by decide
  exact Graph.closes_add.trans (or_iff_left fun hnew => hkind hnew.2.1)

/-- The inputs of a root are the outputs and their pending writes. -/
theorem exists_output_of_feeds (h : (exit outputs g).2.Feeds id (exit outputs g).1) :
    id ∈ allPending outputs ∨ ∃ s ∈ outputs, s.node = id := by
  rw [Graph.Feeds, inputs_exit, List.mem_append] at h
  rcases h with hmem | hmem
  · obtain ⟨other, hmem, heq⟩ := List.mem_map.mp hmem
    exact .inl (Input.node.inj heq ▸ hmem)
  · obtain ⟨s, hs, heq⟩ := List.mem_map.mp hmem
    exact .inr ⟨s, hs, Input.node.inj heq⟩

theorem reachable_of_mem_allPending (hwrite : write ∈ allPending outputs) :
    (exit outputs g).2.Reachable (exit outputs g).1 write := by
  refine Graph.Feeds.reachable ?_
  rw [Graph.Feeds, inputs_exit]
  exact List.mem_append_left _ (List.mem_map_of_mem hwrite)

/-- The writes that a root depends on are pending: nothing else uses a write. -/
theorem mem_allPending_of_reachable (h : g.Wired [])
    (houtputs : ∀ s ∈ outputs, s.CarriesLoops g [])
    (hreach : (exit outputs g).2.Reachable (exit outputs g).1 write)
    (hkind : (exit outputs g).2.kind write = Kind.feedbackWrite) :
    write ∈ allPending outputs := by
  have hold : write < g.size → g.kind write = Kind.feedbackWrite := fun hlt =>
    ((grows_exit g outputs).kind_eq hlt).symm.trans hkind
  cases hreach with
  | root =>
    rw [kind_exit] at hkind
    exact absurd hkind (by decide)
  | @feeds id _ _ hfeeds =>
    by_cases hid : id = g.size
    · subst hid
      rcases exists_output_of_feeds hfeeds with hmem | ⟨s, hs, rfl⟩
      · exact hmem
      · exact absurd (hold (houtputs s hs).node_lt) (houtputs s hs).node_kind
    · have hfeeds' : g.Feeds write id := by
        rwa [Graph.Feeds, exit, Build.node, Graph.inputs_add, if_neg hid] at hfeeds
      exact absurd hfeeds' (h.write_unused (hold (h.wellFormed.acyclic.lt_size hfeeds')))

/-- The reads that a root depends on are closed by pending writes. -/
theorem exists_closes_of_reachable (h : g.Wired [])
    (houtputs : ∀ s ∈ outputs, s.CarriesLoops g [])
    (hreach : (exit outputs g).2.Reachable (exit outputs g).1 read)
    (hkind : (exit outputs g).2.kind read = Kind.feedbackRead) :
    ∃ write ∈ allPending outputs, (exit outputs g).2.Closes write read := by
  rcases Graph.reachable_iff.mp hreach with rfl | ⟨start, hfeeds, hreach⟩
  · rw [kind_exit] at hkind
    exact absurd hkind (by decide)
  have hstart : ∃ s ∈ outputs, start ∈ s.node :: s.pending := by
    rcases exists_output_of_feeds hfeeds with hmem | ⟨s, hs, rfl⟩
    · obtain ⟨s, hs, hstart⟩ := mem_allPending.mp hmem
      exact ⟨s, hs, List.mem_cons_of_mem _ hstart⟩
    · exact ⟨s, hs, List.mem_cons_self⟩
  obtain ⟨s, hs, hstart⟩ := hstart
  have hcarries := (houtputs s hs).grow h.wellFormed (grows_exit g outputs)
  rcases hcarries.covered start hstart read hreach hkind with hopen | ⟨write, hwrite, hcloses⟩
  · cases hopen
  · exact ⟨write, mem_allPending.mpr ⟨s, hs, hwrite⟩, hcloses⟩

/-- A root closes all loops behind its outputs. -/
theorem loopsClosed_exit (h : g.Wired []) (houtputs : ∀ s ∈ outputs, s.CarriesLoops g []) :
    (exit outputs g).2.LoopsClosed (exit outputs g).1 outputs := by
  have hgrows := grows_exit g outputs
  have hpending : ∀ write ∈ allPending outputs,
      (exit outputs g).2.kind write = Kind.feedbackWrite := by
    intro write hwrite
    obtain ⟨s, hs, hmem⟩ := mem_allPending.mp hwrite
    exact ((houtputs s hs).grow h.wellFormed hgrows).pending_kind write hmem
  have hnode : ∀ s ∈ outputs, (exit outputs g).2.kind s.node ≠ Kind.feedbackWrite := fun s hs =>
    ((houtputs s hs).grow h.wellFormed hgrows).node_kind
  refine ⟨?_, ?_, ?_, ?_⟩
  · intro read hread hkind
    obtain ⟨write, hwrite, hcloses⟩ := exists_closes_of_reachable h houtputs hread hkind
    refine ⟨write, ⟨reachable_of_mem_allPending hwrite, hcloses.1, hkind, hcloses.2⟩, ?_⟩
    intro write' hloop
    exact h.closes_unique (closes_exit.mp ⟨hloop.write_kind, hloop.paired⟩)
      (closes_exit.mp hcloses)
  · intro write hwrite hkind
    obtain ⟨s, hs, hmem⟩ :=
      mem_allPending.mp (mem_allPending_of_reachable h houtputs hwrite hkind)
    obtain ⟨value, read, hinputs, hread⟩ := h.write_inputs ((houtputs s hs).pending_kind write hmem)
    refine ⟨read, hwrite, hkind, ?_, ?_⟩
    · rw [hgrows.kind_eq (Graph.lt_size_of_kind hread (by decide)), hread]
    · rw [hgrows.inputs_eq ((houtputs s hs).pending_lt write hmem), hinputs]
      rfl
  · intro write hwrite hkind
    obtain ⟨before, after, hsplit⟩ :=
      List.append_of_mem (mem_allPending_of_reachable h houtputs hwrite hkind)
    have hnodup := nodup_allPending outputs
    rw [hsplit, List.nodup_middle, List.nodup_cons, List.mem_append, not_or] at hnodup
    refine ⟨before.map .node, after.map .node ++ outputs.map (.node ·.node), ?_, ?_, ?_,
      List.suffix_append _ _⟩
    · rw [inputs_exit, hsplit, List.map_append, List.map_cons, List.append_assoc]
      rfl
    · simpa using hnodup.1.1
    · intro hmem
      rcases List.mem_append.mp hmem with hmem | hmem
      · exact hnodup.1.2 (by simpa using hmem)
      · obtain ⟨s, hs, heq⟩ := List.mem_map.mp hmem
        exact hnode s hs (Input.node.inj heq ▸ hkind)
  · have hproducers : (exit outputs g).2.producers (exit outputs g).1 =
        allPending outputs ++ outputs.map (·.node) := by
      rw [Graph.producers, inputs_exit, List.filterMap_append, List.filterMap_map,
        List.filterMap_map]
      exact congrArg₂ (· ++ ·) List.filterMap_some (congrFun List.filterMap_eq_map _)
    rw [hproducers, List.filter_append, List.filter_eq_self.mpr (by simpa using hpending),
      List.filter_eq_nil_iff.mpr (by simpa using hnode), List.append_nil,
      allPending_eq_eraseDups]

end Signal

/-- No feedback loop is lost, closed twice or closed by the write of another. -/
theorem Script.runExit_closes_loops {n : Nat} (script : Script n) (hplain : script.Plain)
    (outputs : List (Fin n)) :
    (script.runExit outputs {}).2.LoopsClosed (script.runExit outputs {}).1
      (outputs.map (script.run {}).1.get) := by
  obtain ⟨hwired, hsignals⟩ := script.built hplain
  refine Signal.loopsClosed_exit hwired fun s hs => ?_
  obtain ⟨place, -, rfl⟩ := List.mem_map.mp hs
  exact hsignals _ (Vector.getElem_mem place.isLt)

/-- Three loops and two outputs that share them. One loop stands inside another, is closed around a
signal from outside, and ignores its own value for that of the loop around it. -/
def Script.nestedLoops : Script 5 :=
  .snoc (.snoc (.snoc (.snoc (.snoc .nil
    (.apply .sine [.literal 200]))
    (.feedbackWith Kind.add 0
      (.step (.apply .mul [.signal 1, .literal 2]) (.result (.signal 2)))))
    (.feedback
      (.step (.feedbackWith Kind.mul 1 (.result (.signal 2))) (.result (.signal 3)))))
    (.apply .out [.signal 2]))
    (.apply .out [.signal 1, .signal 2])

theorem Script.nestedLoops_closes_loops :
    nestedLoops.Plain ∧ ((nestedLoops.run {}).1.get 3).pending = [6, 10, 11] ∧
      (nestedLoops.runExit [3, 4] {}).2.LoopsClosed (nestedLoops.runExit [3, 4] {}).1
        ([3, 4].map (nestedLoops.run {}).1.get) := by
  have hplain : nestedLoops.Plain := by
    simp only [nestedLoops, Plain, Step.Plain, Body.Plain]
    decide
  exact ⟨hplain, by decide, runExit_closes_loops nestedLoops hplain [3, 4]⟩

end Patchbay
