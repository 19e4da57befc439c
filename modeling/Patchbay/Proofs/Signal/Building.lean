import Patchbay.Proofs.Signal.Loops

/-!
# What scripts build is well formed

Combinators only refer to nodes that are there. Nothing checks this: a signal is a place in a table
and could as well have been made up. But a script starts from nothing, so every signal in its scope
comes from a step before, and its places lie within the table (`Signal.Within`). Tables only grow,
so they stay there.

`Build.Ensures` says what an action does wherever it is run from some table on. It is closed under
sequencing (`Build.Ensures.bind`), which is all that the combinators are made of. A property of
signals that they all pass on (`Signal.Inherited`) is one that every signal of a script has
(`Script.ensures_run`). Unlike what is said about feedback loops, this holds for every script,
whatever kinds it names and whatever it detaches (`Script.ensures_runExit`).
-/

namespace Patchbay

variable {α β : Type} {g g' : Graph} {n : Nat}

/-! ### Actions -/

namespace Build

variable {P : α → Graph → Prop} {Q : β → Graph → Prop} {action : Build α} {next : α → Build β}

/-- Run on any well-formed table that has grown from `g`, the action leaves a well-formed table that
has grown further, and gives a result with property `P` there. -/
def Ensures (g : Graph) (P : α → Graph → Prop) (action : Build α) : Prop :=
  ∀ g', g.Grows g' → g'.WellFormed →
    g'.Grows (action g').2 ∧ (action g').2.WellFormed ∧ P (action g').1 (action g').2

namespace Ensures

theorem pure {a : α} (h : ∀ g', g.Grows g' → P a g') : Ensures g P (pure a) :=
  fun g' hgrows hg => ⟨.refl g', hg, h g' hgrows⟩

/-- What comes next may rely on the result, and on the table having grown. -/
theorem bind (h : Ensures g P action)
    (hnext : ∀ {a g'}, g.Grows g' → P a g' → Ensures g' Q (next a)) :
    Ensures g Q (action >>= next) := by
  intro g' hgrows hg
  obtain ⟨hfirst, hwellFormed, hresult⟩ := h g' hgrows hg
  obtain ⟨hsecond, hrest⟩ := hnext (hgrows.trans hfirst) hresult _ (.refl _) hwellFormed
  exact ⟨hfirst.trans hsecond, hrest⟩

theorem node {node : Node} (h : ∀ producer, .node producer ∈ node.inputs → producer < g.size) :
    Ensures g (fun id g' => id < g'.size) (Build.node node) := by
  intro g' hgrows hg
  refine ⟨.add g' node, hg.add fun producer hmem => (h producer hmem).trans_le hgrows.size_le, ?_⟩
  change g'.size < (g'.add node).2.size
  rw [Graph.size_add]
  omega

end Ensures

end Build

/-! ### Signals -/

namespace Signal

variable {s : Signal} {arguments : List Signal} {body : Signal → Build Signal}

/-- The node and the pending writes of a signal are in a table. -/
structure Within (s : Signal) (g : Graph) : Prop where
  node_lt : s.node < g.size
  pending_lt : ∀ id ∈ s.pending, id < g.size

theorem Within.grow (h : s.Within g) (hgrows : g.Grows g') : s.Within g' where
  node_lt := h.node_lt.trans_le hgrows.size_le
  pending_lt id hid := (h.pending_lt id hid).trans_le hgrows.size_le

theorem lt_of_mem_allPending (h : ∀ s ∈ arguments, s.Within g) {id : NodeId}
    (hid : id ∈ allPending arguments) : id < g.size := by
  obtain ⟨s, hs, hmem⟩ := mem_allPending.mp hid
  exact (h s hs).pending_lt id hmem

/-- A signal that has just been made from a new node and from pending writes that were there. -/
theorem ensures_node {node : Node} {pending : List NodeId}
    (hinputs : ∀ producer, .node producer ∈ node.inputs → producer < g.size)
    (hpending : ∀ id ∈ pending, id < g.size) :
    Build.Ensures g Within (do return { node := ← Build.node node, pending }) :=
  (Build.Ensures.node hinputs).bind fun hgrows hid => .pure fun _ hgrows' =>
    { node_lt := hid.trans_le hgrows'.size_le
      pending_lt := fun id hmem => (hpending id hmem).trans_le (hgrows.trans hgrows').size_le }

theorem ensures_payload (kind : String) (value : Literal) :
    Build.Ensures g Within (payload kind value) :=
  ensures_node (fun _ hmem => by cases hmem) fun _ hmem => by cases hmem

theorem ensures_build (h : ∀ s ∈ arguments, s.Within g) (kind : String)
    (immediates : List Literal) : Build.Ensures g Within (build kind arguments immediates) := by
  refine ensures_node (fun producer hmem => ?_) fun id hid => lt_of_mem_allPending h hid
  rcases List.mem_append.mp hmem with hmem | hmem
  · obtain ⟨s, hs, heq⟩ := List.mem_map.mp hmem
    exact Input.node.inj heq ▸ (h s hs).node_lt
  · obtain ⟨value, -, heq⟩ := List.mem_map.mp hmem
    cases heq

/-- Closing a loop needs the read and what is fed back. -/
theorem ensures_write {fed result : Signal} {read : NodeId} {pending : List NodeId}
    (hread : read < g.size) (hfed : fed.Within g) (hresult : result.node < g.size)
    (hpending : ∀ id ∈ pending, id < g.size) :
    Build.Ensures g Within (do
      let write ← Build.node { kind := Kind.feedbackWrite, inputs := [.node fed.node, .node read] }
      return { node := result.node, pending := pending ++ [write] }) := by
  have hinputs : ∀ producer, Input.node producer ∈ [.node fed.node, .node read] →
      producer < g.size := by
    intro producer hmem
    rcases List.mem_pair.mp hmem with heq | heq
    · exact Input.node.inj heq ▸ hfed.node_lt
    · exact Input.node.inj heq ▸ hread
  refine (Build.Ensures.node hinputs).bind fun hgrows hwrite => .pure fun g' hgrows' => ?_
  have hle := (hgrows.trans hgrows').size_le
  refine ⟨hresult.trans_le hle, fun id hid => ?_⟩
  rcases List.mem_append.mp hid with hid | hid
  · exact (hpending id hid).trans_le hle
  · rw [List.mem_singleton.mp hid]
    exact hwrite.trans_le hgrows'.size_le

theorem ensures_feedback
    (hbody : ∀ {fed g'}, g.Grows g' → fed.Within g' → Build.Ensures g' Within (body fed)) :
    Build.Ensures g Within (feedback body) :=
  (Build.Ensures.node fun _ hmem => by cases hmem).bind fun hgrows hread =>
    (hbody hgrows ⟨hread, fun _ hmem => by cases hmem⟩).bind fun hgrows' hvalue =>
      ensures_write (hread.trans_le hgrows'.size_le) hvalue hvalue.node_lt hvalue.pending_lt

theorem ensures_feedbackWith (h : s.Within g) (kind : String)
    (hbody : ∀ {sum g'}, g.Grows g' → sum.Within g' → Build.Ensures g' Within (body sum)) :
    Build.Ensures g Within (feedbackWith kind s body) := by
  refine (Build.Ensures.node fun _ hmem => by cases hmem).bind fun {read g'} hgrows hread => ?_
  have harguments : ∀ t ∈ [s, { node := read }], t.Within g' := by
    intro t ht
    rcases List.mem_pair.mp ht with rfl | rfl
    · exact h.grow hgrows
    · exact ⟨hread, fun _ hmem => by cases hmem⟩
  refine (ensures_build harguments kind []).bind fun hgrows' hsum => ?_
  refine (hbody (hgrows.trans hgrows') hsum).bind fun hgrows'' hfed => ?_
  have hread' := hread.trans_le (hgrows'.trans hgrows'').size_le
  refine ensures_write hread' hfed (hsum.grow hgrows'').node_lt fun id hid => ?_
  exact (mem_mergePending.mp hid).elim ((hsum.grow hgrows'').pending_lt id) (hfed.pending_lt id)

theorem ensures_exit (h : ∀ s ∈ arguments, s.Within g) :
    Build.Ensures g (fun root g' => root < g'.size) (exit arguments) := by
  refine Build.Ensures.node fun producer hmem => ?_
  rcases List.mem_append.mp hmem with hmem | hmem
  · obtain ⟨id, hid, heq⟩ := List.mem_map.mp hmem
    exact Input.node.inj heq ▸ lt_of_mem_allPending h hid
  · obtain ⟨s, hs, heq⟩ := List.mem_map.mp hmem
    exact Input.node.inj heq ▸ (h s hs).node_lt

/-! ### Inherited properties -/

/-- A property that a signal has as soon as those have it that it is made from. In a loop, the
signal that the body starts from has it, and what the body makes has it if the body passes it on. -/
structure Inherited (P : Signal → Graph → Prop) : Prop where
  grow : ∀ {s g g'}, P s g → g.Grows g' → P s g'
  detach : ∀ {s g}, P s g → P s.detach g
  payload : ∀ {g} (kind : String) (value : Literal), Build.Ensures g P (payload kind value)
  build : ∀ {g arguments}, (∀ s ∈ arguments, P s g) → ∀ (kind : String) (immediates : List Literal),
    Build.Ensures g P (build kind arguments immediates)
  feedback : ∀ {g body}, (∀ {fed g'}, g.Grows g' → P fed g' → Build.Ensures g' P (body fed)) →
    Build.Ensures g P (feedback body)
  feedbackWith : ∀ {s g body}, P s g → ∀ (kind : String),
    (∀ {sum g'}, g.Grows g' → P sum g' → Build.Ensures g' P (body sum)) →
      Build.Ensures g P (feedbackWith kind s body)

theorem inherited_within : Inherited Within where
  grow := Within.grow
  detach h := ⟨h.node_lt, fun _ hmem => by cases hmem⟩
  payload := ensures_payload
  build := ensures_build
  feedback := ensures_feedback
  feedbackWith := ensures_feedbackWith

end Signal

/-! ### Scripts -/

namespace Script

variable {P : Signal → Graph → Prop} {scope : Vector Signal n}

/-- All signals in a scope have a property. -/
def ScopeHas (P : Signal → Graph → Prop) (scope : Vector Signal n) (g : Graph) : Prop :=
  ∀ s ∈ scope, P s g

namespace ScopeHas

theorem grow (hP : Signal.Inherited P) (h : ScopeHas P scope g) (hgrows : g.Grows g') :
    ScopeHas P scope g' :=
  fun s hs => hP.grow (h s hs) hgrows

theorem get (h : ScopeHas P scope g) (place : Fin n) : P (scope.get place) g :=
  h _ (Vector.getElem_mem place.isLt)

theorem push {s : Signal} (h : ScopeHas P scope g) (hs : P s g) :
    ScopeHas P (scope.push s) g := by
  intro t ht
  rcases Vector.mem_push.mp ht with ht | rfl
  · exact h t ht
  · exact hs

end ScopeHas

theorem Argument.ensures (hP : Signal.Inherited P) (h : ScopeHas P scope g)
    (argument : Argument n) : Build.Ensures g P (argument.run scope) := by
  cases argument with
  | signal place => exact .pure fun g' hgrows => hP.grow (h.get place) hgrows
  | literal value => exact hP.payload Kind.constant value

theorem Argument.ensures_mapM (hP : Signal.Inherited P) (h : ScopeHas P scope g)
    (arguments : List (Argument n)) :
    Build.Ensures g (fun signals g' => ∀ s ∈ signals, P s g') (arguments.mapM (·.run scope)) := by
  induction arguments generalizing g with
  | nil => exact .pure fun _ _ _ hs => by cases hs
  | cons argument arguments ih =>
    rw [List.mapM_cons]
    refine (argument.ensures hP h).bind fun hgrows hfirst => ?_
    refine (ih (h.grow hP hgrows)).bind fun hgrows' hrest => .pure fun g' hgrows'' s hs => ?_
    rcases List.mem_cons.mp hs with rfl | hs
    · exact hP.grow hfirst (hgrows'.trans hgrows'')
    · exact hP.grow (hrest s hs) hgrows''

mutual

theorem Step.ensures {P : Signal → Graph → Prop} {n : Nat} {scope : Vector Signal n} {g : Graph}
    (hP : Signal.Inherited P) (h : ScopeHas P scope g) :
    (step : Step n) → Build.Ensures g P (step.run scope)
  | .constant value => hP.payload Kind.constant value
  | .payload kind value => hP.payload kind value
  | .apply combinator arguments => by
    rw [Step.run]
    exact (Argument.ensures_mapM hP h arguments).bind fun _ hsignals =>
      hP.build hsignals combinator.kind combinator.immediates
  | .build kind arguments immediates => by
    rw [Step.run]
    exact (Argument.ensures_mapM hP h arguments).bind fun _ hsignals =>
      hP.build hsignals kind immediates
  | .detach place => by
    rw [Step.run]
    exact .pure fun g' hgrows => hP.detach (hP.grow (h.get place) hgrows)
  | .feedback body => by
    rw [Step.run]
    exact hP.feedback fun hgrows hfed => Body.ensures hP ((h.grow hP hgrows).push hfed) body
  | .feedbackWith kind place body => by
    rw [Step.run]
    exact hP.feedbackWith (h.get place) kind fun hgrows hsum =>
      Body.ensures hP ((h.grow hP hgrows).push hsum) body

theorem Body.ensures {P : Signal → Graph → Prop} {n : Nat} {scope : Vector Signal n} {g : Graph}
    (hP : Signal.Inherited P) (h : ScopeHas P scope g) :
    (body : Body n) → Build.Ensures g P (body.run scope)
  | .result argument => argument.ensures hP h
  | .step first rest => by
    rw [Body.run]
    exact (Step.ensures hP h first).bind fun hgrows hfirst =>
      Body.ensures hP ((h.grow hP hgrows).push hfirst) rest

end

theorem ensures_run (hP : Signal.Inherited P) (script : Script n) :
    Build.Ensures g (ScopeHas P) script.run := by
  induction script with
  | nil => exact .pure fun _ _ s hs => absurd hs (Vector.not_mem_empty s)
  | snoc front last ih =>
    refine ih.bind fun hgrows hscope => ?_
    refine (Step.ensures hP hscope last).bind fun hgrows' hlast => .pure fun g' hgrows'' => ?_
    exact ((hscope.grow hP hgrows').push hlast).grow hP hgrows''

/-- A script builds a well-formed table with its root in it. -/
theorem ensures_runExit (script : Script n) (outputs : List (Fin n)) :
    Build.Ensures g (fun root g' => root < g'.size) (script.runExit outputs) := by
  refine (script.ensures_run Signal.inherited_within).bind fun _ hscope => ?_
  refine Signal.ensures_exit fun s hs => ?_
  obtain ⟨place, -, rfl⟩ := List.mem_map.mp hs
  exact hscope.get place

end Script

end Patchbay
