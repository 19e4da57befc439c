import Patchbay.Proofs.Graph.Composition
import Patchbay.Proofs.Signal.Building

/-!
# Pending writes merge like sets

Pending writes are kept in lists, in the order in which they came up, and merging two lists is a
union: what is known stays in front, and what is new follows in its own order (`UnionLaws`). So it
does not matter how combinators are nested, only in which order the signals stand
(`Signal.pending_build_assoc`).

No signal has a pending write twice. Merging sees to this for all but the write of a loop, which is
appended without a look at the list. It is new because everything pending is already in the table
(`Signal.ensures_write_clean`). `Script.Arises` has the scopes that come up anywhere while signals
are built, those inside of loop bodies included.
-/

namespace Patchbay

variable {g g' : Graph} {n : Nat}

/-! ### Merging -/

/-- What makes an operation on lists without repeats a union that keeps the order. -/
structure UnionLaws (merge : List NodeId → List NodeId → List NodeId) : Prop where
  /-- The first list stands in front. -/
  isPrefix : ∀ {known more}, known.Nodup → more.Nodup → known <+: merge known more
  /-- What follows is what the first list lacks of the second, in its order. -/
  eq_append : ∀ {known more}, known.Nodup → more.Nodup →
    merge known more = known ++ more.filter (· ∉ known)
  /-- Nothing is there twice. -/
  nodup : ∀ {known more}, known.Nodup → more.Nodup → (merge known more).Nodup
  assoc : ∀ {a b c}, a.Nodup → b.Nodup → c.Nodup → merge a (merge b c) = merge (merge a b) c
  idem : ∀ {a}, a.Nodup → merge a a = a
  nil_left : ∀ {a}, a.Nodup → merge [] a = a
  nil_right : ∀ {a}, a.Nodup → merge a [] = a

theorem mergePending_of_nodup (known : List NodeId) {more : List NodeId} (h : more.Nodup) :
    mergePending known more = known ++ more.filter (· ∉ known) := by
  rw [mergePending_eq, eraseDups_of_nodup (h.filter _)]

theorem mergePending_append (known a b : List NodeId) :
    mergePending known (a ++ b) = mergePending (mergePending known a) b :=
  List.foldl_append

theorem mergePending_of_subset {known more : List NodeId} (h : more ⊆ known) :
    mergePending known more = known := by
  have hnew : more.filter (· ∉ known) = [] := by
    simpa [List.filter_eq_nil_iff] using fun id hid => h hid
  rw [mergePending_eq, hnew, List.eraseDups_nil, List.append_nil]

/-- Merging in two lists one after the other is merging in the two of them merged. -/
theorem mergePending_assoc (a b c : List NodeId) :
    mergePending a (mergePending b c) = mergePending (mergePending a b) c := by
  induction c generalizing b with
  | nil => rfl
  | cons id c ih =>
    rw [mergePending_cons, mergePending_cons, ih]
    congr 1
    by_cases hb : id ∈ b
    · rw [if_pos hb, if_pos (mem_mergePending.mpr (.inr hb))]
    · rw [if_neg hb, mergePending_append]
      rfl

theorem unionLaws_mergePending : UnionLaws mergePending where
  isPrefix _ hmore := mergePending_of_nodup _ hmore ▸ List.prefix_append _ _
  eq_append _ hmore := mergePending_of_nodup _ hmore
  nodup hknown _ := nodup_mergePending hknown _
  assoc _ _ _ := mergePending_assoc _ _ _
  idem _ := mergePending_of_subset (List.Subset.refl _)
  nil_left ha := by simp [mergePending_of_nodup [] ha]
  nil_right _ := rfl

/-! ### Combinators -/

namespace Signal

variable {s : Signal} {arguments : List Signal} {body : Signal → Build Signal}

/-- Two signals have the pending writes of the first, and then what else the second has. -/
theorem pending_build_pair (kind : String) (a b : Signal) (immediates : List Literal) (g : Graph) :
    (build kind [a, b] immediates g).1.pending =
      mergePending [] (mergePending a.pending b.pending) := by
  rw [mergePending_assoc]
  rfl

/-- How two combinators are nested does not matter to what is pending. -/
theorem pending_build_assoc (a b c : Signal) (inner outer inner' outer' : String)
    (i o i' o' : List Literal) (g g' : Graph) :
    ((do build outer [a, ← build inner [b, c] i] o : Build Signal) g).1.pending =
      ((do build outer' [← build inner' [a, b] i', c] o' : Build Signal) g').1.pending := by
  have hfirst (x y : List NodeId) : mergePending x (mergePending [] y) = mergePending x y :=
    mergePending_assoc x [] y
  have hleft := pending_build_pair outer a (build inner [b, c] i g).1 o (build inner [b, c] i g).2
  have hright :=
    pending_build_pair outer' (build inner' [a, b] i' g').1 c o' (build inner' [a, b] i' g').2
  rw [pending_build_pair inner] at hleft
  rw [pending_build_pair inner'] at hright
  refine hleft.trans (.trans ?_ hright.symm)
  calc
    _ = mergePending [] (mergePending a.pending (mergePending b.pending c.pending)) := by
      rw [hfirst]
    _ = mergePending (mergePending [] (mergePending a.pending b.pending)) c.pending := by
      rw [mergePending_assoc a.pending, mergePending_assoc]
    _ = _ := by rw [mergePending_assoc [] (mergePending [] _), hfirst]

/-! ### Signals without repeated writes -/

/-- A signal is in a table, and no write is pending twice. -/
structure Clean (s : Signal) (g : Graph) : Prop extends s.Within g where
  nodup : s.pending.Nodup

theorem ensures_build_clean (h : ∀ s ∈ arguments, s.Clean g) (kind : String)
    (immediates : List Literal) : Build.Ensures g Clean (build kind arguments immediates) := by
  intro g' hgrows hg
  obtain ⟨hgrows', hg', hwithin⟩ :=
    ensures_build (fun s hs => (h s hs).toWithin) kind immediates g' hgrows hg
  exact ⟨hgrows', hg', hwithin, nodup_allPending arguments⟩

/-- The write of a loop is not pending before, since everything that is pending has been in the
table before it. -/
theorem ensures_write_clean {fed result : Signal} {read : NodeId} {pending : List NodeId}
    (hread : read < g.size) (hfed : fed.Within g) (hresult : result.node < g.size)
    (hpending : ∀ id ∈ pending, id < g.size) (hnodup : pending.Nodup) :
    Build.Ensures g Clean (do
      let write ← Build.node { kind := Kind.feedbackWrite, inputs := [.node fed.node, .node read] }
      return { node := result.node, pending := pending ++ [write] }) := by
  intro g' hgrows hg
  obtain ⟨hgrows', hg', hwithin⟩ := ensures_write hread hfed hresult hpending g' hgrows hg
  refine ⟨hgrows', hg', hwithin, ?_⟩
  have hfresh : g'.size ∉ pending := fun hmem =>
    absurd ((hpending _ hmem).trans_le hgrows.size_le) (Nat.lt_irrefl _)
  change (pending ++ [g'.size]).Nodup
  rw [← List.concat_eq_append]
  exact hnodup.concat hfresh

theorem ensures_feedback_clean
    (hbody : ∀ {fed g'}, g.Grows g' → fed.Clean g' → Build.Ensures g' Clean (body fed)) :
    Build.Ensures g Clean (feedback body) :=
  (Build.Ensures.node fun _ hmem => by cases hmem).bind fun hgrows hread =>
    (hbody hgrows ⟨⟨hread, fun _ hmem => by cases hmem⟩, List.nodup_nil⟩).bind
      fun hgrows' hvalue => ensures_write_clean (hread.trans_le hgrows'.size_le) hvalue.toWithin
        hvalue.node_lt hvalue.pending_lt hvalue.nodup

theorem ensures_feedbackWith_clean (h : s.Clean g) (kind : String)
    (hbody : ∀ {sum g'}, g.Grows g' → sum.Clean g' → Build.Ensures g' Clean (body sum)) :
    Build.Ensures g Clean (feedbackWith kind s body) := by
  refine (Build.Ensures.node fun _ hmem => by cases hmem).bind fun {read g'} hgrows hread => ?_
  have harguments : ∀ t ∈ [s, { node := read }], t.Clean g' := by
    intro t ht
    rcases List.mem_pair.mp ht with rfl | rfl
    · exact ⟨h.toWithin.grow hgrows, h.nodup⟩
    · exact ⟨⟨hread, fun _ hmem => by cases hmem⟩, List.nodup_nil⟩
  refine (ensures_build_clean harguments kind []).bind fun hgrows' hsum => ?_
  refine (hbody (hgrows.trans hgrows') hsum).bind fun hgrows'' hfed => ?_
  have hsum' := hsum.toWithin.grow hgrows''
  have hread' := hread.trans_le (hgrows'.trans hgrows'').size_le
  refine ensures_write_clean hread' hfed.toWithin hsum'.node_lt (fun id hid => ?_)
    (nodup_mergePending hsum.nodup _)
  exact (mem_mergePending.mp hid).elim (hsum'.pending_lt id) (hfed.pending_lt id)

theorem inherited_clean : Inherited Clean where
  grow h hgrows := ⟨h.toWithin.grow hgrows, h.nodup⟩
  detach h := ⟨inherited_within.detach h.toWithin, List.nodup_nil⟩
  payload kind value := by
    intro g' hgrows hg
    obtain ⟨hgrows', hg', hwithin⟩ := ensures_payload kind value g' hgrows hg
    exact ⟨hgrows', hg', hwithin, List.nodup_nil⟩
  build := ensures_build_clean
  feedback := ensures_feedback_clean
  feedbackWith := ensures_feedbackWith_clean

/-- The value that is fed back in a loop has no pending writes. -/
theorem clean_read (hg : g.WellFormed) :
    g.Grows (g.add { kind := Kind.feedbackRead }).2 ∧
      (g.add { kind := Kind.feedbackRead }).2.WellFormed ∧
      Clean { node := g.size } (g.add { kind := Kind.feedbackRead }).2 := by
  have hnode : Build.Ensures g (fun id g' => id < g'.size)
      (Build.node { kind := Kind.feedbackRead }) := .node fun _ hmem => by cases hmem
  obtain ⟨hgrows, hg', hlt⟩ := hnode g (.refl g) hg
  exact ⟨hgrows, hg', ⟨hlt, fun _ hmem => by cases hmem⟩, List.nodup_nil⟩

end Signal

/-! ### Scopes -/

namespace Script

/-- The scopes that come up while signals are built, and the tables that they come up with. -/
inductive Arises : {n : Nat} → Vector Signal n → Graph → Prop
  | nil : Arises #v[] {}
  /-- A step brings its signal into scope. -/
  | step {n : Nat} {scope : Vector Signal n} {g : Graph} (h : Arises scope g) (step : Step n) :
    Arises (scope.push (step.run scope g).1) (step.run scope g).2
  /-- The body of a loop begins with the value that is fed back. -/
  | feedback {n : Nat} {scope : Vector Signal n} {g : Graph} (h : Arises scope g) :
    Arises (scope.push { node := g.size }) (g.add { kind := Kind.feedbackRead }).2
  /-- The body of a loop around a signal begins with the combination of the two. -/
  | feedbackWith {n : Nat} {scope : Vector Signal n} {g : Graph} {sum : Signal} {g' : Graph}
    (h : Arises scope g) (kind : String) (place : Fin n)
    (hsum : Signal.build kind [scope.get place, { node := g.size }] []
      (g.add { kind := Kind.feedbackRead }).2 = (sum, g')) : Arises (scope.push sum) g'

namespace Arises

variable {scope : Vector Signal n}

/-- Whatever has been built so far, its signals are in the table, without repeated writes. -/
theorem clean (h : Arises scope g) : g.WellFormed ∧ ScopeHas Signal.Clean scope g := by
  induction h with
  | nil =>
    refine ⟨fun id node hnode => ?_, fun s hs => absurd hs (Vector.not_mem_empty s)⟩
    cases hnode
  | @step n scope g h step ih =>
    obtain ⟨hgrows, hg, hlast⟩ :=
      Step.ensures Signal.inherited_clean ih.2 step g (.refl g) ih.1
    exact ⟨hg, (ih.2.grow Signal.inherited_clean hgrows).push hlast⟩
  | @feedback n scope g h ih =>
    obtain ⟨hgrows, hg, hread⟩ := Signal.clean_read ih.1
    exact ⟨hg, (ih.2.grow Signal.inherited_clean hgrows).push hread⟩
  | @feedbackWith n scope g sum g' h kind place hsum ih =>
    obtain ⟨hgrows, hg, hread⟩ := Signal.clean_read ih.1
    have hscope := ih.2.grow Signal.inherited_clean hgrows
    have harguments : ∀ s ∈ [scope.get place, { node := g.size }],
        s.Clean (g.add { kind := Kind.feedbackRead }).2 :=
      List.forall_mem_cons.mpr ⟨hscope.get place, List.forall_mem_singleton.mpr hread⟩
    obtain ⟨hgrows', hg', hclean⟩ := Signal.ensures_build_clean harguments kind [] _ (.refl _) hg
    rw [hsum] at hgrows' hg' hclean
    exact ⟨hg', (hscope.grow Signal.inherited_clean hgrows').push hclean⟩

end Arises

/-- The signals of a script are a scope that comes up. -/
theorem arises_run (script : Script n) : Arises (script.run {}).1 (script.run {}).2 := by
  induction script with
  | nil => exact .nil
  | snoc front last ih => exact ih.step last

end Script

/-- Merging pending writes is a union that keeps the order. Hence it does not matter how combinators
are nested, and no signal that comes up has a pending write twice, whether inside of a loop or as a
signal of a script. -/
theorem pending_union : UnionLaws mergePending ∧
    (∀ (a b c : Signal) (inner outer inner' outer' : String) (i o i' o' : List Literal)
      (g g' : Graph),
      ((do Signal.build outer [a, ← Signal.build inner [b, c] i] o : Build Signal) g).1.pending =
        ((do Signal.build outer' [← Signal.build inner' [a, b] i', c] o' : Build Signal)
          g').1.pending) ∧
    (∀ {n : Nat} {scope : Vector Signal n} {g : Graph}, Script.Arises scope g →
      ∀ s ∈ scope, s.pending.Nodup) ∧
    ∀ {n : Nat} (script : Script n), ∀ s ∈ (script.run {}).1, s.pending.Nodup :=
  ⟨unionLaws_mergePending, Signal.pending_build_assoc, fun h s hs => (h.clean.2 s hs).nodup,
    fun script s hs => (script.arises_run.clean.2 s hs).nodup⟩

theorem Script.nestedLoops_pending_union :
    ([4, 7] : List NodeId).Nodup ∧ ([9, 7, 5] : List NodeId).Nodup ∧
      mergePending [4, 7] [9, 7, 5] = [4, 7] ++ [9, 5] ∧
      Arises (nestedLoops.run {}).1 (nestedLoops.run {}).2 ∧
      ((nestedLoops.run {}).1.get 3).pending = [6, 10, 11] ∧
      ∀ s ∈ (nestedLoops.run {}).1, s.pending.Nodup := by
  obtain ⟨hlaws, -, harises, -⟩ := pending_union
  have hmerge : mergePending [4, 7] [9, 7, 5] = [4, 7] ++ [9, 7, 5].filter (· ∉ [4, 7]) :=
    hlaws.eq_append (by decide) (by decide)
  exact ⟨by decide, by decide, hmerge, nestedLoops.arises_run, by decide,
    harises nestedLoops.arises_run⟩

end Patchbay
