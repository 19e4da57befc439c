import Mathlib.Data.List.Chain
import Patchbay.Graph.Schedule
import Patchbay.Proofs.Graph.Acyclic

/-!
# What a walk keeps

A node is marked when the walk enters it and listed when the walk leaves it, so a marked input need
not be listed yet: it may still be on the stack. `Walk.Invariant` rules this out where it matters.
The stack is a path of the graph, each frame waiting for the one above it, so an input of the
innermost node that is on the stack would close a cycle.

`Invariant.advance` is the step, `Invariant.run` the whole walk. The facts about `Graph.postorder`
at the end are what remains of the invariant once the stack is empty.
-/

namespace Patchbay

variable {g : Graph} {root id producer : NodeId}

/-! ### Orders in which inputs come first -/

/-- The lists that grow by one node at a time, each after all its inputs. -/
inductive Graph.Ordered (g : Graph) : List NodeId → Prop
  | nil : Ordered g []
  | snoc {ids : List NodeId} {id : NodeId} :
    Ordered g ids → (∀ producer, g.Feeds producer id → producer ∈ ids) → Ordered g (ids ++ [id])

namespace Graph.Ordered

variable {ids : List NodeId}

/-- Every node of the list stands strictly after each of its inputs. -/
theorem exists_lt (h : g.Ordered ids) {i : Nat} (hi : ids[i]? = some id)
    (hfeeds : g.Feeds producer id) : ∃ j < i, ids[j]? = some producer := by
  induction h with
  | nil => simp at hi
  | @snoc ids last _ hlast ih =>
    rcases Nat.lt_or_ge i ids.length with hlt | hge
    · rw [List.getElem?_append_left hlt] at hi
      obtain ⟨j, hj, hprod⟩ := ih hi
      exact ⟨j, hj, by rw [List.getElem?_append_left (hj.trans hlt), hprod]⟩
    · rw [List.getElem?_append_right hge, List.getElem?_singleton] at hi
      obtain ⟨hi, rfl⟩ : i - ids.length = 0 ∧ last = id := by simpa using hi
      obtain ⟨j, hj, hprod⟩ := List.mem_iff_getElem.mp (hlast producer hfeeds)
      refine ⟨j, hj.trans_le hge, ?_⟩
      rw [List.getElem?_append_left hj, List.getElem?_eq_getElem hj, hprod]

/-- The list has the inputs of all its nodes. -/
theorem mem_of_feeds (h : g.Ordered ids) (hid : id ∈ ids) (hfeeds : g.Feeds producer id) :
    producer ∈ ids := by
  obtain ⟨i, hi⟩ := List.mem_iff_getElem?.mp hid
  obtain ⟨j, -, hj⟩ := h.exists_lt hi hfeeds
  exact List.mem_of_getElem? hj

/-- With a node the list has everything that the node depends on. -/
theorem mem_of_reachable (h : g.Ordered ids) (hroot : root ∈ ids) (hid : g.Reachable root id) :
    id ∈ ids := by
  induction hid with
  | root => exact hroot
  | feeds _ hfeeds ih => exact h.mem_of_feeds ih hfeeds

end Graph.Ordered

/-! ### The invariant -/

/-- A node is among the inputs of a frame that the walk has gone past. -/
def Frame.Passed (g : Graph) (frame : Frame) (id : NodeId) : Prop :=
  ∃ passed, passed ++ frame.rest = g.inputs frame.node ∧ Input.node id ∈ passed

theorem Frame.Passed.feeds {frame : Frame} (h : frame.Passed g id) : g.Feeds id frame.node := by
  obtain ⟨passed, heq, hmem⟩ := h
  rw [Graph.Feeds, ← heq]
  exact List.mem_append_left _ hmem

/-- Going past one more input passes that input and nothing else. -/
theorem Frame.Passed.of_rest {node : NodeId} {input : Input} {rest : List Input}
    (hsuffix : input :: rest <:+ g.inputs node) (h : Frame.Passed g ⟨node, rest⟩ id) :
    Frame.Passed g ⟨node, input :: rest⟩ id ∨ input = .node id := by
  obtain ⟨before, hbefore⟩ := hsuffix
  obtain ⟨passed, hpassed, hmem⟩ := h
  have heq : passed ++ rest = (before ++ [input]) ++ rest := by simpa [← hbefore] using hpassed
  obtain rfl := List.append_cancel_right heq
  rw [List.mem_append, List.mem_singleton] at hmem
  exact hmem.imp (fun hmem => ⟨before, hbefore, hmem⟩) Eq.symm

namespace Walk

/-- The nodes that a walk has entered: those it is inside of, and those it has left. -/
def entered (w : Walk) : List NodeId :=
  w.stack.map (·.node) ++ w.order.toList

/-- What holds of a walk from a root at every step. -/
structure Invariant (g : Graph) (root : NodeId) (w : Walk) : Prop where
  /-- What a frame has left is the end of the inputs of its node. -/
  suffix : ∀ frame ∈ w.stack, frame.rest <:+ g.inputs frame.node
  /-- An input gone past has been entered. -/
  passed : ∀ frame ∈ w.stack, ∀ id, frame.Passed g id → id ∈ w.entered
  /-- The stack is a path: each frame was entered from the one below it. -/
  path : w.stack.IsChain fun inner outer => outer.Passed g inner.node
  /-- The path begins at the root. -/
  bottom : ∀ id, (w.stack.map (·.node)).getLast? = some id → id = root
  /-- The root is left last. -/
  last : w.stack = [] → w.order.toList.getLast? = some root
  /-- Nothing is entered twice. -/
  nodup : w.entered.Nodup
  /-- Each node of the graph has a mark. -/
  size : w.marks.size = g.size
  /-- The marks tell what has been entered. -/
  marked : ∀ id, id < g.size → (w.isMarked id = true ↔ id ∈ w.entered)
  /-- Only what the root depends on is entered. -/
  reachable : ∀ id ∈ w.entered, g.Reachable root id
  /-- A node is left after its inputs. -/
  ordered : g.Ordered w.order.toList

namespace Invariant

/-- The walk that has just entered the root. -/
theorem start (hroot : root < g.size) : Invariant g root (Walk.start g root) where
  suffix := by simp [Walk.start]
  passed := by
    intro frame hframe id hpassed
    obtain rfl : frame = ⟨root, g.inputs root⟩ := by simpa [Walk.start] using hframe
    obtain ⟨passed, heq, hmem⟩ := hpassed
    obtain rfl : passed = [] := by simpa using heq
    simp at hmem
  path := by simp [Walk.start]
  bottom := by simp [Walk.start]
  last := by simp [Walk.start]
  nodup := by simp [Walk.start, entered]
  size := by simp [Walk.start]
  marked := by
    intro id hid
    rw [isMarked, Walk.start, getD_setIfInBounds _ _ _ (by simpa using hroot)]
    simp [entered, hid, eq_comm]
  reachable := by
    intro id hid
    obtain rfl : id = root := by simpa [Walk.start, entered] using hid
    exact .root
  ordered := by simpa [Walk.start] using Graph.Ordered.nil

/-- The first frame of a path feeds, through others, every frame below it. -/
theorem transGen_of_path {frame outer : Frame} {below : List Frame}
    (h : (frame :: below).IsChain fun inner outer => outer.Passed g inner.node)
    (houter : outer ∈ below) : Relation.TransGen g.Feeds frame.node outer.node := by
  induction below generalizing frame with
  | nil => simp at houter
  | cons next below ih =>
    rw [List.isChain_cons_cons] at h
    rcases List.mem_cons.mp houter with rfl | houter
    · exact .single h.1.feeds
    · exact .head h.1.feeds (ih h.2 houter)

/-- An input of the innermost node that has been entered has also been left: it would close a
cycle if it were still on the stack. -/
theorem mem_order_of_feeds {w : Walk} {frame : Frame} {below : List Frame} (hg : g.Acyclic)
    (hw : Invariant g root w) (hstack : w.stack = frame :: below)
    (hfeeds : g.Feeds producer frame.node) (hentered : producer ∈ w.entered) :
    producer ∈ w.order.toList := by
  rw [entered, List.mem_append, hstack] at hentered
  refine hentered.resolve_left fun hmem => ?_
  rw [List.map_cons, List.mem_cons, List.mem_map] at hmem
  rcases hmem with rfl | ⟨outer, houter, rfl⟩
  · exact hg.irrefl _ (.single hfeeds)
  · exact hg.irrefl _ ((transGen_of_path (hstack ▸ hw.path) houter).tail hfeeds)

variable {w : Walk} {node : NodeId} {input : Input} {rest : List Input} {below : List Frame}

/-- Leaving the innermost node, whose inputs have all been gone past. -/
theorem leave (hg : g.Acyclic) (hw : Invariant g root w) (hstack : w.stack = ⟨node, []⟩ :: below) :
    Invariant g root { w with stack := below, order := w.order.push node } := by
  have hperm : List.Perm (below.map (·.node) ++ (w.order.push node).toList) w.entered := by
    simp [entered, hstack, ← List.append_assoc]
  have hmem : ∀ id, id ∈ below.map (·.node) ++ (w.order.push node).toList ↔ id ∈ w.entered :=
    fun _ => hperm.mem_iff
  have hpath := hw.path
  rw [hstack] at hpath
  refine
    { suffix := fun frame hframe => hw.suffix frame (by simp [hstack, hframe])
      passed := fun frame hframe id hpassed =>
        (hmem id).mpr (hw.passed frame (by simp [hstack, hframe]) id hpassed)
      path := hpath.tail
      bottom := ?_
      last := ?_
      nodup := hperm.nodup_iff.mpr hw.nodup
      size := hw.size
      marked := fun id hid => (hw.marked id hid).trans (hmem id).symm
      reachable := fun id hid => hw.reachable id ((hmem id).mp hid)
      ordered := ?_ }
  · intro id hlast
    refine hw.bottom id ?_
    rw [hstack, List.map_cons, List.getLast?_cons, hlast, Option.getD_some]
  · rintro rfl
    rw [Array.toList_push, List.getLast?_concat]
    exact congrArg some (hw.bottom node (by rw [hstack]; rfl))
  · rw [Array.toList_push]
    refine hw.ordered.snoc fun producer hfeeds => ?_
    refine hw.mem_order_of_feeds hg hstack hfeeds ?_
    exact hw.passed ⟨node, []⟩ (by simp [hstack]) producer
      ⟨g.inputs node, List.append_nil _, hfeeds⟩

/-- Going past an input of the innermost node that needs no visit: an immediate, or a node that
has been entered. -/
theorem pass (hw : Invariant g root w) (hstack : w.stack = ⟨node, input :: rest⟩ :: below)
    (hinput : ∀ id, input = .node id → id ∈ w.entered) :
    Invariant g root { w with stack := ⟨node, rest⟩ :: below } := by
  have hentered : ({ w with stack := ⟨node, rest⟩ :: below } : Walk).entered = w.entered := by
    simp [entered, hstack]
  have hsuffix : input :: rest <:+ g.inputs node := hw.suffix ⟨node, _⟩ (by simp [hstack])
  have hpath := hw.path
  rw [hstack, List.isChain_cons] at hpath
  refine
    { suffix := ?_
      passed := ?_
      path := List.isChain_cons.mpr hpath
      bottom := fun id hlast => hw.bottom id (by simpa [hstack] using hlast)
      last := by simp
      nodup := hentered ▸ hw.nodup
      size := hw.size
      marked := fun id hid => hentered ▸ hw.marked id hid
      reachable := fun id hid => hw.reachable id (hentered ▸ hid)
      ordered := hw.ordered }
  · intro frame hframe
    rcases List.mem_cons.mp hframe with rfl | hframe
    · exact (List.suffix_cons input rest).trans hsuffix
    · exact hw.suffix frame (by simp [hstack, hframe])
  · intro frame hframe id hpassed
    rw [hentered]
    rcases List.mem_cons.mp hframe with rfl | hframe
    · rcases hpassed.of_rest hsuffix with hpassed | hid
      · exact hw.passed ⟨node, _⟩ (by simp [hstack]) id hpassed
      · exact hinput id hid
    · exact hw.passed frame (by simp [hstack, hframe]) id hpassed

/-- Entering an input of the innermost node for the first time. -/
theorem enter (hw : Invariant g root w) (hstack : w.stack = ⟨node, .node id :: rest⟩ :: below)
    (hid : id < g.size) (hnew : id ∉ w.entered) :
    Invariant g root
      { w with
        stack := ⟨id, g.inputs id⟩ :: ⟨node, rest⟩ :: below
        marks := w.marks.setIfInBounds id true } := by
  set w' : Walk :=
    { w with
      stack := ⟨id, g.inputs id⟩ :: ⟨node, rest⟩ :: below
      marks := w.marks.setIfInBounds id true } with hw'
  have hentered : w'.entered = id :: w.entered := by simp [hw', entered, hstack]
  have hsuffix : .node id :: rest <:+ g.inputs node := hw.suffix ⟨node, _⟩ (by simp [hstack])
  have hpath := hw.path
  rw [hstack, List.isChain_cons] at hpath
  refine
    { suffix := ?_
      passed := ?_
      path := List.isChain_cons_cons.mpr ⟨?_, List.isChain_cons.mpr hpath⟩
      bottom := fun id' hlast => hw.bottom id' (by simpa [hw', hstack] using hlast)
      last := by simp [hw']
      nodup := by rw [hentered]; exact List.nodup_cons.mpr ⟨hnew, hw.nodup⟩
      size := by simp [hw', hw.size]
      marked := ?_
      reachable := ?_
      ordered := hw.ordered }
  · intro frame hframe
    rcases List.mem_cons.mp hframe with rfl | hframe
    · exact List.suffix_rfl
    rcases List.mem_cons.mp hframe with rfl | hframe
    · exact (List.suffix_cons _ rest).trans hsuffix
    · exact hw.suffix frame (by simp [hstack, hframe])
  · intro frame hframe id' hpassed
    rw [hentered, List.mem_cons]
    rcases List.mem_cons.mp hframe with rfl | hframe
    · -- nothing of the new frame has been gone past
      obtain ⟨passed, heq, hmem⟩ := hpassed
      obtain rfl : passed = [] := by simpa using heq
      simp at hmem
    rcases List.mem_cons.mp hframe with rfl | hframe
    · rcases hpassed.of_rest hsuffix with hpassed | heq
      · exact .inr (hw.passed ⟨node, _⟩ (by simp [hstack]) id' hpassed)
      · exact .inl (Input.node.inj heq).symm
    · exact .inr (hw.passed frame (by simp [hstack, hframe]) id' hpassed)
  · obtain ⟨before, hbefore⟩ := hsuffix
    exact ⟨before ++ [.node id], by simpa using hbefore, by simp⟩
  · intro id' hid'
    rw [isMarked, hentered, List.mem_cons, ← hw.marked id' hid', isMarked,
      getD_setIfInBounds _ _ _ (hw.size.symm ▸ hid), Bool.or_eq_true, decide_eq_true_eq, eq_comm]
  · intro id' hid'
    rw [hentered, List.mem_cons] at hid'
    rcases hid' with rfl | hid'
    · refine (hw.reachable node (by simp [entered, hstack])).feeds ?_
      exact hsuffix.subset List.mem_cons_self
    · exact hw.reachable id' hid'

/-- A step keeps the invariant. -/
theorem advance {frame : Frame} (hg : g.Acyclic) (hw : Invariant g root w)
    (hstack : w.stack = frame :: below) : Invariant g root (w.advance g frame below) := by
  obtain ⟨node, rest⟩ := frame
  match rest with
  | [] => exact hw.leave hg hstack
  | .immediate _ :: rest => exact hw.pass hstack (by simp)
  | .node id :: rest =>
    have hfeeds : g.Feeds id node :=
      (hw.suffix ⟨node, .node id :: rest⟩ (by simp [hstack])).subset List.mem_cons_self
    have hid : id < g.size := hg.lt_size hfeeds
    by_cases hmark : w.isMarked id
    · simp only [Walk.advance, hmark, if_true]
      refine hw.pass hstack fun id' heq => ?_
      obtain rfl : id = id' := Input.node.inj heq
      exact (hw.marked id hid).mp hmark
    · simp only [Walk.advance, hmark]
      exact hw.enter hstack hid (mt (hw.marked id hid).mpr hmark)

/-- A whole walk keeps the invariant. -/
theorem run (hg : g.Acyclic) (hw : Invariant g root w) : Invariant g root (w.run g) := by
  fun_induction Walk.run g w with
  | case1 w hstack => exact hw
  | case2 w frame below hstack _ ih => exact ih (hw.advance hg hstack)

end Invariant

/-- A walk goes on until it has left every node. -/
theorem run_stack (g : Graph) (w : Walk) : (w.run g).stack = [] := by
  fun_induction Walk.run g w with
  | case1 w hstack => exact hstack
  | case2 w frame below hstack _ ih => exact ih

end Walk

/-! ### The order in which a walk leaves the nodes -/

namespace Graph

theorem walk_invariant (hg : g.Acyclic) (hroot : root < g.size) :
    Walk.Invariant g root ((Walk.start g root).run g) :=
  (Walk.Invariant.start hroot).run hg

theorem walk_entered (g : Graph) (root : NodeId) :
    ((Walk.start g root).run g).entered = (g.postorder root).toList := by
  rw [Walk.entered, Walk.run_stack]
  rfl

theorem postorder_nodup (hg : g.Acyclic) (hroot : root < g.size) :
    (g.postorder root).toList.Nodup :=
  walk_entered g root ▸ (walk_invariant hg hroot).nodup

theorem postorder_ordered (hg : g.Acyclic) (hroot : root < g.size) :
    g.Ordered (g.postorder root).toList :=
  (walk_invariant hg hroot).ordered

theorem postorder_getLast? (hg : g.Acyclic) (hroot : root < g.size) :
    (g.postorder root).toList.getLast? = some root :=
  (walk_invariant hg hroot).last (Walk.run_stack _ _)

theorem root_mem_postorder (hg : g.Acyclic) (hroot : root < g.size) :
    root ∈ (g.postorder root).toList :=
  List.mem_of_getLast? (postorder_getLast? hg hroot)

/-- The walk visits what the root depends on, and nothing else. -/
theorem mem_postorder (hg : g.Acyclic) (hroot : root < g.size) :
    id ∈ (g.postorder root).toList ↔ g.Reachable root id := by
  constructor
  · intro h
    rw [← walk_entered] at h
    exact (walk_invariant hg hroot).reachable id h
  · exact (postorder_ordered hg hroot).mem_of_reachable (root_mem_postorder hg hroot)

end Graph

end Patchbay
