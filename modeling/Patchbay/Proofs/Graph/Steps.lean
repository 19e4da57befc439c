import Mathlib.Algebra.BigOperators.Group.Finset.Basic
import Mathlib.Algebra.GroupWithZero.Nat
import Patchbay.Proofs.Graph.Schedule

/-!
# How many steps a walk takes

A step looks at one input or leaves one node. No part of a walk shrinks from step to step: an input
is used up, but entering a node puts all the inputs of that node on the stack. What does add up is
the account of the nodes entered so far. Each of them costs one step for every input and one for
leaving it, and of this the frames still owe what they have left (`Walk.stackWork_after`). At the
end nothing is owed and everything that the root depends on has been entered, so the number of steps
is `Graph.walkLength`, with immediates and repeated inputs counted like all others.

`Walk.Snapshot` says what a walk looks like between any two of these steps, by the index at which
each frame stands. It is read off the invariant.
-/

namespace Patchbay

variable {g : Graph} {root id : NodeId}

/-! ### Frames by index -/

/-- The number of inputs of its node that a frame has gone past. -/
def Frame.index (g : Graph) (frame : Frame) : Nat :=
  (g.inputs frame.node).length - frame.rest.length

namespace Frame

variable {frame : Frame}

theorem rest_eq_drop (h : frame.rest <:+ g.inputs frame.node) :
    frame.rest = (g.inputs frame.node).drop (frame.index g) :=
  List.suffix_iff_eq_drop.mp h

/-- The inputs gone past are the ones before the index. -/
theorem passed_iff (h : frame.rest <:+ g.inputs frame.node) :
    frame.Passed g id ↔ ∃ i < frame.index g, (g.inputs frame.node)[i]? = some (.node id) := by
  obtain ⟨before, hbefore⟩ := h
  have hindex : frame.index g = before.length := by
    rw [index, ← hbefore, List.length_append, Nat.add_sub_cancel]
  have hpassed : frame.Passed g id ↔ Input.node id ∈ before := by
    refine ⟨fun ⟨passed, heq, hmem⟩ => ?_, fun hmem => ⟨before, hbefore, hmem⟩⟩
    exact List.append_cancel_right (heq.trans hbefore.symm) ▸ hmem
  rw [hpassed, hindex, List.mem_iff_getElem?]
  constructor
  · rintro ⟨i, hi⟩
    have hlt : i < before.length := (List.getElem?_eq_some_iff.mp hi).1
    exact ⟨i, hlt, by rw [← hbefore, List.getElem?_append_left hlt, hi]⟩
  · rintro ⟨i, hlt, hi⟩
    exact ⟨i, by rwa [← hbefore, List.getElem?_append_left hlt] at hi⟩

end Frame

/-! ### A walk between two steps -/

namespace Walk

variable {w w' : Walk}

/-- What a walk from a root looks like between two steps. -/
structure Snapshot (g : Graph) (root : NodeId) (w : Walk) : Prop where
  /-- A frame has left what follows its index. -/
  rest_eq : ∀ frame ∈ w.stack, frame.rest = (g.inputs frame.node).drop (frame.index g)
  /-- The stack is a path: the node of a frame is an input of the frame below it, at an index that
  the frame below has gone past. -/
  path : w.stack.IsChain fun inner outer =>
    ∃ i < outer.index g, (g.inputs outer.node)[i]? = some (.node inner.node)
  /-- The path begins at the root. -/
  bottom : ∀ frame, w.stack.getLast? = some frame → frame.node = root
  /-- The marked nodes are those on the stack and those left. -/
  marked_iff : ∀ id, id < g.size ∧ w.isMarked id ↔
    id ∈ w.stack.map (·.node) ∨ id ∈ w.order.toList
  /-- No node is on the stack twice, left twice, or on the stack after it has been left. -/
  nodup : (w.stack.map (·.node) ++ w.order.toList).Nodup
  /-- Every input before the index of a frame has been entered. -/
  passed_marked : ∀ frame ∈ w.stack, ∀ i < frame.index g, ∀ id,
    (g.inputs frame.node)[i]? = some (.node id) → id < g.size ∧ w.isMarked id
  /-- Every input of a node that has been left has been left. -/
  closed : ∀ id ∈ w.order.toList, ∀ producer, g.Feeds producer id → producer ∈ w.order.toList

theorem Invariant.snapshot (hg : g.Acyclic) (hroot : root < g.size) (hw : Invariant g root w) :
    Snapshot g root w := by
  have hmarked : ∀ id, id < g.size ∧ w.isMarked id ↔ id ∈ w.entered := fun id =>
    ⟨fun ⟨hid, hmark⟩ => (hw.marked id hid).mp hmark, fun hentered =>
      have hid := hg.reachable_lt_size hroot (hw.reachable id hentered)
      ⟨hid, (hw.marked id hid).mpr hentered⟩⟩
  have hpassed {frame : Frame} (hframe : frame ∈ w.stack) (id : NodeId) :
      frame.Passed g id ↔ ∃ i < frame.index g, (g.inputs frame.node)[i]? = some (.node id) :=
    Frame.passed_iff (hw.suffix frame hframe)
  refine
    { rest_eq := fun frame hframe => Frame.rest_eq_drop (hw.suffix frame hframe)
      path := ?_
      bottom := ?_
      marked_iff := fun id => (hmarked id).trans List.mem_append
      nodup := hw.nodup
      passed_marked := ?_
      closed := fun id hid producer hfeeds => hw.ordered.mem_of_feeds hid hfeeds }
  · refine hw.path.imp_of_mem_imp fun inner outer _ houter hinner => ?_
    exact (hpassed houter inner.node).mp hinner
  · intro frame hlast
    exact hw.bottom frame.node (by rw [List.getLast?_map, hlast, Option.map_some])
  · intro frame hframe i hi id hid
    exact (hmarked id).mpr (hw.passed frame hframe id ((hpassed hframe id).mpr ⟨i, hi, hid⟩))

/-! ### Steps -/

/-- The walk after some number of steps; `none` if it was over before. -/
def after (g : Graph) (w : Walk) : (count : Nat) → Option Walk
  | 0 => some w
  | count + 1 => (after g w count).bind (step g)

theorem step_eq_some_iff : w.step g = some w' ↔
    ∃ frame below, w.stack = frame :: below ∧ w' = w.advance g frame below := by
  rw [step]
  cases w.stack with
  | nil => simp
  | cons frame below => simp [eq_comm]

theorem step_eq_none_iff : w.step g = none ↔ w.stack = [] := by
  rw [step]
  cases w.stack <;> simp

theorem after_succ_eq_some_iff {count : Nat} : w.after g (count + 1) = some w' ↔
    ∃ frame below v, w.after g count = some v ∧ v.stack = frame :: below ∧
      w' = v.advance g frame below := by
  simp only [after, Option.bind_eq_some_iff, step_eq_some_iff]
  constructor
  · rintro ⟨v, hv, frame, below, hstack, rfl⟩
    exact ⟨frame, below, v, hv, hstack, rfl⟩
  · rintro ⟨frame, below, v, hv, hstack, rfl⟩
    exact ⟨v, hv, frame, below, hstack, rfl⟩

/-- A first step may be taken apart from the others. -/
theorem after_advance {frame : Frame} {below : List Frame} (hstack : w.stack = frame :: below)
    (count : Nat) : w.after g (count + 1) = (w.advance g frame below).after g count := by
  induction count with
  | zero => exact step_eq_some_iff.mpr ⟨frame, below, hstack, rfl⟩
  | succ count ih => rw [after, ih, after]

/-- A walk gets to its end step by step. -/
theorem exists_after_run (g : Graph) (w : Walk) : ∃ count, w.after g count = some (w.run g) := by
  fun_induction Walk.run g w with
  | case1 w hstack => exact ⟨0, rfl⟩
  | case2 w frame below hstack _ ih =>
    obtain ⟨count, hcount⟩ := ih
    exact ⟨count + 1, (after_advance hstack count).trans hcount⟩

theorem isSome_after {count earlier : Nat} (h : (w.after g count).isSome) (hle : earlier ≤ count) :
    (w.after g earlier).isSome := by
  induction hle with
  | refl => exact h
  | step hle ih => exact ih (Option.isSome_of_isSome_bind h)

/-- Nothing comes after the end. -/
theorem after_eq_none {count later : Nat} (h : w.after g count = some w') (hstack : w'.stack = [])
    (hlt : count < later) : w.after g later = none := by
  have hnext : w.after g (count + 1) = none := by
    rw [after, h, Option.bind_some, step_eq_none_iff.mpr hstack]
  rw [← Option.not_isSome_iff_eq_none]
  intro hsome
  have hearlier := isSome_after hsome hlt
  rw [hnext] at hearlier
  cases hearlier

theorem Invariant.after {count : Nat} (hg : g.Acyclic) (hw : Invariant g root w)
    (h : w.after g count = some w') : Invariant g root w' := by
  induction count generalizing w' with
  | zero => exact Option.some.inj h ▸ hw
  | succ count ih =>
    obtain ⟨frame, below, v, hv, hstack, rfl⟩ := after_succ_eq_some_iff.mp h
    exact (ih hv).advance hg hstack

/-! ### The account -/

/-- The steps that nodes take. -/
def cost (g : Graph) (ids : List NodeId) : Nat :=
  (ids.map (weight g)).sum

theorem cost_cons (id : NodeId) (ids : List NodeId) :
    cost g (id :: ids) = (g.inputs id).length + 1 + cost g ids := by
  rw [cost, List.map_cons, List.sum_cons, weight, cost]

theorem cost_of_perm {ids ids' : List NodeId} (h : ids.Perm ids') : cost g ids = cost g ids' :=
  (h.map (weight g)).sum_eq

/-- A step is paid for by the frames, or by a node entered with it. -/
theorem stackWork_advance (w : Walk) {frame : Frame} {below : List Frame}
    (hstack : w.stack = frame :: below) :
    stackWork (w.advance g frame below).stack + 1 + cost g w.entered =
      stackWork w.stack + cost g (w.advance g frame below).entered := by
  obtain ⟨node, rest⟩ := frame
  match rest with
  | [] =>
    have hperm : (w.advance g ⟨node, []⟩ below).entered.Perm w.entered := by
      simp [advance, entered, hstack, ← List.append_assoc]
    rw [cost_of_perm hperm]
    simp only [advance, hstack, stackWork, List.length_nil]
    omega
  | .immediate value :: rest =>
    have hentered : (w.advance g ⟨node, .immediate value :: rest⟩ below).entered = w.entered := by
      simp [advance, entered, hstack]
    rw [hentered]
    simp only [advance, hstack, stackWork, List.length_cons]
    omega
  | .node id :: rest =>
    by_cases hmark : w.isMarked id
    · have hentered : (w.advance g ⟨node, .node id :: rest⟩ below).entered = w.entered := by
        simp [advance, entered, hstack, hmark]
      rw [hentered]
      simp only [advance, hmark, if_true, hstack, stackWork, List.length_cons]
      omega
    · have hentered : (w.advance g ⟨node, .node id :: rest⟩ below).entered = id :: w.entered := by
        simp [advance, entered, hstack, hmark]
      rw [hentered, cost_cons]
      simp only [advance, if_neg hmark, hstack, stackWork, List.length_cons]
      omega

/-- The steps taken, and those that the frames still owe, are those of the nodes entered. -/
theorem stackWork_after {count : Nat} (h : (start g root).after g count = some w) :
    stackWork w.stack + count = cost g w.entered := by
  induction count generalizing w with
  | zero =>
    obtain rfl := Option.some.inj h
    simp [start, stackWork, entered, cost, weight]
  | succ count ih =>
    obtain ⟨frame, below, v, hv, hstack, rfl⟩ := after_succ_eq_some_iff.mp h
    have hstep := stackWork_advance (g := g) v hstack
    have hbefore := ih hv
    omega

end Walk

/-! ### The length of a walk -/

namespace Graph

open scoped Classical in
/-- The nodes that a root depends on, itself included, as a set. -/
noncomputable def dependencies (g : Graph) (root : NodeId) : Finset NodeId :=
  {id ∈ Finset.range g.size | g.Reachable root id}

/-- One step for every input of every node that a root depends on, immediates and repeated inputs
included, and one for every such node. -/
noncomputable def walkLength (g : Graph) (root : NodeId) : Nat :=
  ∑ id ∈ g.dependencies root, ((g.inputs id).length + 1)

theorem mem_dependencies (hg : g.Acyclic) (hroot : root < g.size) :
    id ∈ g.dependencies root ↔ g.Reachable root id := by
  classical
  rw [dependencies, Finset.mem_filter, Finset.mem_range]
  exact and_iff_right_of_imp (hg.reachable_lt_size hroot)

theorem walkLength_eq_cost (hg : g.Acyclic) (hroot : root < g.size) :
    g.walkLength root = Walk.cost g (g.postorder root).toList := by
  have hset : g.dependencies root = (g.postorder root).toList.toFinset := by
    ext id
    rw [mem_dependencies hg hroot, List.mem_toFinset, mem_postorder hg hroot]
  rw [walkLength, hset, List.sum_toFinset _ (postorder_nodup hg hroot)]
  rfl

theorem after_walkLength (hg : g.Acyclic) (hroot : root < g.size) :
    (Walk.start g root).after g (g.walkLength root) = some ((Walk.start g root).run g) := by
  obtain ⟨count, hcount⟩ := Walk.exists_after_run g (Walk.start g root)
  have haccount := Walk.stackWork_after hcount
  rw [Walk.run_stack, walk_entered, ← walkLength_eq_cost hg hroot, Walk.stackWork,
    Nat.zero_add] at haccount
  rwa [← haccount]

/-- A walk on an acyclic graph ends after `walkLength` steps and not before, and between any two of
its steps the invariant holds. -/
theorem walk_ends (hg : g.Acyclic) (hroot : root < g.size) :
    (∀ count ≤ g.walkLength root, ∃ w, (Walk.start g root).after g count = some w ∧
      w.Snapshot g root ∧ (w.stack = [] ↔ count = g.walkLength root)) ∧
    (Walk.start g root).after g (g.walkLength root) = some ((Walk.start g root).run g) ∧
    ∀ count > g.walkLength root, (Walk.start g root).after g count = none := by
  have hend := after_walkLength hg hroot
  refine ⟨fun count hcount => ?_, hend, fun count hcount => ?_⟩
  · have hsome := Walk.isSome_after (Option.isSome_of_eq_some hend) hcount
    obtain ⟨w, hw⟩ := Option.isSome_iff_exists.mp hsome
    refine ⟨w, hw, ((Walk.Invariant.start hroot).after hg hw).snapshot hg hroot, ?_, ?_⟩
    · intro hstack
      refine Nat.le_antisymm hcount (Nat.le_of_not_lt fun hlt => ?_)
      cases hend.symm.trans (Walk.after_eq_none hw hstack hlt)
    · rintro rfl
      rw [Option.some.inj (hw.symm.trans hend), Walk.run_stack]
  · exact Walk.after_eq_none hend (Walk.run_stack g _) hcount

theorem diamond_walk_ends : diamond.Acyclic ∧ 5 < diamond.size ∧ diamond.walkLength 5 = 13 ∧
    ∀ count ≤ 13, ∃ w, (Walk.start diamond 5).after diamond count = some w ∧
      w.Snapshot diamond 5 ∧ (w.stack = [] ↔ count = 13) := by
  have hacyclic := diamond_wellFormed.acyclic
  have hroot : 5 < diamond.size := by decide
  obtain ⟨hbefore, -, hafter⟩ := walk_ends hacyclic hroot
  have hlast : ((Walk.start diamond 5).after diamond 13).map (·.stack.isEmpty) = some true := by
    decide
  have hlength : diamond.walkLength 5 = 13 := by
    obtain ⟨w, hw, hstack⟩ := Option.map_eq_some_iff.mp hlast
    have hle : 13 ≤ diamond.walkLength 5 := by
      refine Nat.le_of_not_lt fun hlt => ?_
      cases hw.symm.trans (hafter 13 hlt)
    obtain ⟨w', hw', -, hiff⟩ := hbefore 13 hle
    obtain rfl := Option.some.inj (hw.symm.trans hw')
    exact (hiff.mp (List.isEmpty_iff.mp hstack)).symm
  exact ⟨hacyclic, hroot, hlength, hlength ▸ hbefore⟩

end Graph

end Patchbay
