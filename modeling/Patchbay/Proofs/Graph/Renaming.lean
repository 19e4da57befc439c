import Mathlib.Data.Set.Function
import Patchbay.Proofs.Graph.Traversal

/-!
# Graphs that differ in names only

A node is known by its place in the table, and that place says when the node was appended and what
else is in the table. None of this should matter. `Graph.Renames` says that two roots depend on the
same nodes up to a renaming of places; of nodes that the roots do not depend on it says nothing.

The two walks then go in lock step. `Walk.Matches` relates them at every step: the frames and the
order of one are those of the other, renamed, and a node is marked in one if and only if it is
marked in the other. `Graph.Renames.postorder` and `Graph.Renames.position?` say what this makes of
the two schedules. No use is made of acyclicity: walks around a cycle match as well.
-/

namespace Patchbay

variable {σ : NodeId → NodeId} {g g' : Graph} {root root' id : NodeId}

/-! ### Renaming -/

/-- The same input, with another name for its node. -/
def Input.rename (σ : NodeId → NodeId) : Input → Input
  | node id => node (σ id)
  | immediate value => immediate value

/-- The same node, with other names for its inputs. -/
def Node.rename (σ : NodeId → NodeId) (node : Node) : Node :=
  { node with inputs := node.inputs.map (Input.rename σ) }

@[simp] theorem Node.rename_kind (σ : NodeId → NodeId) (node : Node) :
    (node.rename σ).kind = node.kind := rfl

@[simp] theorem Node.rename_value (σ : NodeId → NodeId) (node : Node) :
    (node.rename σ).value = node.value := rfl

@[simp] theorem Node.rename_inputs (σ : NodeId → NodeId) (node : Node) :
    (node.rename σ).inputs = node.inputs.map (Input.rename σ) := rfl

/-- What `root` depends on in `g` is what `root'` depends on in `g'`, except that the nodes have
other names. Kinds, payloads and immediates are the same, and inputs come in the same order. -/
structure Graph.Renames (σ : NodeId → NodeId) (g : Graph) (root : NodeId) (g' : Graph)
    (root' : NodeId) : Prop where
  maps_root : σ root = root'
  bijOn : Set.BijOn σ {id | g.Reachable root id} {id | g'.Reachable root' id}
  node?_eq : ∀ {id}, g.Reachable root id → g'.node? (σ id) = (g.node? id).map (Node.rename σ)

namespace Graph.Renames

theorem inj (h : Renames σ g root g' root') {id' : NodeId} (hid : g.Reachable root id)
    (hid' : g.Reachable root id') : σ id = σ id' ↔ id = id' :=
  h.bijOn.injOn.eq_iff hid hid'

theorem inputs (h : Renames σ g root g' root') (hid : g.Reachable root id) :
    g'.inputs (σ id) = (g.inputs id).map (Input.rename σ) := by
  rw [Graph.inputs, Graph.inputs, h.node?_eq hid]
  cases g.node? id <;> rfl

theorem lt_size_iff (h : Renames σ g root g' root') (hid : g.Reachable root id) :
    σ id < g'.size ↔ id < g.size := by
  rw [← node?_isSome, ← node?_isSome, h.node?_eq hid, Option.isSome_map]

end Graph.Renames

/-! ### Walks in lock step -/

/-- The same frame, with other names for its nodes. -/
def Frame.rename (σ : NodeId → NodeId) (frame : Frame) : Frame where
  node := σ frame.node
  rest := frame.rest.map (Input.rename σ)

namespace Walk

/-- Two walks that differ in the names of the nodes only. -/
structure Matches (σ : NodeId → NodeId) (g : Graph) (root : NodeId) (w w' : Walk) : Prop where
  stack : w'.stack = w.stack.map (Frame.rename σ)
  order : w'.order.toList = w.order.toList.map σ
  marked : ∀ {id}, g.Reachable root id → w'.isMarked (σ id) = w.isMarked id
  /-- What the walk is inside of belongs to what the root depends on. -/
  inside : ∀ frame ∈ w.stack, g.Reachable root frame.node
  /-- So does what the walk is still to look at. -/
  ahead : ∀ frame ∈ w.stack, ∀ id, Input.node id ∈ frame.rest → g.Reachable root id
  /-- So does what the walk has left. -/
  left : ∀ id ∈ w.order.toList, g.Reachable root id

theorem isMarked_start (g : Graph) (root id : NodeId) :
    (Walk.start g root).isMarked id = (decide (root = id) || decide (g.size ≤ id)) := by
  simp only [isMarked, Walk.start, Array.getD_eq_getD_getElem?, Array.getElem?_setIfInBounds,
    Array.getElem?_replicate, Array.size_replicate]
  by_cases hroot : root = id
  · subst hroot
    by_cases hlt : root < g.size <;> simp [hlt]
  · by_cases hlt : id < g.size
    · have hge : ¬ g.size ≤ id := Nat.not_le.mpr hlt
      simp [hroot, hlt, hge]
    · have hge : g.size ≤ id := Nat.not_lt.mp hlt
      simp [hroot, hlt, hge]

/-- Only a node of the table can be unmarked. -/
theorem lt_size_of_not_marked {w : Walk} (h : w.isMarked id = false) : id < w.marks.size := by
  by_contra hge
  rw [isMarked, Array.getD_eq_getD_getElem?, Array.getElem?_eq_none (Nat.not_lt.mp hge)] at h
  cases h

namespace Matches

variable {w w' : Walk} {node : NodeId} {input : Input} {rest : List Input} {below : List Frame}

theorem start (h : Graph.Renames σ g root g' root') :
    Matches σ g root (Walk.start g root) (Walk.start g' root') where
  stack := by
    simp only [Walk.start, List.map_cons, List.map_nil, Frame.rename, ← h.inputs .root, h.maps_root]
  order := rfl
  marked := by
    intro id hid
    have hsize : g'.size ≤ σ id ↔ g.size ≤ id := by
      rw [← Nat.not_lt, ← Nat.not_lt, h.lt_size_iff hid]
    simp only [isMarked_start, ← h.maps_root, h.inj .root hid, hsize]
  inside := by
    intro frame hframe
    obtain rfl : frame = ⟨root, g.inputs root⟩ := by simpa [Walk.start] using hframe
    exact .root
  ahead := by
    intro frame hframe id hid
    obtain rfl : frame = ⟨root, g.inputs root⟩ := by simpa [Walk.start] using hframe
    exact Graph.Feeds.reachable hid
  left := by simp [Walk.start]

/-- Both walks leave their innermost node. -/
theorem leave (hw : Matches σ g root w w') (hstack : w.stack = ⟨node, []⟩ :: below) :
    Matches σ g root { w with stack := below, order := w.order.push node }
      { w' with stack := below.map (Frame.rename σ), order := w'.order.push (σ node) } where
  stack := rfl
  order := by simp [hw.order]
  marked hid := hw.marked hid
  inside frame hframe := hw.inside frame (by simp [hstack, hframe])
  ahead frame hframe := hw.ahead frame (by simp [hstack, hframe])
  left := by
    intro id hid
    rw [Array.toList_push, List.mem_append, List.mem_singleton] at hid
    rcases hid with hid | rfl
    · exact hw.left id hid
    · exact hw.inside ⟨id, []⟩ (by simp [hstack])

/-- Both walks go past an input. -/
theorem pass (hw : Matches σ g root w w') (hstack : w.stack = ⟨node, input :: rest⟩ :: below) :
    Matches σ g root { w with stack := ⟨node, rest⟩ :: below }
      { w' with stack := ⟨σ node, rest.map (Input.rename σ)⟩ :: below.map (Frame.rename σ) } where
  stack := rfl
  order := hw.order
  marked hid := hw.marked hid
  inside := by
    intro frame hframe
    rcases List.mem_cons.mp hframe with rfl | hframe
    · exact hw.inside ⟨node, input :: rest⟩ (by simp [hstack])
    · exact hw.inside frame (by simp [hstack, hframe])
  ahead := by
    intro frame hframe id hid
    rcases List.mem_cons.mp hframe with rfl | hframe
    · exact hw.ahead ⟨node, input :: rest⟩ (by simp [hstack]) id (List.mem_cons_of_mem _ hid)
    · exact hw.ahead frame (by simp [hstack, hframe]) id hid
  left := hw.left

/-- Both walks enter a node. -/
theorem enter (h : Graph.Renames σ g root g' root') (hw : Matches σ g root w w')
    (hid : g.Reachable root id) (hmark : w.isMarked id = false) :
    Matches σ g root
      { w with
        stack := ⟨id, g.inputs id⟩ :: w.stack
        marks := w.marks.setIfInBounds id true }
      { w' with
        stack := ⟨σ id, g'.inputs (σ id)⟩ :: w'.stack
        marks := w'.marks.setIfInBounds (σ id) true } where
  stack := by
    simp only [List.map_cons, Frame.rename, ← h.inputs hid, ← hw.stack]
  order := hw.order
  marked := by
    intro other hother
    have hmark' : w'.isMarked (σ id) = false := (hw.marked hid).trans hmark
    have hold : w'.marks.getD (σ other) true = w.marks.getD other true := hw.marked hother
    rw [isMarked, isMarked, getD_setIfInBounds _ _ _ (lt_size_of_not_marked hmark),
      getD_setIfInBounds _ _ _ (lt_size_of_not_marked hmark'), hold]
    simp only [h.inj hid hother]
  inside := by
    intro frame hframe
    rcases List.mem_cons.mp hframe with rfl | hframe
    · exact hid
    · exact hw.inside frame hframe
  ahead := by
    intro frame hframe other hother
    rcases List.mem_cons.mp hframe with rfl | hframe
    · exact hid.feeds hother
    · exact hw.ahead frame hframe other hother
  left := hw.left

/-- A step keeps two walks in lock step. -/
theorem advance {frame : Frame} (h : Graph.Renames σ g root g' root')
    (hw : Matches σ g root w w') (hstack : w.stack = frame :: below) :
    Matches σ g root (w.advance g frame below)
      (w'.advance g' (frame.rename σ) (below.map (Frame.rename σ))) := by
  obtain ⟨node, rest⟩ := frame
  match rest with
  | [] => exact hw.leave hstack
  | .immediate _ :: rest => exact hw.pass hstack
  | .node id :: rest =>
    have hid : g.Reachable root id :=
      hw.ahead ⟨node, .node id :: rest⟩ (by simp [hstack]) id List.mem_cons_self
    have hpass := hw.pass hstack
    simp only [Frame.rename, List.map_cons, Input.rename, Walk.advance, hw.marked hid]
    cases hmark : w.isMarked id with
    | true => exact hpass
    -- the node is entered from the frame that has gone past it
    | false => exact hpass.enter h hid hmark

/-- Whole walks stay in lock step. -/
theorem run (h : Graph.Renames σ g root g' root') (hw : Matches σ g root w w') :
    Matches σ g root (w.run g) (w'.run g') := by
  fun_induction Walk.run g w generalizing w' with
  | case1 w hstack =>
    have hstack' : w'.stack = [] := by rw [hw.stack, hstack, List.map_nil]
    rwa [run_nil hstack']
  | case2 w frame below hstack _ ih =>
    have hstack' : w'.stack = frame.rename σ :: below.map (Frame.rename σ) := by
      rw [hw.stack, hstack, List.map_cons]
    rw [run_cons hstack']
    exact ih (hw.advance h hstack)

end Matches

end Walk

/-! ### Schedules -/

namespace Graph.Renames

theorem walk_matches (h : Renames σ g root g' root') :
    Walk.Matches σ g root ((Walk.start g root).run g) ((Walk.start g' root').run g') :=
  (Walk.Matches.start h).run h

/-- Nodes are left in corresponding orders. -/
theorem postorder (h : Renames σ g root g' root') :
    (g'.postorder root').toList = (g.postorder root).toList.map σ :=
  h.walk_matches.order

theorem reachable_of_mem_postorder (h : Renames σ g root g' root')
    (hid : id ∈ (g.postorder root).toList) : g.Reachable root id :=
  h.walk_matches.left id hid

/-- Two tables that agree up to names still do after corresponding nodes have been entered. -/
theorem fillPositions (h : Renames σ g root g' root') {ids : List NodeId}
    (hids : ∀ id ∈ ids, g.Reachable root id) (start : Nat) {table table' : Array (Option Nat)}
    (hsize : ∀ {id}, g.Reachable root id → (σ id < table'.size ↔ id < table.size))
    (htable : ∀ {id}, g.Reachable root id → table'.getD (σ id) none = table.getD id none)
    (hid : g.Reachable root id) :
    (Schedule.fillPositions (ids.map σ) start table').getD (σ id) none =
      (Schedule.fillPositions ids start table).getD id none := by
  induction ids generalizing start table table' with
  | nil => exact htable hid
  | cons first ids ih =>
    have hfirst : g.Reachable root first := hids first List.mem_cons_self
    rw [List.map_cons, Schedule.fillPositions, Schedule.fillPositions]
    refine ih (fun id hid => hids id (List.mem_cons_of_mem _ hid)) (start + 1) ?_ ?_
    · intro id hid
      simpa using hsize hid
    · intro other hother
      have hold := htable hother
      simp only [Array.getD_eq_getD_getElem?] at hold
      simp only [Array.getD_eq_getD_getElem?, Array.getElem?_setIfInBounds, h.inj hfirst hother,
        hsize hfirst]
      split
      · rfl
      · exact hold

/-- Corresponding nodes have the same position. -/
theorem position? (h : Renames σ g root g' root') (hid : g.Reachable root id) :
    (g'.schedule root').position? (σ id) = (g.schedule root).position? id := by
  rw [Schedule.position?, Schedule.position?, schedule, schedule, h.postorder]
  refine h.fillPositions (fun _ => h.reachable_of_mem_postorder) 0 ?_ ?_ hid
  · intro id hid
    simp [h.lt_size_iff hid]
  · intro id _
    simp only [Array.getD_eq_getD_getElem?, Array.getElem?_replicate]
    split <;> split <;> rfl

/-- Every graph is itself up to names. -/
theorem refl (g : Graph) (root : NodeId) : Renames (fun id => id) g root g root where
  maps_root := rfl
  bijOn := Set.bijOn_id _
  node?_eq {id} _ := by
    have hinput : Input.rename (fun id => id) = (fun input => input) := by
      funext input
      cases input <;> rfl
    have hnode : Node.rename (fun id => id) = (fun node => node) := by
      funext node
      rw [Node.rename, hinput, List.map_id']
    rw [hnode, Option.map_id']

end Graph.Renames

/-- A walk never leaves what its root depends on. -/
theorem Graph.reachable_of_mem_postorder (h : id ∈ (g.postorder root).toList) :
    g.Reachable root id :=
  (Renames.refl g root).reachable_of_mem_postorder h

end Patchbay
