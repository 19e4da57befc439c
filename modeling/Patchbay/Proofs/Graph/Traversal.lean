import Mathlib.Data.Finset.Insert
import Patchbay.Proofs.Graph.Schedule

/-!
# The walk and the recursive traversal

Depth-first postorder is usually given by recursion: a node that has been visited is passed over;
any other is marked, then its inputs are visited in order, then the node itself is appended.
`Graph.visit` is this definition, by recursion over the inputs of an acyclic graph. The set of
visited nodes is threaded through, so a node that two inputs share is visited for the first of them.

A walk keeps a stack of half-read input lists in place of the calls. `Walk.run_frame` is the
simulation: working off one frame does to marks and order what the recursive visits of its
remaining inputs do, and then leaves the node.
-/

namespace Patchbay

variable {g : Graph} {root id : NodeId}

/-! ### The recursive definition -/

/-- How far a traversal has come: the nodes visited, and the nodes appended. -/
structure Traversal where
  visited : Finset NodeId := ∅
  order : List NodeId := []

namespace Traversal

/-- Notes that a node has been visited. -/
def mark (t : Traversal) (id : NodeId) : Traversal :=
  { t with visited := insert id t.visited }

/-- Appends a node. -/
def append (t : Traversal) (id : NodeId) : Traversal :=
  { t with order := t.order ++ [id] }

@[simp] theorem mark_visited (t : Traversal) (id : NodeId) :
    (t.mark id).visited = insert id t.visited := rfl

@[simp] theorem mark_order (t : Traversal) (id : NodeId) : (t.mark id).order = t.order := rfl

@[simp] theorem append_visited (t : Traversal) (id : NodeId) :
    (t.append id).visited = t.visited := rfl

@[simp] theorem append_order (t : Traversal) (id : NodeId) :
    (t.append id).order = t.order ++ [id] := rfl

end Traversal

/-- Visits a node: nothing if it has been visited, and otherwise a visit to each of its inputs
between marking the node and appending it. -/
def Graph.visit (hg : g.Acyclic) (t : Traversal) (id : NodeId) : Traversal :=
  if id ∈ t.visited then t
  else
    let inner := (g.producers id).attach.foldl (fun t p => visit hg t p.val) (t.mark id)
    inner.append id
termination_by hg.wellFounded.wrap id
decreasing_by exact mem_producers.mp p.property

namespace Graph

theorem visit_of_mem (hg : g.Acyclic) {t : Traversal} (h : id ∈ t.visited) :
    g.visit hg t id = t := by
  rw [visit, if_pos h]

theorem visit_of_notMem (hg : g.Acyclic) {t : Traversal} (h : id ∉ t.visited) :
    g.visit hg t id = ((g.producers id).foldl (g.visit hg) (t.mark id)).append id := by
  rw [visit, if_neg h, List.foldl_attach]

end Graph

/-! ### The simulation -/

namespace Walk

theorem run_nil {w : Walk} (hstack : w.stack = []) : w.run g = w := by
  rw [run]
  split
  · rfl
  · simp_all

theorem run_cons {w : Walk} {frame : Frame} {below : List Frame}
    (hstack : w.stack = frame :: below) : w.run g = (w.advance g frame below).run g := by
  rw [run]
  split
  · simp_all
  · rename_i frame' below' hstack'
    rw [hstack, List.cons.injEq] at hstack'
    rw [hstack'.1, hstack'.2]

/-- A walk has marked and left the nodes that a traversal has visited and appended. -/
structure Agrees (g : Graph) (w : Walk) (t : Traversal) : Prop where
  order : w.order.toList = t.order
  size : w.marks.size = g.size
  marked : ∀ id, id < g.size → (w.isMarked id = true ↔ id ∈ t.visited)

namespace Agrees

variable {w : Walk} {t : Traversal}

theorem start (g : Graph) (root : NodeId) :
    Agrees g (Walk.start g root) (({} : Traversal).mark root) where
  order := rfl
  size := by simp [Walk.start]
  marked := by
    intro id hid
    by_cases hroot : root < g.size
    · rw [isMarked, Walk.start, getD_setIfInBounds _ _ _ (by simpa using hroot)]
      simp [hid, eq_comm]
    · have hne : id ≠ root := fun h => hroot (h ▸ hid)
      simp [isMarked, Walk.start, Array.setIfInBounds, hroot, hid, hne]

/-- Only marks and order matter. -/
theorem of_stack (h : Agrees g w t) (stack : List Frame) : Agrees g { w with stack } t :=
  ⟨h.order, h.size, h.marked⟩

theorem leave (h : Agrees g w t) (stack : List Frame) (id : NodeId) :
    Agrees g { w with stack, order := w.order.push id } (t.append id) :=
  ⟨by simp [h.order], h.size, h.marked⟩

theorem enter (h : Agrees g w t) (stack : List Frame) (hid : id < g.size) :
    Agrees g { w with stack, marks := w.marks.setIfInBounds id true } (t.mark id) where
  order := h.order
  size := by simp [h.size]
  marked := by
    intro id' hid'
    rw [isMarked, getD_setIfInBounds _ _ _ (h.size.symm ▸ hid), Bool.or_eq_true,
      decide_eq_true_eq, Traversal.mark_visited, Finset.mem_insert, ← h.marked id' hid', isMarked,
      eq_comm]

end Agrees

/-- Working off one frame does what the recursive visits of its remaining inputs do, and then
leaves the node; the frames below are not touched. The induction is over the node and, inside, over
its remaining inputs: entering an input calls for the claim about that input's own frame, after
which this frame is taken up where it was left. -/
theorem run_frame (hg : g.Acyclic) {node : NodeId} {rest : List Input} {w : Walk} {t : Traversal}
    {below : List Frame} (hrest : ∀ id, Input.node id ∈ rest → g.Feeds id node)
    (hstack : w.stack = ⟨node, rest⟩ :: below) (hw : Agrees g w t) :
    ∃ w', w.run g = w'.run g ∧ w'.stack = below ∧
      Agrees g w' (((rest.filterMap Input.node?).foldl (g.visit hg) t).append node) := by
  induction node using hg.wellFounded.induction generalizing rest w t below with
  | _ node ihnode =>
  induction rest generalizing w t with
  | nil => exact ⟨_, run_cons hstack, rfl, hw.leave below node⟩
  | cons input rest ihrest =>
    have hrest' : ∀ id, Input.node id ∈ rest → g.Feeds id node :=
      fun id hid => hrest id (List.mem_cons_of_mem _ hid)
    match input with
    | .immediate _ =>
      rw [run_cons hstack]
      exact ihrest hrest' rfl (hw.of_stack _)
    | .node id =>
      have hfeeds : g.Feeds id node := hrest id List.mem_cons_self
      have hid : id < g.size := hg.lt_size hfeeds
      rw [run_cons hstack, List.filterMap_cons]
      simp only [Input.node?, List.foldl_cons]
      by_cases hmark : w.isMarked id
      · rw [Graph.visit_of_mem hg ((hw.marked id hid).mp hmark)]
        simp only [advance, hmark, if_true]
        exact ihrest hrest' rfl (hw.of_stack _)
      · rw [Graph.visit_of_notMem hg (mt (hw.marked id hid).mpr hmark)]
        simp only [advance, hmark]
        obtain ⟨w₁, hrun₁, hstack₁, hw₁⟩ := ihnode id hfeeds (fun _ h => h) rfl (hw.enter _ hid)
        obtain ⟨w₂, hrun₂, hstack₂, hw₂⟩ := ihrest hrest' hstack₁ hw₁
        exact ⟨w₂, hrun₁.trans hrun₂, hstack₂, hw₂⟩

end Walk

/-- The walk marks its root, visits the inputs of the root and leaves the root last. -/
theorem Graph.postorder_eq_foldl_visit (hg : g.Acyclic) (root : NodeId) :
    (g.postorder root).toList =
      ((g.producers root).foldl (g.visit hg) (({} : Traversal).mark root)).order ++ [root] := by
  obtain ⟨w, hrun, hstack, hw⟩ :=
    Walk.run_frame hg (fun _ h => h) (rfl : (Walk.start g root).stack = _) (.start g root)
  rw [postorder, hrun, Walk.run_nil hstack, hw.order]
  rfl

/-- The walk is the recursive traversal. On an acyclic graph, the walk with its own stack leaves
the nodes in the very order in which recursive visits append them. -/
theorem Graph.postorder_eq_visit (hg : g.Acyclic) (root : NodeId) :
    (g.postorder root).toList = (g.visit hg {} root).order := by
  obtain ⟨w, hrun, hstack, hw⟩ :=
    Walk.run_frame hg (fun _ h => h) (rfl : (Walk.start g root).stack = _) (.start g root)
  rw [postorder, hrun, Walk.run_nil hstack, hw.order, visit_of_notMem hg (by simp)]
  rfl

theorem Graph.diamond_postorder_eq_visit :
    ∃ hg : diamond.Acyclic, (diamond.postorder 5).toList = (diamond.visit hg {} 5).order :=
  ⟨diamond_wellFormed.acyclic, postorder_eq_visit diamond_wellFormed.acyclic 5⟩

end Patchbay
