import Patchbay.Graph.Basic

/-!
# Depth-first walk

The walk visits everything a root depends on. It keeps its own stack of frames, one for each node
it is inside of, with the inputs of that node still to be looked at. A node is marked when it is
entered and appended to the order when it is left, so it comes after its inputs, and sibling
inputs come out in their order.

One step looks at one input or leaves one node. The inputs ahead of the walk, plus one for each
node still to be left, are its outstanding `work`; each step takes exactly one off
(`Walk.work_advance`), which is why the walk ends.
-/

namespace Patchbay

/-- A node that the walk is inside of, and its inputs still to be looked at. -/
structure Frame where
  node : NodeId
  rest : List Input

/-- The state of a walk: the frames, innermost first, the nodes marked so far, and the nodes left
so far. -/
structure Walk where
  stack : List Frame
  marks : Array Bool
  order : Array NodeId

namespace Walk

variable (g : Graph)

/-- Whether a node has been entered. A reference to no node counts as entered, so that the walk
passes over it. -/
def isMarked (w : Walk) (id : NodeId) : Bool :=
  w.marks.getD id true

/-- The walk that has just entered the root. -/
def start (root : NodeId) : Walk where
  stack := [⟨root, g.inputs root⟩]
  marks := (Array.replicate g.size false).setIfInBounds root true
  order := #[]

/-- One step of a walk whose innermost frame is `frame` and whose other frames are `below`. -/
def advance (w : Walk) (frame : Frame) (below : List Frame) : Walk :=
  match frame.rest with
  | [] => { w with stack := below, order := w.order.push frame.node }
  | .immediate _ :: rest => { w with stack := ⟨frame.node, rest⟩ :: below }
  | .node id :: rest =>
    if w.isMarked id then { w with stack := ⟨frame.node, rest⟩ :: below }
    else
      { w with
        stack := ⟨id, g.inputs id⟩ :: ⟨frame.node, rest⟩ :: below
        marks := w.marks.setIfInBounds id true }

/-- One step of a walk; `none` when it is over. -/
def step (w : Walk) : Option Walk :=
  match w.stack with
  | [] => none
  | frame :: below => some (w.advance g frame below)

/-! ### The work that is left -/

/-- The steps that a node takes: one for each input, and one for leaving it. -/
def weight (id : NodeId) : Nat :=
  (g.inputs id).length + 1

/-- The steps that unmarked nodes among the first `n` places would take. -/
def unmarkedWork (marks : Array Bool) : (n : Nat) → Nat
  | 0 => 0
  | n + 1 => unmarkedWork marks n + if marks.getD n true then 0 else weight g n

/-- The steps still to come for the frames of a stack. -/
def stackWork : (stack : List Frame) → Nat
  | [] => 0
  | frame :: below => frame.rest.length + 1 + stackWork below

/-- The steps that a walk would still take if it entered every unmarked node. -/
def work (w : Walk) : Nat :=
  unmarkedWork g w.marks w.marks.size + stackWork w.stack

theorem getD_setIfInBounds (marks : Array Bool) (id n : Nat) (h : id < marks.size) :
    (marks.setIfInBounds id true).getD n true = (decide (id = n) || marks.getD n true) := by
  simp only [Array.getD_eq_getD_getElem?, Array.getElem?_setIfInBounds]
  by_cases hn : id = n
  · subst hn; simp [h]
  · simp [hn]

private theorem unmarkedWork_mark_of_le (marks : Array Bool) (id n : Nat) (h : id < marks.size)
    (hn : n ≤ id) :
    unmarkedWork g (marks.setIfInBounds id true) n = unmarkedWork g marks n := by
  induction n with
  | zero => rfl
  | succ n ih =>
    have hne : id ≠ n := by omega
    simp [unmarkedWork, ih (by omega), getD_setIfInBounds marks id n h, hne]

/-- Marking an unmarked node takes its weight off the outstanding work. -/
private theorem unmarkedWork_mark (marks : Array Bool) (id n : Nat) (h : id < marks.size)
    (hmark : marks.getD id true = false) (hn : id < n) :
    unmarkedWork g (marks.setIfInBounds id true) n + weight g id = unmarkedWork g marks n := by
  induction n with
  | zero => omega
  | succ n ih =>
    by_cases hid : id = n
    · subst hid
      simp [unmarkedWork, unmarkedWork_mark_of_le g marks id id h (Nat.le_refl _),
        getD_setIfInBounds marks id id h, hmark]
    · have := ih (by omega)
      simp only [unmarkedWork, getD_setIfInBounds marks id n h, hid, decide_false, Bool.false_or]
      omega

/-- A step takes exactly one off the outstanding work. -/
theorem work_advance (w : Walk) (frame : Frame) (below : List Frame)
    (h : w.stack = frame :: below) :
    (w.advance g frame below).work g + 1 = w.work g := by
  obtain ⟨node, rest⟩ := frame
  match rest with
  | [] => simp [work, advance, h, stackWork]; omega
  | .immediate _ :: rest => simp [work, advance, h, stackWork]; omega
  | .node id :: rest =>
    by_cases hm : w.isMarked id
    · simp [work, advance, h, hm, stackWork]; omega
    · have hfalse : w.marks.getD id true = false := by simpa [isMarked] using hm
      have hlt : id < w.marks.size := by
        apply Decidable.byContradiction
        intro hge
        simp [Array.getD, hge] at hfalse
      have := unmarkedWork_mark g w.marks id w.marks.size hlt hfalse hlt
      simp only [weight] at this
      simp [work, advance, h, hm, stackWork]
      omega

/-- Walks on until the stack is empty. -/
def run (w : Walk) : Walk :=
  match h : w.stack with
  | [] => w
  | frame :: below =>
    have := work_advance g w frame below h
    run (w.advance g frame below)
termination_by w.work g

end Walk

end Patchbay
