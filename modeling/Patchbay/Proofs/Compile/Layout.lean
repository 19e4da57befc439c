import Patchbay.Compile.Basic
import Patchbay.Proofs.Graph.Schedule

/-!
# Layouts of acyclic graphs

The layout of a root has one node for each scheduled place, in the same order, so positions mean
the same in both (`Layout.ofGraph_nodes_eq_some_iff`). An input of a scheduled node refers to an
earlier position, and its operand is decided by the node found there (`Layout.exists_producer`):
the literal of a constant, and otherwise the slot of that position.

`Layout.rank` is the number of slots before a position. The table `Layout.ranks` holds exactly
these numbers, which grow at every position with a slot.
-/

namespace Patchbay

variable {g : Graph} {root id : NodeId} {constantKind : String}

/-! ### Nodes by position -/

theorem getElem?_filterMap_of_isSome {α β : Type} {f : α → Option β} {l : List α}
    (h : ∀ a ∈ l, (f a).isSome) (i : Nat) : (l.filterMap f)[i]? = l[i]?.bind f := by
  induction l generalizing i with
  | nil => rfl
  | cons a l ih =>
    obtain ⟨b, hb⟩ := Option.isSome_iff_exists.mp (h a List.mem_cons_self)
    rw [List.filterMap_cons_some hb]
    cases i with
    | zero => simp [hb]
    | succ i => simpa using ih (fun a ha => h a (List.mem_cons_of_mem _ ha)) i

theorem Graph.exists_node?_of_lt (h : id < g.size) : ∃ node, g.node? id = some node :=
  Option.isSome_iff_exists.mp (node?_isSome.mpr h)

theorem Graph.kind_of_node? {node : Node} (h : g.node? id = some node) : g.kind id = node.kind := by
  simp [kind, h]

namespace Layout

theorem ofGraph_nodes_toList (g : Graph) (root : NodeId) (constantKind : String) :
    (ofGraph g root constantKind).nodes.toList =
      (g.postorder root).toList.filterMap g.node? := by
  simp [ofGraph, Graph.schedule_order]

/-- The kind of the node at a position, with or without its place. -/
theorem map_kind_placedAt (l : Layout) (i : Nat) :
    (l.placedAt i).map (·.kind) = l.nodes[i]?.map (·.kind) := by
  rw [placedAt, Option.map_map]
  rfl

private theorem node?_isSome_of_mem (hg : g.Acyclic) (hroot : root < g.size) :
    ∀ id ∈ (g.postorder root).toList, (g.node? id).isSome := fun _ hid =>
  Graph.node?_isSome.mpr (hg.reachable_lt_size hroot ((Graph.mem_postorder hg hroot).mp hid))

theorem ofGraph_nodes_getElem? (hg : g.Acyclic) (hroot : root < g.size) (i : Nat) :
    (ofGraph g root constantKind).nodes[i]? = (g.postorder root)[i]?.bind g.node? := by
  rw [← Array.getElem?_toList, ofGraph_nodes_toList,
    getElem?_filterMap_of_isSome (node?_isSome_of_mem hg hroot), Array.getElem?_toList]

/-- The node at a position is the one scheduled there. -/
theorem ofGraph_nodes_eq_some_iff (hg : g.Acyclic) (hroot : root < g.size) {i : Nat} {node : Node} :
    (ofGraph g root constantKind).nodes[i]? = some node ↔
      ∃ id, (g.postorder root)[i]? = some id ∧ g.node? id = some node := by
  rw [ofGraph_nodes_getElem? hg hroot, Option.bind_eq_some_iff]

theorem ofGraph_nodes_size (hg : g.Acyclic) (hroot : root < g.size) :
    (ofGraph g root constantKind).nodes.size = (g.postorder root).size := by
  rw [← Array.length_toList, ofGraph_nodes_toList, List.length_filterMap_eq_countP,
    List.countP_eq_length.mpr (node?_isSome_of_mem hg hroot), Array.length_toList]

/-! ### Operands -/

/-- What a node at a position is to the nodes it feeds. -/
theorem operandAt_of_getElem? {l : Layout} {i : Nat} {node : Node} (h : l.nodes[i]? = some node) :
    l.operandAt i = if l.isConstant node then .literal node.literal else .slot i := by
  simp [operandAt, h]

/-- An input that is a node stands at an earlier position, and both the operand and the producer
of the input are what that position says. -/
theorem exists_producer (hg : g.Acyclic) (hroot : root < g.size) {i : Nat} {producer : NodeId}
    (hi : (g.postorder root)[i]? = some id) (hfeeds : g.Feeds producer id) :
    ∃ j node, j < i ∧ (g.postorder root)[j]? = some producer ∧ g.node? producer = some node ∧
      (ofGraph g root constantKind).producer? (.node producer) = some j ∧
      (ofGraph g root constantKind).operand (.node producer) =
        if node.kind = constantKind then .literal node.literal else .slot j := by
  obtain ⟨j, hj, hproducer⟩ := Graph.exists_lt_of_feeds hg hroot hi hfeeds
  obtain ⟨node, hnode⟩ := Graph.exists_node?_of_lt (hg.lt_size hfeeds)
  have hposition : (ofGraph g root constantKind).position? producer = some j :=
    Graph.position?_of_getElem? hg hroot hproducer
  have hat : (ofGraph g root constantKind).nodes[j]? = some node :=
    (ofGraph_nodes_eq_some_iff hg hroot).mpr ⟨producer, hproducer, hnode⟩
  refine ⟨j, node, hj, hproducer, hnode, ?_, ?_⟩
  · simp [producer?, Input.node?, hposition]
  · simp only [operand, hposition, Option.getD_some, operandAt_of_getElem? hat, isConstant,
      decide_eq_true_eq]
    rfl

/-! ### Ranks -/

/-- The number of nodes with a slot before a position. -/
def rank (l : Layout) (i : Nat) : Nat :=
  (l.nodes.toList.take i).countP (!l.isConstant ·)

private theorem foldl_ranks (l : Layout) (nodes : List Node) (ranks : Array Nat) (count : Nat) :
    (nodes.foldl (fun (ranks, count) node =>
        (ranks.push count, if l.isConstant node then count else count + 1))
        (ranks, count)).1.toList =
      ranks.toList ++ (List.range nodes.length).map fun i =>
        count + (nodes.take i).countP (!l.isConstant ·) := by
  induction nodes generalizing ranks count with
  | nil => simp
  | cons node nodes ih =>
    rw [List.foldl_cons, ih, List.length_cons, List.range_succ_eq_map, List.map_cons, List.map_map,
      Array.toList_push, List.append_assoc]
    congr 1
    refine congrArg₂ List.cons (by simp) (List.map_congr_left fun i _ => ?_)
    by_cases hconst : l.isConstant node
    · simp [hconst]
    · simp [hconst]
      omega

theorem ranks_getElem? {l : Layout} {i : Nat} (h : i < l.nodes.size) :
    l.ranks[i]? = some (l.rank i) := by
  have hranks := foldl_ranks l l.nodes.toList #[] 0
  rw [Array.foldl_toList] at hranks
  rw [← Array.getElem?_toList, ranks, hranks]
  simp [h, rank]

/-- A position with a slot adds one to the ranks after it. -/
theorem rank_lt_rank {l : Layout} {i j : Nat} {node : Node} (hi : l.nodes[i]? = some node)
    (hslot : l.isConstant node = false) (hij : i < j) : l.rank i < l.rank j := by
  have hnext : l.rank (i + 1) = l.rank i + 1 := by
    rw [rank, List.take_add_one, Array.getElem?_toList, hi, List.countP_append, ← rank]
    simp [hslot]
  have hmono : l.rank (i + 1) ≤ l.rank j :=
    (List.take_sublist_take_left (l := l.nodes.toList) hij).countP_le
  omega

end Layout

end Patchbay
