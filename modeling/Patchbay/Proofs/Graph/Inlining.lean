import Patchbay.Proofs.Graph.Composition
import Patchbay.Proofs.Meaning.Evaluation

/-!
# Constants written in place

A constant that has no inputs is no more than its literal, and an input that refers to it can as
well be an immediate. `Graph.inlined` makes all such inputs immediates.

Nothing depends on these constants any more, and nothing else changes. The order of a node is what
it was with the constants left out (`Graph.postorder_inlined`): orders compose from those of the
inputs, and that of a constant without inputs is the constant alone.
-/

namespace Patchbay

/-- Elements that give nothing can be left out of a list. -/
theorem flatMap_filter_eq {α β : Type} {p : α → Bool} {f f' : α → List β} {l : List α}
    (hkept : ∀ a ∈ l, p a → f' a = f a) (hleft : ∀ a ∈ l, p a = false → f a = []) :
    (l.filter p).flatMap f' = l.flatMap f := by
  induction l with
  | nil => rfl
  | cons a l ih =>
    have ih := ih (fun b hb => hkept b (List.mem_cons_of_mem a hb))
      fun b hb => hleft b (List.mem_cons_of_mem a hb)
    cases ha : p a with
    | true =>
      rw [List.filter_cons_of_pos ha, List.flatMap_cons, List.flatMap_cons,
        hkept a List.mem_cons_self ha, ih]
    | false =>
      rw [List.filter_cons_of_neg (by simp [ha]), List.flatMap_cons, hleft a List.mem_cons_self ha,
        ih, List.nil_append]

/-! ### Plain constants -/

namespace Graph

variable {g : Graph} {kind : String} {id producer : NodeId}

/-- Whether a node is of the given kind and has no inputs. -/
def isPlain (g : Graph) (kind : String) (id : NodeId) : Bool :=
  g.kind id = kind && (g.inputs id).isEmpty

theorem kind_of_isPlain (h : g.isPlain kind id) : g.kind id = kind := by
  simp only [isPlain, Bool.and_eq_true, decide_eq_true_eq] at h
  exact h.1

theorem inputs_of_isPlain (h : g.isPlain kind id) : g.inputs id = [] := by
  simp only [isPlain, Bool.and_eq_true, List.isEmpty_iff] at h
  exact h.2

end Graph

/-- The same input, with the literal of a plain constant written in place. -/
def Input.inlined (g : Graph) (kind : String) : Input → Input
  | node id => if g.isPlain kind id then immediate (g.literal id) else node id
  | immediate value => immediate value

theorem Input.node?_inlined (g : Graph) (kind : String) (input : Input) :
    (input.inlined g kind).node? = input.node?.filter (!g.isPlain kind ·) := by
  cases input with
  | immediate _ => rfl
  | node id =>
    rw [inlined, node?.eq_def (.node id), Option.filter_some]
    cases g.isPlain kind id <;> rfl

namespace Graph

variable {g : Graph} {kind : String} {id producer : NodeId}

/-- The same graph, with the literals of plain constants written in place. -/
def inlined (g : Graph) (kind : String) : Graph where
  nodes := g.nodes.map fun node => { node with inputs := node.inputs.map (Input.inlined g kind) }

theorem node?_inlined (g : Graph) (kind : String) (id : NodeId) :
    (g.inlined kind).node? id = (g.node? id).map fun node =>
      { node with inputs := node.inputs.map (Input.inlined g kind) } :=
  Array.getElem?_map

theorem size_inlined (g : Graph) (kind : String) : (g.inlined kind).size = g.size :=
  Array.size_map

theorem kind_inlined (g : Graph) (kind : String) (id : NodeId) :
    (g.inlined kind).kind id = g.kind id := by
  rw [Graph.kind, Graph.kind, node?_inlined]
  cases g.node? id <;> rfl

theorem literal_inlined (g : Graph) (kind : String) (id : NodeId) :
    (g.inlined kind).literal id = g.literal id := by
  rw [literal, literal, node?_inlined]
  cases g.node? id <;> rfl

theorem inputs_inlined (g : Graph) (kind : String) (id : NodeId) :
    (g.inlined kind).inputs id = (g.inputs id).map (Input.inlined g kind) := by
  rw [inputs, inputs, node?_inlined]
  cases g.node? id <;> rfl

theorem producers_inlined (g : Graph) (kind : String) (id : NodeId) :
    (g.inlined kind).producers id = (g.producers id).filter (!g.isPlain kind ·) := by
  rw [producers, producers, inputs_inlined, List.filterMap_map, List.filter_filterMap]
  exact List.filterMap_congr fun input _ => input.node?_inlined g kind

theorem feeds_inlined : (g.inlined kind).Feeds producer id ↔
    g.Feeds producer id ∧ g.isPlain kind producer = false := by
  rw [← mem_producers, producers_inlined, List.mem_filter, mem_producers, Bool.not_eq_true']

theorem Acyclic.inlined (hg : g.Acyclic) (kind : String) : (g.inlined kind).Acyclic where
  lt_size hfeeds := size_inlined g kind ▸ hg.lt_size (feeds_inlined.mp hfeeds).1
  irrefl id hid := hg.irrefl id
    (Relation.TransGen.mono (fun _ _ hfeeds => (feeds_inlined.mp hfeeds).1) id id hid)

/-- A plain constant comes alone. -/
theorem postorder_of_isPlain (hg : g.Acyclic) (h : g.isPlain kind id) :
    (g.postorder id).toList = [id] := by
  rw [postorder_eq_inputOrders hg, inputOrders, producers, inputs_of_isPlain h]
  rfl

/-- Orders leave out the constants that are written in place. -/
theorem postorder_inlined (hg : g.Acyclic) (hid : g.isPlain kind id = false) :
    ((g.inlined kind).postorder id).toList =
      (g.postorder id).toList.filter (!g.isPlain kind ·) := by
  induction id using hg.wellFounded.induction with
  | _ id ih =>
  -- the order of an input that is written in place is the input itself, which is left out
  have hinputs : (g.inlined kind).inputOrders id =
      (g.inputOrders id).filter (!g.isPlain kind ·) := by
    rw [inputOrders, inputOrders, producers_inlined, List.filter_flatMap]
    refine flatMap_filter_eq (fun producer hproducer hkept => ?_) fun producer _ hplain => ?_
    · exact ih producer (mem_producers.mp hproducer) (by simpa using hkept)
    · rw [Bool.not_eq_false'] at hplain
      simp [postorder_of_isPlain hg hplain, hplain]
  rw [postorder_eq_inputOrders (hg.inlined kind), postorder_eq_inputOrders hg, hinputs,
    List.filter_append, filter_eraseDups, List.filter_singleton, hid]
  rfl

end Graph

end Patchbay
