import Patchbay.Kind
import Patchbay.Proofs.Graph.Walk

/-!
# Schedules list what a root depends on, inputs first

`Schedule.Linearizes` says what the schedule of a root is to be: it lists exactly the nodes that
the root depends on, each once and after its inputs, with the root last, and its table of positions
is the inverse of the list. `Graph.schedule_linearizes` is the result, for every acyclic graph; the
list comes from the walk (`Graph.postorder`), the table from `Schedule.fillPositions`.

Nodes are compared by their place in the graph. Two nodes with equal contents have a position each.
-/

namespace Patchbay

variable {g : Graph} {root id : NodeId}

/-! ### The table of positions -/

namespace Schedule

/-- Nodes that are not listed keep what the table had for them. -/
theorem fillPositions_of_notMem {ids : List NodeId} (start : Nat) (table : Array (Option Nat))
    (h : id ∉ ids) : (fillPositions ids start table).getD id none = table.getD id none := by
  induction ids generalizing start table with
  | nil => rfl
  | cons first ids ih =>
    rw [List.mem_cons, not_or] at h
    rw [fillPositions, ih _ _ h.2]
    simp only [Array.getD_eq_getD_getElem?, Array.getElem?_setIfInBounds]
    rw [if_neg (Ne.symm h.1)]

/-- A listed node gets its place in the list, counted from `start`. -/
theorem fillPositions_of_getElem? {ids : List NodeId} (start : Nat) {i : Nat}
    {table : Array (Option Nat)} (hnodup : ids.Nodup) (hsize : ∀ id ∈ ids, id < table.size)
    (h : ids[i]? = some id) :
    (fillPositions ids start table).getD id none = some (start + i) := by
  induction ids generalizing start i table with
  | nil => simp at h
  | cons first ids ih =>
    rw [List.nodup_cons] at hnodup
    rw [fillPositions]
    cases i with
    | zero =>
      obtain rfl : first = id := by simpa using h
      have hlt : first < table.size := hsize first List.mem_cons_self
      rw [fillPositions_of_notMem _ _ hnodup.1]
      simp [Array.getD_eq_getD_getElem?, hlt]
    | succ i =>
      rw [ih _ hnodup.2 (fun id hid => by simpa using hsize id (List.mem_cons_of_mem _ hid))
        (by simpa using h)]
      rw [Nat.add_right_comm, Nat.add_assoc]

end Schedule

namespace Graph

theorem schedule_order (g : Graph) (root : NodeId) : (g.schedule root).order = g.postorder root :=
  rfl

theorem position?_of_getElem? (hg : g.Acyclic) (hroot : root < g.size) {i : Nat}
    (h : (g.postorder root)[i]? = some id) : (g.schedule root).position? id = some i := by
  have hsize : ∀ id ∈ (g.postorder root).toList,
      id < (Array.replicate g.size (none : Option Nat)).size := fun id hid => by
    rw [Array.size_replicate]
    exact hg.reachable_lt_size hroot ((mem_postorder hg hroot).mp hid)
  rw [← Array.getElem?_toList] at h
  rw [Schedule.position?, schedule,
    Schedule.fillPositions_of_getElem? 0 (postorder_nodup hg hroot) hsize h, Nat.zero_add]

theorem position?_of_not_reachable (hg : g.Acyclic) (hroot : root < g.size)
    (h : ¬ g.Reachable root id) : (g.schedule root).position? id = none := by
  rw [← mem_postorder hg hroot] at h
  rw [Schedule.position?, schedule, Schedule.fillPositions_of_notMem _ _ h,
    Array.getD_eq_getD_getElem?, Array.getElem?_replicate]
  split <;> rfl

/-- Everything that the root depends on has a place in the list. -/
theorem exists_getElem?_postorder (hg : g.Acyclic) (hroot : root < g.size)
    (h : g.Reachable root id) : ∃ i : Nat, (g.postorder root)[i]? = some id := by
  obtain ⟨i, hi⟩ := List.mem_iff_getElem?.mp ((mem_postorder hg hroot).mpr h)
  exact ⟨i, by rw [← Array.getElem?_toList, hi]⟩

/-- An input stands before the node that it feeds. -/
theorem exists_lt_of_feeds (hg : g.Acyclic) (hroot : root < g.size) {i : Nat} {producer : NodeId}
    (hi : (g.postorder root)[i]? = some id) (hfeeds : g.Feeds producer id) :
    ∃ j < i, (g.postorder root)[j]? = some producer := by
  rw [← Array.getElem?_toList] at hi
  obtain ⟨j, hj, hproducer⟩ := (postorder_ordered hg hroot).exists_lt hi hfeeds
  exact ⟨j, hj, by rw [← Array.getElem?_toList, hproducer]⟩

/-- Positions are the inverse of the list. -/
theorem position?_eq_some_iff (hg : g.Acyclic) (hroot : root < g.size) {i : Nat} :
    (g.schedule root).position? id = some i ↔ (g.postorder root)[i]? = some id := by
  refine ⟨fun h => ?_, position?_of_getElem? hg hroot⟩
  by_cases hreach : g.Reachable root id
  · obtain ⟨j, hj⟩ := exists_getElem?_postorder hg hroot hreach
    rw [position?_of_getElem? hg hroot hj, Option.some.injEq] at h
    exact h ▸ hj
  · rw [position?_of_not_reachable hg hroot hreach] at h
    simp at h

theorem position?_eq_none_iff (hg : g.Acyclic) (hroot : root < g.size) :
    (g.schedule root).position? id = none ↔ ¬ g.Reachable root id := by
  refine ⟨fun h hreach => ?_, position?_of_not_reachable hg hroot⟩
  obtain ⟨i, hi⟩ := exists_getElem?_postorder hg hroot hreach
  rw [position?_of_getElem? hg hroot hi] at h
  simp at h

end Graph

/-! ### The schedule of a root -/

/-- A schedule lists what a root depends on, and only that, so that it can be computed in order. -/
structure Schedule.Linearizes (g : Graph) (root : NodeId) (s : Schedule) : Prop where
  /-- No node is listed twice. -/
  nodup : s.order.toList.Nodup
  /-- What is listed is what the root depends on. -/
  mem_iff : ∀ id, id ∈ s.order ↔ g.Reachable root id
  /-- A node stands strictly after each of its inputs. -/
  inputs_before : ∀ (i : Nat) (id : NodeId), s.order[i]? = some id →
    ∀ producer, g.Feeds producer id → ∃ j < i, s.order[j]? = some producer
  /-- The root stands last. -/
  ends_with_root : s.order.back? = some root
  /-- The position of a node is the place where it is listed. -/
  position_eq_some_iff : ∀ (id : NodeId) (i : Nat),
    s.position? id = some i ↔ s.order[i]? = some id
  /-- Other nodes have no position. -/
  position_eq_none_iff : ∀ id, s.position? id = none ↔ ¬ g.Reachable root id

/-- On an acyclic graph, whatever the fan-out and however often an input is
repeated, the schedule of a root lists what the root depends on, inputs first. -/
theorem Graph.schedule_linearizes (hg : g.Acyclic) (hroot : root < g.size) :
    (g.schedule root).Linearizes g root where
  nodup := postorder_nodup hg hroot
  mem_iff id := by
    rw [schedule_order, ← Array.mem_toList_iff]
    exact mem_postorder hg hroot
  inputs_before _ _ hid _ hfeeds := exists_lt_of_feeds hg hroot hid hfeeds
  ends_with_root := by
    rw [schedule_order, ← Array.getLast?_toList]
    exact postorder_getLast? hg hroot
  position_eq_some_iff _ _ := position?_eq_some_iff hg hroot
  position_eq_none_iff _ := position?_eq_none_iff hg hroot

/-- A noise source through two filters, whose sum is squared; and a node that nothing uses. Both
the source and the sum are shared, and the sum is the same input twice. -/
def Graph.diamond : Graph where
  nodes := #[
    { kind := Kind.noise },
    { kind := Kind.hpf, inputs := [.node 0, .immediate (.text "low")] },
    { kind := Kind.lpf, inputs := [.node 0, .immediate (.text "high")] },
    { kind := Kind.add, inputs := [.node 2, .node 1] },
    { kind := Kind.noise },
    { kind := Kind.mul, inputs := [.node 3, .node 3] }]

theorem Graph.diamond_wellFormed : diamond.WellFormed := by decide

theorem Graph.diamond_schedule_linearizes :
    diamond.Acyclic ∧ 5 < diamond.size ∧ (diamond.schedule 5).Linearizes diamond 5 :=
  ⟨diamond_wellFormed.acyclic, by decide,
    schedule_linearizes diamond_wellFormed.acyclic (by decide)⟩

end Patchbay
