import Patchbay.Proofs.Meaning.Evaluation

/-!
# Memory along a schedule

`Memory.Holds` is the invariant of a run. Once the first nodes of a schedule have been computed,
each of them that has a slot has left its value there, and every unit is as the last of them to
change it has left it, or as it was at the beginning if there is none.

`Memory.Holds.record` and `Memory.Holds.silent` are the steps. Units need some care. A feedback
cell is changed twice, by the read and by the write, and the read has to come first; it does,
because it is an input of the write. Two writes to the same cell would have no order at all, and
`Graph.Playable` rules them out.
-/

namespace Patchbay

variable {V S : Type} {g : Graph} {hg : g.Acyclic} {root id : NodeId} {host : Host V S}
  {states : Nat → S}

/-! ### Which unit a node changes -/

namespace Graph

theorem getElem?_postorder_inj (hg : g.Acyclic) (hroot : root < g.size) {i j : Nat}
    (hi : (g.postorder root)[i]? = some id) (hj : (g.postorder root)[j]? = some id) : i = j :=
  Option.some.inj ((position?_of_getElem? hg hroot hi).symm.trans
    (position?_of_getElem? hg hroot hj))

theorem reachable_of_getElem?_postorder (hg : g.Acyclic) (hroot : root < g.size) {i : Nat}
    (hi : (g.postorder root)[i]? = some id) : g.Reachable root id := by
  rw [← Array.getElem?_toList] at hi
  exact (mem_postorder hg hroot).mp (List.mem_of_getElem? hi)

/-- A node with a unit leaves its own unit changed. -/
theorem evaluate_unit_of_unit {tag : String} (hrole : g.role id = .unit tag) :
    ∃ state, (evaluate hg root host states id).unit = some (g.unitIndex root id, ⟨tag, state⟩) := by
  rw [evaluate_eq, hrole]
  exact ⟨_, rfl⟩

/-- The read of a feedback write. -/
theorem Playable.exists_read (hplay : g.Playable root) (hreach : g.Reachable root id)
    (hrole : g.role id = .write) :
    ∃ read, (g.inputs id)[1]? = some (.node read) ∧ g.role read = .unit Host.cellTag := by
  obtain ⟨read, hread, hkind⟩ := hplay.write_read hreach (Role.ofKind_eq_write.mp hrole)
  refine ⟨read, hread, ?_⟩
  rw [role, hkind]
  rfl

/-- A feedback write is handed the cell of its read, as the read leaves it. -/
theorem evaluateInputs_unit {read : NodeId} (hread : (g.inputs id)[1]? = some (.node read)) :
    (evaluateInputs hg root host states id)[1]?.bind (·.unit) =
      (evaluate hg root host states read).unit := by
  rw [evaluateInputs, List.getElem?_map, hread]
  rfl

/-- A node changes a unit only if it is told to, and then it is the unit of its target. -/
theorem Playable.exists_target (hplay : g.Playable root) (hreach : g.Reachable root id) {k : Nat}
    {unit : HostUnit S} (h : (evaluate hg root host states id).unit = some (k, unit)) :
    ∃ target tag, g.target? id = some target ∧ g.Reachable root target ∧
      g.role target = .unit tag ∧ k = g.unitIndex root target := by
  rw [evaluate_eq] at h
  cases hrole : g.role id with
  | unit tag =>
    rw [hrole] at h
    refine ⟨id, tag, by rw [target?, hrole], hreach, hrole, ?_⟩
    exact (Prod.mk.inj (Option.some.inj h)).1.symm
  | write =>
    obtain ⟨read, hread, hunit⟩ := hplay.exists_read hreach hrole
    obtain ⟨state, hstate⟩ : ∃ state, (evaluate hg root host states read).unit =
        some (g.unitIndex root read, ⟨Host.cellTag, state⟩) := evaluate_unit_of_unit hunit
    rw [hrole, Host.outcome, evaluateInputs_unit hread, hstate] at h
    refine ⟨read, Host.cellTag, by rw [target?, hrole, hread]; rfl,
      hreach.feeds (List.mem_of_getElem? hread), hunit, ?_⟩
    exact (Prod.mk.inj (Option.some.inj h)).1.symm
  | constant | arithmetic | copy | out | exit =>
    rw [hrole] at h
    cases h

/-- A node targets its own unit or, if it is a write, that of its read. -/
theorem target?_eq_some {target : NodeId} (h : g.target? id = some target) :
    id = target ∨ (g.role id = .write ∧ (g.inputs id)[1]? = some (.node target)) := by
  rw [target?] at h
  split at h
  · exact .inl (Option.some.inj h)
  · next hrole =>
    obtain ⟨input, hinput, hnode⟩ := Option.bind_eq_some_iff.mp h
    cases input with
    | node _ => exact .inr ⟨hrole, by rw [hinput, ← Option.some.inj hnode]⟩
    | immediate _ => cases hnode
  · cases h

end Graph

/-! ### The invariant -/

namespace Memory

open Patchbay.Graph

/-- The memory once the first `n` nodes of the schedule have been computed. -/
structure Holds (hg : g.Acyclic) (root : NodeId) (host : Host V S) (states : Nat → S)
    (slot : Nat → String) (n : Nat) (m : Memory V S) : Prop where
  /-- The nodes have left their values in their slots. -/
  slots : ∀ {i id}, i < n → (g.postorder root)[i]? = some id → (g.role id).hasSlot = true →
    m.slots (slot i) = some (evaluate hg root host states id).value
  /-- No units come or go. -/
  length : m.units.length = (g.unitTags root).length
  /-- A unit that no node has changed yet is as it was. -/
  fresh : ∀ {id tag}, g.Reachable root id → g.role id = .unit tag →
    (∀ {j other}, j < n → (g.postorder root)[j]? = some other → g.target? other ≠ some id) →
    m.units[g.unitIndex root id]? = some ⟨tag, states (g.unitIndex root id)⟩
  /-- A unit is as the last node to change it has left it. -/
  held : ∀ {i id k unit}, i < n → (g.postorder root)[i]? = some id →
    (evaluate hg root host states id).unit = some (k, unit) →
    (∀ {j other}, i < j → j < n → (g.postorder root)[j]? = some other →
      g.target? other ≠ g.target? id) →
    m.units[k]? = some unit

/-- The memory after a node has come to an outcome. -/
def record (m : Memory V S) (slot : String) (outcome : Outcome V S) : Memory V S :=
  (match outcome.unit with
    | some (k, unit) => m.setUnit k unit
    | none => m).assign slot outcome.value

theorem record_slots (m : Memory V S) (slot : String) (outcome : Outcome V S) :
    (m.record slot outcome).slots = Function.update m.slots slot (some outcome.value) := by
  rw [record]
  split <;> rfl

theorem record_units_of_ne {m : Memory V S} {slot : String} {outcome : Outcome V S} {k : Nat}
    (h : ∀ {k' unit}, outcome.unit = some (k', unit) → k' ≠ k) :
    (m.record slot outcome).units[k]? = m.units[k]? := by
  rw [record, assign_units]
  split
  · next k' unit hunit => rw [setUnit_units, List.getElem?_set_ne (h hunit)]
  · rfl

theorem record_units_self {m : Memory V S} {slot : String} {outcome : Outcome V S} {k : Nat}
    {unit : HostUnit S} (h : outcome.unit = some (k, unit)) (hk : k < m.units.length) :
    (m.record slot outcome).units[k]? = some unit := by
  rw [record, assign_units, h, setUnit_units, List.getElem?_set_self hk]

theorem record_units_length (m : Memory V S) (slot : String) (outcome : Outcome V S) :
    (m.record slot outcome).units.length = m.units.length := by
  rw [record, assign_units]
  split
  · rw [setUnit_units, List.length_set]
  · rfl

@[simp] theorem record_returned (m : Memory V S) (slot : String) (outcome : Outcome V S) :
    (m.record slot outcome).returned = m.returned := by
  rw [record, assign_returned]
  split <;> rfl

namespace Holds

variable {slot : Nat → String} {n : Nat} {m : Memory V S}

/-- Nothing has been computed at the beginning. -/
theorem start (hg : g.Acyclic) (hroot : root < g.size) (host : Host V S) (states : Nat → S)
    (slot : Nat → String) :
    (Memory.start states (g.unitTags root) : Memory V S).Holds hg root host states slot 0 where
  slots h := absurd h (Nat.not_lt_zero _)
  length := by simp [Memory.start]
  fresh hreach hrole _ := by
    rw [Memory.start, List.getElem?_mapIdx, unitTags_getElem?_unitIndex hg hroot hreach hrole]
    rfl
  held h := absurd h (Nat.not_lt_zero _)

/-- A node with neither slot nor unit leaves the memory as it is. -/
theorem silent (h : m.Holds hg root host states slot n) (hn : (g.postorder root)[n]? = some id)
    (hsilent : (g.role id).hasSlot = false) : m.Holds hg root host states slot (n + 1) where
  slots := by
    intro i id' hi hid' hslot
    rcases Nat.lt_succ_iff_lt_or_eq.mp hi with hi | rfl
    · exact h.slots hi hid' hslot
    · obtain rfl : id = id' := Option.some.inj (hn.symm.trans hid')
      rw [hsilent] at hslot
      cases hslot
  length := h.length
  fresh hreach hrole hnone := h.fresh hreach hrole fun hj => hnone (Nat.lt_succ_of_lt hj)
  held := by
    intro i id' k unit hi hid' hunit hlast
    rcases Nat.lt_succ_iff_lt_or_eq.mp hi with hi | rfl
    · exact h.held hi hid' hunit fun hij hj => hlast hij (Nat.lt_succ_of_lt hj)
    · obtain rfl : id = id' := Option.some.inj (hn.symm.trans hid')
      rw [evaluate_eq] at hunit
      cases hrole : g.role id with
      | constant | out | exit => rw [hrole] at hunit; cases hunit
      | unit | write | arithmetic | copy => rw [hrole] at hsilent; cases hsilent

/-- A node with a slot leaves its value there, and its unit as it has changed it. -/
theorem record (h : m.Holds hg root host states slot n) (hroot : root < g.size)
    (hplay : g.Playable root) (hn : (g.postorder root)[n]? = some id)
    (hslots : ∀ {i id'}, i < n → (g.postorder root)[i]? = some id' →
      (g.role id').hasSlot = true → slot i ≠ slot n) :
    (m.record (slot n) (evaluate hg root host states id)).Holds hg root host states slot
      (n + 1) := by
  have hreach := reachable_of_getElem?_postorder hg hroot hn
  -- the unit of a node that this one does not target stays as it is
  have hother : ∀ {other tag}, g.Reachable root other → g.role other = .unit tag →
      g.target? id ≠ some other →
      (m.record (slot n) (evaluate hg root host states id)).units[g.unitIndex root other]? =
        m.units[g.unitIndex root other]? := by
    intro other tag hother hrole hne
    refine record_units_of_ne fun {k' unit} hunit heq => hne ?_
    obtain ⟨target, tag', htarget, hreach', hrole', rfl⟩ := hplay.exists_target hreach hunit
    rw [htarget, (unitIndex_inj hg hroot hreach' (by rw [hrole']; rfl)).mp heq]
  refine ⟨?_, ?_, ?_, ?_⟩
  · intro i id' hi hid' hslot
    rw [record_slots]
    rcases Nat.lt_succ_iff_lt_or_eq.mp hi with hi | rfl
    · rw [Function.update_of_ne (hslots hi hid' hslot)]
      exact h.slots hi hid' hslot
    · obtain rfl : id = id' := Option.some.inj (hn.symm.trans hid')
      rw [Function.update_self]
  · rw [record_units_length, h.length]
  · intro other tag hother' hrole hnone
    rw [hother hother' hrole (hnone (Nat.lt_succ_self n) hn)]
    exact h.fresh hother' hrole fun hj => hnone (Nat.lt_succ_of_lt hj)
  · intro i id' k unit hi hid' hunit hlast
    have hreach' := reachable_of_getElem?_postorder hg hroot hid'
    obtain ⟨target, tag, htarget, hreachTarget, hrole, rfl⟩ := hplay.exists_target hreach' hunit
    rcases Nat.lt_succ_iff_lt_or_eq.mp hi with hi | rfl
    · have hne : g.target? id ≠ some target := htarget ▸ hlast hi (Nat.lt_succ_self n) hn
      rw [hother hreachTarget hrole hne]
      exact h.held hi hid' hunit fun hij hj => hlast hij (Nat.lt_succ_of_lt hj)
    · obtain rfl : id = id' := Option.some.inj (hn.symm.trans hid')
      -- the node itself is now the last to have changed its unit
      refine record_units_self hunit ?_
      rw [h.length]
      exact (List.getElem?_eq_some_iff.mp
        (unitTags_getElem?_unitIndex hg hroot hreachTarget hrole)).1

/-- A node finds its own unit as it was at the beginning. -/
theorem own_unit (h : m.Holds hg root host states slot n) (hroot : root < g.size)
    (hn : (g.postorder root)[n]? = some id) {tag : String} (hrole : g.role id = .unit tag) :
    m.units[g.unitIndex root id]? = some ⟨tag, states (g.unitIndex root id)⟩ := by
  refine h.fresh (reachable_of_getElem?_postorder hg hroot hn) hrole ?_
  intro j other hj hother htarget
  rcases target?_eq_some htarget with rfl | ⟨-, hinput⟩
  · exact hj.ne (getElem?_postorder_inj hg hroot hother hn)
  · -- a write stands after its read
    obtain ⟨i, hi, hread⟩ := exists_lt_of_feeds hg hroot hother (List.mem_of_getElem? hinput)
    exact (hi.trans hj).ne (getElem?_postorder_inj hg hroot hread hn)

/-- A write finds its cell as the read has left it. -/
theorem cell (h : m.Holds hg root host states slot n) (hroot : root < g.size)
    (hplay : g.Playable root) (hn : (g.postorder root)[n]? = some id)
    (hrole : g.role id = .write) {read : NodeId} (hread : (g.inputs id)[1]? = some (.node read))
    {k : Nat} {unit : HostUnit S}
    (hunit : (evaluate hg root host states read).unit = some (k, unit)) :
    m.units[k]? = some unit := by
  have hreach := reachable_of_getElem?_postorder hg hroot hn
  obtain ⟨i, hi, hposition⟩ := exists_lt_of_feeds hg hroot hn (List.mem_of_getElem? hread)
  refine h.held hi hposition hunit ?_
  intro j other hij hj hother htarget
  obtain ⟨read', hread', hrole'⟩ := hplay.exists_read hreach hrole
  obtain rfl : read = read' := Input.node.inj (Option.some.inj (hread.symm.trans hread'))
  have hself : g.target? read = some read := by rw [target?, hrole']
  rw [hself] at htarget
  rcases target?_eq_some htarget with rfl | ⟨hwrite, hinput⟩
  · exact hij.ne (getElem?_postorder_inj hg hroot hposition hother)
  · -- another write to the same cell is this one
    obtain rfl : other = id := hplay.write_inj
      (reachable_of_getElem?_postorder hg hroot hother) hreach (Role.ofKind_eq_write.mp hwrite)
      (Role.ofKind_eq_write.mp hrole) hinput hread
    exact hj.ne (getElem?_postorder_inj hg hroot hother hn)

end Holds

end Memory

end Patchbay
