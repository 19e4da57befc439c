import Mathlib.Data.List.Basic
import Patchbay.Registry.Standard

/-!
# Registering operations

A registry keeps its operations in a list, and looking up a kind finds the first operation of that
kind, by way of the index. `Registry.get?_register` is the law of registration: afterwards the kind
that was registered has the new operation, whether it was known before or not, and every other kind
has what it had.
-/

namespace Patchbay.Registry

variable {r : Registry} {kind : String} {operation : Operation}

/-! ### Looking up kinds -/

theorem index?_eq_findIdx? (r : Registry) (kind : String) :
    r.index? kind = r.operations.findIdx? (·.kind = kind) :=
  r.lookup_index kind

theorem get?_eq_find? (r : Registry) (kind : String) :
    r.get? kind = r.operations.find? (·.kind = kind) := by
  rw [get?, index?_eq_findIdx?, List.find?_eq_bind_findIdx?_getElem?]

theorem index?_eq_none_iff : r.index? kind = none ↔ kind ∉ r.operations.map (·.kind) := by
  simp [index?_eq_findIdx?]

theorem isSome_get? (r : Registry) (kind : String) : (r.get? kind).isSome = r.contains kind := by
  rw [get?_eq_find?, contains, index?_eq_findIdx?, List.findIdx?_isSome, Bool.eq_iff_iff,
    List.find?_isSome, List.any_eq_true]

theorem isSome_schema? (r : Registry) (kind : String) :
    (r.schema? kind).isSome = r.contains kind := by
  rw [schema?, Option.isSome_map, isSome_get?]

theorem schema?_eq_none_iff : r.schema? kind = none ↔ r.contains kind = false := by
  rw [← isSome_schema?, Option.isSome_eq_false_iff, Option.isNone_iff_eq_none]

/-! ### Registering -/

theorem register_of_index? {i : Nat} (h : r.index? operation.kind = some i) :
    r.register operation = r.replace i operation h := by
  rw [register]
  split
  · next j hj =>
    obtain rfl := Option.some.inj (hj.symm.trans h)
    rfl
  · next hnone => cases hnone.symm.trans h

theorem register_of_notMem (h : operation.kind ∉ r.operations.map (·.kind)) :
    r.register operation = r.append operation := by
  rw [register]
  split
  · next i hi => cases (index?_eq_none_iff.mpr h).symm.trans hi
  · rfl

/-- A registration brings one operation and no other. -/
theorem eq_or_mem_of_mem_register {other : Operation}
    (h : other ∈ (r.register operation).operations) : other = operation ∨ other ∈ r.operations := by
  cases hindex : r.index? operation.kind with
  | some i =>
    rw [register_of_index? hindex] at h
    exact (List.mem_or_eq_of_mem_set h).symm
  | none =>
    rw [register_of_notMem (index?_eq_none_iff.mp hindex), append, List.mem_append,
      List.mem_singleton] at h
    exact h.symm

private theorem find?_set {operations : List Operation} {operation : Operation} {i : Nat}
    (h : operations.findIdx? (·.kind = operation.kind) = some i) :
    (operations.set i operation).find? (·.kind = kind) =
      if operation.kind = kind then some operation else operations.find? (·.kind = kind) := by
  induction operations generalizing i with
  | nil => cases h
  | cons first operations ih =>
    rw [List.findIdx?_cons] at h
    by_cases hfirst : first.kind = operation.kind
    · -- the operation takes the place of the first one
      obtain rfl : i = 0 := by simpa [hfirst, eq_comm] using h
      rw [List.set_cons_zero, List.find?_cons, List.find?_cons, hfirst]
      by_cases hkind : operation.kind = kind <;> simp [hkind]
    · rw [if_neg (by simpa using hfirst)] at h
      obtain ⟨j, hj, rfl⟩ := Option.map_eq_some_iff.mp h
      rw [List.set_cons_succ, List.find?_cons, List.find?_cons, ih hj]
      by_cases hkind : first.kind = kind
      · have hne : operation.kind ≠ kind := fun heq => hfirst (hkind.trans heq.symm)
        simp [hkind, hne]
      · simp [hkind]

/-- What a kind is looked up as after a registration. -/
theorem get?_register (r : Registry) (operation : Operation) (kind : String) :
    (r.register operation).get? kind =
      if operation.kind = kind then some operation else r.get? kind := by
  rw [get?_eq_find?, get?_eq_find?]
  cases hindex : r.index? operation.kind with
  | some i =>
    rw [register_of_index? hindex]
    exact find?_set (r.index?_eq_findIdx? operation.kind ▸ hindex)
  | none =>
    have hnew := index?_eq_none_iff.mp hindex
    rw [register_of_notMem hnew, append, List.find?_append, List.find?_singleton]
    by_cases hkind : operation.kind = kind
    · have hnone : r.operations.find? (·.kind = kind) = none := by
        rw [← get?_eq_find?, get?, ← hkind, hindex, Option.bind_none]
      simp [hkind, hnone]
    · simp [hkind]

theorem schema?_register (r : Registry) (operation : Operation) (kind : String) :
    (r.register operation).schema? kind =
      if operation.kind = kind then some operation.schema else r.schema? kind := by
  rw [schema?, get?_register, schema?]
  split <;> rfl

/-- Registering other kinds leaves a kind with the schema that it has. -/
theorem schema?_foldl_register {registrations : List Operation}
    (h : ∀ operation ∈ registrations, operation.kind ≠ kind) :
    (registrations.foldl register r).schema? kind = r.schema? kind := by
  induction registrations generalizing r with
  | nil => rfl
  | cons operation rest ih =>
    rw [List.foldl_cons, ih fun other hother => h other (List.mem_cons_of_mem _ hother),
      schema?_register, if_neg (h operation List.mem_cons_self)]

/-- Registering operations of different kinds lists them as they come. -/
theorem foldl_register_of_nodup (operations : List Operation)
    (h : (r.operations.map (·.kind) ++ operations.map (·.kind)).Nodup) :
    (operations.foldl register r).operations = r.operations ++ operations := by
  induction operations generalizing r with
  | nil => simp
  | cons operation rest ih =>
    have hnew : operation.kind ∉ r.operations.map (·.kind) := fun hmem =>
      (List.nodup_append.mp h).2.2 _ hmem _ (by simp) rfl
    rw [List.foldl_cons, register_of_notMem hnew, ih]
    · simp [append]
    · simpa [append] using h

theorem standard_operations : standard.operations = Operation.standard := by
  have hnodup : (Operation.standard.map (·.kind)).Nodup := by decide
  rw [standard, foldl_register_of_nodup _ (by simpa [empty] using hnodup)]
  rfl

end Patchbay.Registry
