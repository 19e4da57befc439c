import Mathlib.Data.Finset.Card
import Mathlib.Data.List.Perm.Basic
import Patchbay.Proofs.Registry.Registration

/-!
# Registries and their histories

Nothing is ever taken out of a registry, so what it holds is decided by the registrations that made
it. `Registry.Records` says how. A kind is looked up as what it was last registered as; the
operations are listed by kind, each kind once and where it was first registered; the index has the
places of the kinds, no more and no less; and the categories share the operations out.

The list and the index change together in `Registry.register`, by replacing in place or by
appending, and only the kinds decide which. `Registry.Tracks` has the facts that one registration
hands on to the next (`Registry.Tracks.register`); everything else follows from these.
-/

namespace Patchbay

/-! ### Histories -/

/-- A change to a registry. -/
inductive Registration where
  | operation (o : Operation)
  | unit (kind tag : String)

namespace Registration

/-- Makes a change. -/
def run (r : Registry) : Registration → Registry
  | operation o => r.register o
  | unit kind tag => r.registerUnit kind tag

/-- The operation that is registered. -/
def registered : Registration → Operation
  | operation o => o
  | unit kind tag =>
    ⟨kind, tag ++ " processing unit", .custom, .stateful tag (.builtin .unitUpdate)⟩

theorem foldl_run (registrations : List Registration) (r : Registry) :
    registrations.foldl run r = (registrations.map registered).foldl Registry.register r := by
  have hrun : run = fun r registration => r.register (registered registration) := by
    funext r registration
    cases registration <;> rfl
  rw [List.foldl_map, hrun]

end Registration

/-- The last operation of a kind in a history, which lists the oldest first. -/
def Operation.latest? (history : List Operation) (kind : String) : Option Operation :=
  (history.filter (·.kind = kind)).getLast?

theorem Operation.latest?_concat (history : List Operation) (operation : Operation)
    (kind : String) : latest? (history ++ [operation]) kind =
      if operation.kind = kind then some operation else latest? history kind := by
  rw [latest?, List.filter_append]
  by_cases hkind : operation.kind = kind
  · rw [List.filter_singleton, decide_eq_true hkind]
    simp [hkind]
  · simp [hkind, latest?]

/-- One more element is kept if it has not occurred before. -/
theorem eraseDups_concat {α : Type} [DecidableEq α] (l : List α) (a : α) :
    (l ++ [a]).eraseDups = if a ∈ l then l.eraseDups else l.eraseDups ++ [a] := by
  rw [List.eraseDups_append, List.removeAll, List.filter_singleton]
  by_cases ha : a ∈ l
  · simp [ha]
  · simp [ha, List.eraseDups_cons]

/-- Sharing a list out by a property that every element has one value of loses nothing. -/
theorem flatMap_filter_perm {α β : Type} [DecidableEq β] {f : α → β} {values : List β}
    (hnodup : values.Nodup) {l : List α} (h : ∀ a ∈ l, f a ∈ values) :
    (values.flatMap fun b => l.filter (f · = b)).Perm l := by
  induction values generalizing l with
  | nil =>
    obtain rfl : l = [] := List.eq_nil_iff_forall_not_mem.mpr fun a ha => by cases h a ha
    rfl
  | cons b values ih =>
    rw [List.nodup_cons] at hnodup
    have hrest : ∀ a ∈ l.filter (f · ≠ b), f a ∈ values := by
      intro a ha
      obtain ⟨ha, hne⟩ := List.mem_filter.mp ha
      exact (List.mem_cons.mp (h a ha)).resolve_left (by simpa using hne)
    have hothers : (values.flatMap fun b' => l.filter (f · = b')) =
        values.flatMap fun b' => (l.filter (f · ≠ b)).filter (f · = b') := by
      refine List.flatMap_congr fun b' hb' => ?_
      have hne : b' ≠ b := fun heq => hnodup.1 (heq ▸ hb')
      rw [List.filter_filter]
      refine List.filter_congr fun a _ => ?_
      by_cases ha : f a = b' <;> simp [ha, hne]
    rw [List.flatMap_cons, hothers]
    have hsplit := List.filter_append_perm (f · = b) l
    simp only [← decide_not] at hsplit
    exact ((ih hnodup.2 hrest).append_left _).trans hsplit

namespace Registry

variable {r : Registry} {history : List Operation} {kind : String} {operation : Operation}

/-! ### One registration after the other -/

/-- What every registration hands on to the next. -/
structure Tracks (r : Registry) (history : List Operation) : Prop where
  kinds : r.operations.map (·.kind) = (history.map (·.kind)).eraseDups
  nodup : (r.operations.map (·.kind)).Nodup
  index : r.index = (r.operations.map (·.kind)).zipIdx
  latest : ∀ kind, r.get? kind = Operation.latest? history kind

theorem tracks_empty : empty.Tracks [] where
  kinds := rfl
  nodup := List.nodup_nil
  index := rfl
  latest _ := rfl

namespace Tracks

/-- A registration keeps a registry in step with its history. -/
theorem register (h : r.Tracks history) (operation : Operation) :
    (r.register operation).Tracks (history ++ [operation]) := by
  have hlatest : ∀ kind, (r.register operation).get? kind =
      Operation.latest? (history ++ [operation]) kind := by
    intro kind
    rw [get?_register, Operation.latest?_concat, h.latest]
  have hkinds : ((history ++ [operation]).map (·.kind)).eraseDups =
      if operation.kind ∈ r.operations.map (·.kind) then r.operations.map (·.kind)
      else r.operations.map (·.kind) ++ [operation.kind] := by
    simp only [List.map_append, List.map_singleton, eraseDups_concat, h.kinds, List.mem_eraseDups]
  cases hindex : r.index? operation.kind with
  | some i =>
    -- in place: the kinds and the index stay as they are
    have hmem : operation.kind ∈ r.operations.map (·.kind) := by
      by_contra hnew
      cases (index?_eq_none_iff.mpr hnew).symm.trans hindex
    have hsame : (r.operations.set i operation).map (·.kind) = r.operations.map (·.kind) :=
      Operation.map_kind_set (r.index?_eq_findIdx? operation.kind ▸ hindex)
    rw [if_pos hmem] at hkinds
    rw [register_of_index? hindex] at hlatest ⊢
    exact ⟨hsame.trans hkinds.symm, hsame ▸ h.nodup, hsame ▸ h.index, hlatest⟩
  | none =>
    have hnew := index?_eq_none_iff.mp hindex
    have hmore : (r.operations ++ [operation]).map (·.kind) =
        r.operations.map (·.kind) ++ [operation.kind] := List.map_append
    rw [if_neg hnew] at hkinds
    rw [register_of_notMem hnew] at hlatest ⊢
    refine ⟨hmore.trans hkinds.symm, ?_, ?_, hlatest⟩
    · rw [append, hmore, ← List.concat_eq_append]
      exact h.nodup.concat hnew
    · rw [append, hmore, List.zipIdx_append, ← h.index]
      simp

theorem foldl_register (h : r.Tracks history) (operations : List Operation) :
    (operations.foldl Registry.register r).Tracks (history ++ operations) := by
  induction operations generalizing r history with
  | nil => simpa using h
  | cons operation rest ih => simpa using ih (h.register operation)

theorem get?_eq_some_iff (h : r.Tracks history) :
    r.get? kind = some operation ↔ operation ∈ r.operations ∧ operation.kind = kind := by
  rw [get?_eq_find?]
  constructor
  · intro hfind
    exact ⟨List.mem_of_find?_eq_some hfind, by simpa using List.find?_some hfind⟩
  · rintro ⟨hmem, rfl⟩
    -- whatever is found first has the same kind, and no two operations share one
    obtain ⟨found, hfind⟩ : ∃ found, r.operations.find? (·.kind = operation.kind) = some found :=
      Option.isSome_iff_exists.mp (List.find?_isSome.mpr ⟨operation, hmem, by simp⟩)
    have hkind : found.kind = operation.kind := by simpa using List.find?_some hfind
    rw [hfind, List.inj_on_of_nodup_map h.nodup (List.mem_of_find?_eq_some hfind) hmem hkind]

end Tracks

/-! ### What a registry holds -/

/-- What a registry holds after a history of registrations, the oldest first. -/
structure Records (r : Registry) (history : List Operation) : Prop where
  /-- A kind is looked up as what it was last registered as. -/
  get?_eq : ∀ kind, r.get? kind = Operation.latest? history kind
  schema?_eq : ∀ kind, r.schema? kind = (Operation.latest? history kind).map (·.schema)
  /-- A kind is there if it was ever registered. -/
  contains_iff : ∀ kind, r.contains kind ↔ ∃ operation ∈ history, operation.kind = kind
  get?_isSome : ∀ kind, (r.get? kind).isSome = r.contains kind
  /-- Each kind is listed once, where it was first registered, as what it was last registered as. -/
  operations_eq :
    r.operations = (history.map (·.kind)).eraseDups.filterMap (Operation.latest? history)
  kinds_eq : r.operations.map (·.kind) = (history.map (·.kind)).eraseDups
  kinds_nodup : (r.operations.map (·.kind)).Nodup
  size_eq : r.size = (history.map (·.kind)).toFinset.card
  /-- The index has the place of each kind, and nothing else. -/
  mem_index : ∀ kind i, (kind, i) ∈ r.index ↔
    ∃ operation, r.operations[i]? = some operation ∧ operation.kind = kind
  /-- What is looked up in the index is a place in the list. -/
  index?_lt : ∀ kind i, r.index? kind = some i → i < r.operations.length
  /-- The categories share the operations out, in order. -/
  inCategory_sublist : ∀ category, (r.inCategory category).Sublist r.operations
  inCategory_perm : (Category.all.flatMap r.inCategory).Perm r.operations
  /-- A kind is listed in the category that it was last registered in, and in no other. -/
  mem_inCategory : ∀ kind category, kind ∈ (r.inCategory category).map (·.kind) ↔
    ∃ operation, Operation.latest? history kind = some operation ∧ operation.category = category

namespace Tracks

theorem contains_iff (h : r.Tracks history) (kind : String) :
    r.contains kind ↔ ∃ operation ∈ history, operation.kind = kind := by
  have hmem : r.contains kind ↔ kind ∈ r.operations.map (·.kind) := by
    rw [contains, Option.isSome_iff_ne_none, ne_eq, index?_eq_none_iff, not_not]
  rw [hmem, h.kinds, List.mem_eraseDups, List.mem_map]

theorem operations_eq (h : r.Tracks history) :
    r.operations = (history.map (·.kind)).eraseDups.filterMap (Operation.latest? history) := by
  have hself : ∀ operation ∈ r.operations,
      Operation.latest? history operation.kind = some operation := fun operation hmem =>
    (h.latest operation.kind).symm.trans (h.get?_eq_some_iff.mpr ⟨hmem, rfl⟩)
  rw [← h.kinds, List.filterMap_map]
  exact (List.filterMap_some.symm.trans
    (List.filterMap_congr fun operation hmem => (hself operation hmem).symm))

theorem size_eq (h : r.Tracks history) : r.size = (history.map (·.kind)).toFinset.card := by
  have hset : (history.map (·.kind)).toFinset = (r.operations.map (·.kind)).toFinset := by
    ext kind
    rw [List.mem_toFinset, List.mem_toFinset, h.kinds, List.mem_eraseDups]
  rw [hset, List.toFinset_card_of_nodup h.nodup, List.length_map, size]

theorem mem_index (h : r.Tracks history) (kind : String) (i : Nat) : (kind, i) ∈ r.index ↔
    ∃ operation, r.operations[i]? = some operation ∧ operation.kind = kind := by
  rw [h.index, List.mem_zipIdx_iff_getElem?, List.getElem?_map, Option.map_eq_some_iff]

theorem mem_inCategory (h : r.Tracks history) (kind : String) (category : Category) :
    kind ∈ (r.inCategory category).map (·.kind) ↔ ∃ operation,
      Operation.latest? history kind = some operation ∧ operation.category = category := by
  simp only [← h.latest, h.get?_eq_some_iff, inCategory, List.mem_map, List.mem_filter,
    decide_eq_true_eq]
  constructor
  · rintro ⟨operation, ⟨hmem, hcategory⟩, hkind⟩
    exact ⟨operation, ⟨hmem, hkind⟩, hcategory⟩
  · rintro ⟨operation, ⟨hmem, hkind⟩, hcategory⟩
    exact ⟨operation, ⟨hmem, hcategory⟩, hkind⟩

theorem records (h : r.Tracks history) : r.Records history where
  get?_eq := h.latest
  schema?_eq kind := by rw [schema?, h.latest]
  contains_iff := h.contains_iff
  get?_isSome := r.isSome_get?
  operations_eq := h.operations_eq
  kinds_eq := h.kinds
  kinds_nodup := h.nodup
  size_eq := h.size_eq
  mem_index := h.mem_index
  index?_lt kind i hi := by
    rw [index?_eq_findIdx?] at hi
    exact (List.findIdx?_eq_some_iff_getElem.mp hi).1
  inCategory_sublist _ := List.filter_sublist
  inCategory_perm := by
    refine flatMap_filter_perm (by decide) fun operation _ => ?_
    cases operation.category <;> decide
  mem_inCategory := h.mem_inCategory

end Tracks

/-- A registry is an ordered map from kinds to operations. Whatever has been registered, starting
from nothing or from the standard operations, in whatever order and however often, the registry
holds what the whole history says. -/
theorem records_foldl_run (registrations : List Registration) :
    (registrations.foldl Registration.run empty).Records
        (registrations.map Registration.registered) ∧
      (registrations.foldl Registration.run standard).Records
        (Operation.standard ++ registrations.map Registration.registered) := by
  have hstandard : standard.Tracks Operation.standard :=
    tracks_empty.foldl_register Operation.standard
  rw [Registration.foldl_run, Registration.foldl_run]
  exact ⟨(tracks_empty.foldl_register _).records, (hstandard.foldl_register _).records⟩

end Registry

end Patchbay
