import Mathlib.Data.List.Nodup
import Mathlib.Data.Option.Basic
import Patchbay.Toml.Document

/-!
# Tables without repeated keys

Tables are lists of keys with what they hold, and a list may well have a key twice. If it does not,
it does not matter in which order the list is searched (`lookup_eq_some_iff`).

Tables under construction never get a key twice, at any depth. A key is added only where it is new,
and whatever is put in the place of something else keeps its key. Both ways to reach into a table,
by a header and by a key with several parts, go through tables one by one; `Draft.Enters` is one
step of either. So what is done to the innermost table is all that counts (`Draft.below_spec`,
`Draft.Keyed.insert`).
-/

namespace Patchbay.Toml

/-- The keys of a table, in order. -/
def keys {α : Type} (fields : List (String × α)) : List String :=
  fields.map (·.1)

/-! ### Searching a table -/

section Lookup

variable {α : Type} {fields other : List (String × α)} {key : String} {a : α}

theorem lookup_eq_none_iff : fields.lookup key = none ↔ key ∉ keys fields := by
  rw [List.lookup_eq_none_iff, keys, List.mem_map]
  refine ⟨fun h ⟨field, hfield, heq⟩ => ?_, fun h field hfield => ?_⟩
  · exact bne_iff_ne.mp (h field hfield) heq.symm
  · exact bne_iff_ne.mpr fun heq => h ⟨field, hfield, heq.symm⟩

/-- If no key comes twice, a search finds whatever is there. -/
theorem lookup_eq_some_iff (h : (keys fields).Nodup) :
    fields.lookup key = some a ↔ (key, a) ∈ fields := by
  induction fields with
  | nil => simp
  | cons field fields ih =>
    obtain ⟨first, b⟩ := field
    obtain ⟨hfirst, hnodup⟩ := List.nodup_cons.mp h
    by_cases hkey : key = first
    · subst hkey
      have hmem : (key, a) ∉ fields := fun hmem =>
        hfirst (List.mem_map.mpr ⟨(key, a), hmem, rfl⟩)
      simp [hmem, eq_comm]
    · have hne : (key == first) = false := beq_false_of_ne hkey
      simp [List.lookup_cons, hne, hkey, ih hnodup]

/-- Two tables hold the same under some keys. -/
def AgreeOn (names : List String) (fields other : List (String × α)) : Prop :=
  ∀ name ∈ names, ∀ a, (name, a) ∈ fields ↔ (name, a) ∈ other

theorem AgreeOn.lookup_eq {names : List String} (h : AgreeOn names fields other)
    (hfields : (keys fields).Nodup) (hother : (keys other).Nodup) (hkey : key ∈ names) :
    fields.lookup key = other.lookup key := by
  refine Option.ext fun a => ?_
  rw [lookup_eq_some_iff hfields, lookup_eq_some_iff hother, h key hkey]

end Lookup

/-! ### Values and tables without repeated keys -/

/-- No table in a value has a key twice. -/
inductive Value.Keyed : Value → Prop
  | string (text : String) : Keyed (.string text)
  | integer (n : Int) : Keyed (.integer n)
  | float (x : Binary64) : Keyed (.float x)
  | boolean (b : Bool) : Keyed (.boolean b)
  | dateTime (d : DateTime) : Keyed (.dateTime d)
  | array {values : List Value} (h : ∀ value ∈ values, Keyed value) : Keyed (.array values)
  | table {fields : Fields} (nodup : (keys fields).Nodup) (h : ∀ field ∈ fields, Keyed field.2) :
    Keyed (.table fields)

/-- No table in an item has a key twice. -/
inductive Item.Keyed : Item → Prop
  | value {v : Value} (h : v.Keyed) : Keyed (.value v)
  | table {origin : Origin} {fields : Draft} (nodup : (keys fields).Nodup)
    (h : ∀ field ∈ fields, Keyed field.2) : Keyed (.table origin fields)
  | tables {elements : List Draft} (nodup : ∀ d ∈ elements, (keys d).Nodup)
    (h : ∀ d ∈ elements, ∀ field ∈ d, Keyed field.2) : Keyed (.tables elements)

namespace Draft

/-- No table in a table under construction has a key twice, and neither has this one. -/
structure Keyed (d : Draft) : Prop where
  nodup : (keys d).Nodup
  item : ∀ field ∈ d, field.2.Keyed

variable {d : Draft} {key : String} {item : Item}

theorem Keyed.nil : Keyed [] :=
  ⟨List.nodup_nil, fun _ h => absurd h List.not_mem_nil⟩

theorem keyed_table_iff {origin : Origin} : (Item.table origin d).Keyed ↔ d.Keyed := by
  refine ⟨fun h => ?_, fun h => .table h.nodup h.item⟩
  cases h with
  | table nodup h => exact ⟨nodup, h⟩

theorem keyed_tables_iff {elements : List Draft} :
    (Item.tables elements).Keyed ↔ ∀ d ∈ elements, Keyed d := by
  refine ⟨fun h => ?_, fun h => .tables (fun d hd => (h d hd).nodup) fun d hd => (h d hd).item⟩
  cases h with
  | tables nodup h => exact fun d hd => ⟨nodup d hd, h d hd⟩

/-! ### Finding and changing a key -/

theorem mem_of_find? (h : find? d key = some item) : (key, item) ∈ d := by
  obtain ⟨field, hfind, rfl⟩ := Option.map_eq_some_iff.mp h
  have hkey : field.1 = key := by simpa using List.find?_some hfind
  exact hkey ▸ List.mem_of_find?_eq_some hfind

theorem find?_eq_none_iff : find? d key = none ↔ key ∉ keys d := by
  rw [find?, Option.map_eq_none_iff, List.find?_eq_none, keys, List.mem_map]
  simp only [decide_eq_true_eq, not_exists, not_and]

theorem find?_append_self (h : find? d key = none) : find? (append d key item) key = some item := by
  rw [find?, Option.map_eq_none_iff] at h
  rw [find?, append, List.find?_append, h]
  simp

theorem find?_replace_self {old : Item} (h : find? d key = some old) :
    find? (replace d key item) key = some item := by
  obtain ⟨field, hfind, -⟩ := Option.map_eq_some_iff.mp h
  have hsome : (List.find? (·.1 = key) (replace d key item)).isSome := by
    refine List.find?_isSome.mpr ⟨(key, item), List.mem_map.mpr ⟨field, ?_, ?_⟩, by simp⟩
    · exact List.mem_of_find?_eq_some hfind
    · exact if_pos (by simpa using List.find?_some hfind)
  obtain ⟨found, hfound⟩ := Option.isSome_iff_exists.mp hsome
  have hkey : found.1 = key := by simpa using List.find?_some hfound
  obtain ⟨field', -, hfield'⟩ := List.mem_map.mp (List.mem_of_find?_eq_some hfound)
  rw [find?, hfound, Option.map_some]
  split at hfield'
  · rw [← hfield']
  · next hne => exact absurd (hfield' ▸ hkey) hne

theorem find?_erase_self (d : Draft) (key : String) : find? (erase d key) key = none := by
  rw [find?_eq_none_iff, keys, erase]
  simp

theorem keys_replace (d : Draft) (key : String) (item : Item) :
    keys (replace d key item) = keys d := by
  rw [keys, keys, replace, List.map_map]
  refine List.map_congr_left fun field _ => ?_
  rw [Function.comp_apply]
  split
  · next h => exact h.symm
  · rfl

namespace Keyed

theorem of_find? (hd : d.Keyed) (h : find? d key = some item) : item.Keyed :=
  hd.item _ (mem_of_find? h)

theorem append (hd : d.Keyed) (h : find? d key = none) (hitem : item.Keyed) :
    (d.append key item).Keyed where
  nodup := by
    rw [keys, Draft.append, List.map_append]
    refine List.Nodup.append hd.nodup (List.nodup_singleton _) ?_
    exact List.disjoint_singleton.mpr (find?_eq_none_iff.mp h)
  item := by
    intro field hfield
    rcases List.mem_append.mp hfield with hfield | hfield
    · exact hd.item field hfield
    · rw [List.mem_singleton.mp hfield]
      exact hitem

theorem replace (hd : d.Keyed) (hitem : item.Keyed) : (d.replace key item).Keyed where
  nodup := by
    rw [keys_replace]
    exact hd.nodup
  item := by
    intro field hfield
    obtain ⟨old, hold, rfl⟩ := List.mem_map.mp hfield
    split
    · exact hitem
    · exact hd.item old hold

theorem erase (hd : d.Keyed) : (d.erase key).Keyed where
  nodup := hd.nodup.sublist (List.filter_sublist.map _)
  item := fun field hfield => hd.item field (List.mem_of_mem_filter hfield)

end Keyed

/-! ### Tables inside of tables -/

/-- A key of a table `d` leads to the table `t`, and `d` becomes `d'` when `t` becomes `t'`. -/
inductive Enters (key : String) (d t d' t' : Draft) : Prop
  | new (origin : Origin) (hfind : find? d key = none) (ht : t = [])
    (hd' : d' = d.append key (.table origin t'))
  | table (origin : Origin) (hfind : find? d key = some (.table origin t))
    (hd' : d' = d.replace key (.table origin t'))
  | last (elements : List Draft) (hfind : find? d key = some (.tables elements))
    (hlast : elements.getLast? = some t)
    (hd' : d' = d.replace key (.tables (elements.dropLast ++ [t'])))

namespace Enters

variable {t d' t' : Draft}

theorem keyed (h : Enters key d t d' t') (hd : d.Keyed) : t.Keyed := by
  cases h with
  | new origin hfind ht hd' => exact ht ▸ .nil
  | table origin hfind hd' => exact keyed_table_iff.mp (hd.of_find? hfind)
  | last elements hfind hlast hd' =>
    exact keyed_tables_iff.mp (hd.of_find? hfind) t (List.mem_of_getLast? hlast)

theorem keyed_after (h : Enters key d t d' t') (hd : d.Keyed) (ht' : t'.Keyed) : d'.Keyed := by
  cases h with
  | new origin hfind ht hd' => exact hd' ▸ hd.append hfind (keyed_table_iff.mpr ht')
  | table origin hfind hd' => exact hd' ▸ hd.replace (keyed_table_iff.mpr ht')
  | last elements hfind hlast hd' =>
    have helements := keyed_tables_iff.mp (hd.of_find? hfind)
    refine hd' ▸ hd.replace (keyed_tables_iff.mpr (List.forall_mem_append.mpr ⟨?_, ?_⟩))
    · exact fun e he => helements e (List.dropLast_subset _ he)
    · exact List.forall_mem_singleton.mpr ht'

theorem lookup?_eq (h : Enters key d t d' t') (path : List String) :
    State.lookup? d (key :: path) = State.lookup? t path := by
  cases h with
  | new origin hfind ht hd' => rw [State.lookup?, hfind, ht]
  | table origin hfind hd' => rw [State.lookup?, hfind]
  | last elements hfind hlast hd' =>
    rw [State.lookup?, hfind]
    exact congrArg (·.bind (State.lookup? · path)) hlast

theorem lookup?_after (h : Enters key d t d' t') (path : List String) :
    State.lookup? d' (key :: path) = State.lookup? t' path := by
  cases h with
  | new origin hfind ht hd' => rw [hd', State.lookup?, find?_append_self hfind]
  | table origin hfind hd' => rw [hd', State.lookup?, find?_replace_self hfind]
  | last elements hfind hlast hd' =>
    rw [hd', State.lookup?, find?_replace_self hfind]
    simp

end Enters

/-! ### Changing a table below -/

variable {change : Draft → Option Draft} {path : List String} {d' : Draft} {value : Value}

theorem exists_enters_of_below (h : below change (key :: path) d = some d') :
    ∃ t t', Enters key d t d' t' ∧ below change path t = some t' := by
  rw [below] at h
  split at h
  · next hfind =>
    obtain ⟨t', ht', h⟩ := Option.bind_eq_some_iff.mp h
    obtain rfl := Option.some.inj h
    exact ⟨[], t', .new .implied hfind rfl rfl, ht'⟩
  · next origin t hfind =>
    obtain ⟨t', ht', h⟩ := Option.bind_eq_some_iff.mp h
    obtain rfl := Option.some.inj h
    exact ⟨t, t', .table origin hfind rfl, ht'⟩
  · next elements hfind =>
    split at h
    · cases h
    · next t hlast =>
      obtain ⟨t', ht', h⟩ := Option.bind_eq_some_iff.mp h
      obtain rfl := Option.some.inj h
      exact ⟨t, t', .last elements hfind hlast rfl, ht'⟩
  · cases h

/-- What it takes to change a table below: the change is made in the table that the path leads
to. -/
theorem below_spec (h : below change path d = some d') : ∃ t t', change t = some t' ∧
    State.lookup? d path = some t ∧ State.lookup? d' path = some t' ∧
      (d.Keyed → t.Keyed ∧ (t'.Keyed → d'.Keyed)) := by
  induction path generalizing d d' with
  | nil => exact ⟨d, d', h, rfl, rfl, fun hd => ⟨hd, id⟩⟩
  | cons key path ih =>
    obtain ⟨t, t', henters, hbelow⟩ := exists_enters_of_below h
    obtain ⟨u, u', hchange, hlookup, hlookup', hkeyed⟩ := ih hbelow
    refine ⟨u, u', hchange, ?_, ?_, fun hd => ?_⟩
    · rw [henters.lookup?_eq, hlookup]
    · rw [henters.lookup?_after, hlookup']
    · obtain ⟨hu, hafter⟩ := hkeyed (henters.keyed hd)
      exact ⟨hu, fun hu' => henters.keyed_after hd (hafter hu')⟩

theorem exists_enters_of_insert {next : String}
    (h : insert value (key :: next :: path) d = some d') :
    ∃ t t', Enters key d t d' t' ∧ insert value (next :: path) t = some t' := by
  rw [insert] at h
  swap
  · exact List.cons_ne_nil next path
  cases hfind : find? d key with
  | none =>
    rw [hfind] at h
    obtain ⟨t', ht', h⟩ := Option.bind_eq_some_iff.mp h
    obtain rfl := Option.some.inj h
    exact ⟨[], t', .new .dotted hfind rfl rfl, ht'⟩
  | some item =>
    rw [hfind] at h
    cases item with
    | value v => cases h
    | table origin t =>
      obtain ⟨-, -, h⟩ := Option.bind_eq_some_iff.mp h
      obtain ⟨t', ht', h⟩ := Option.bind_eq_some_iff.mp h
      obtain rfl := Option.some.inj h
      exact ⟨t, t', .table origin hfind rfl, ht'⟩
    | tables elements =>
      obtain ⟨-, -, h⟩ := Option.bind_eq_some_iff.mp h
      cases hlast : elements.getLast? with
      | none =>
        rw [hlast] at h
        cases h
      | some t =>
        rw [hlast] at h
        obtain ⟨t', ht', h⟩ := Option.bind_eq_some_iff.mp h
        obtain rfl := Option.some.inj h
        exact ⟨t, t', .last elements hfind hlast rfl, ht'⟩

/-- A value is added under a new key. -/
theorem Keyed.insert (hd : d.Keyed) (hvalue : value.Keyed) (h : insert value path d = some d') :
    d'.Keyed := by
  induction path generalizing d d' with
  | nil => cases h
  | cons key path ih =>
    cases path with
    | nil =>
      rw [Draft.insert] at h
      split at h
      · cases h
      · next hnew =>
        obtain rfl := Option.some.inj h
        exact hd.append (Option.not_isSome_iff_eq_none.mp hnew) (.value hvalue)
    | cons next path =>
      obtain ⟨t, t', henters, hinsert⟩ := exists_enters_of_insert h
      exact henters.keyed_after hd (ih (henters.keyed hd) hinsert)

end Draft

end Patchbay.Toml
