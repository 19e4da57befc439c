import Patchbay.Proofs.Toml.Keys

/-!
# No table of a document has a key twice

Every line of a document keeps the tables that have been read free of repeated keys, and so does
putting the last one in its place (`keyed_of_document?`). The table that a header opens is the one
case where this is not seen at once. It is taken out of its parent when it is opened, and put back
when the next one is; in between the parent does not get the key again
(`Draft.State.Keyed.fresh`).

Inline tables are built in the same way, and replacing tables that stand for a date or time changes
no keys.
-/

namespace Patchbay.Toml

namespace Draft

variable {d d' : Draft} {key : String} {path : List String} {value : Value}

/-! ### Documents under construction -/

namespace State

/-- No table of a document as far as it has been read has a key twice. -/
structure Keyed (s : State) : Prop where
  finished : s.finished.Keyed
  current : s.current.Keyed
  /-- The parent of the current table does not have its key. -/
  fresh : ∀ {path key parent}, s.place = .table path key →
    lookup? s.finished path = some parent → parent.find? key = none

variable {s s' : State}

theorem Keyed.empty : Keyed {} where
  finished := .nil
  current := .nil
  fresh := by
    intro path key parent h
    cases h

/-- The current table can be put in its place. -/
theorem Keyed.finish (hs : s.Keyed) (h : s.finish = some d) : d.Keyed := by
  rw [State.finish] at h
  split at h
  · obtain rfl := Option.some.inj h
    exact hs.current
  · next path key hplace =>
    obtain ⟨t, t', hchange, hlookup, -, hkeyed⟩ := below_spec h
    obtain ⟨ht, hafter⟩ := hkeyed hs.finished
    obtain rfl := Option.some.inj hchange
    -- the key is free, since the header took its table out of the parent
    exact hafter (ht.append (hs.fresh hplace hlookup) (keyed_table_iff.mpr hs.current))
  · next path key hplace =>
    obtain ⟨t, t', hchange, -, -, hkeyed⟩ := below_spec h
    obtain ⟨ht, hafter⟩ := hkeyed hs.finished
    split at hchange
    · next elements hfind =>
      obtain rfl := Option.some.inj hchange
      refine hafter (ht.replace (keyed_tables_iff.mpr (List.forall_mem_append.mpr ⟨?_, ?_⟩)))
      · exact keyed_tables_iff.mp (ht.of_find? hfind)
      · exact List.forall_mem_singleton.mpr hs.current
    · cases hchange

theorem Keyed.insert (hs : s.Keyed) (hvalue : value.Keyed) (h : s.insert path value = some s') :
    s'.Keyed := by
  obtain ⟨current, hcurrent, h⟩ := Option.bind_eq_some_iff.mp h
  obtain rfl := Option.some.inj h
  exact ⟨hs.finished, hs.current.insert hvalue hcurrent, hs.fresh⟩

theorem keyed_of_implied? {parent contents : Draft} (hparent : parent.Keyed)
    (h : implied? parent key = some contents) : contents.Keyed := by
  rw [implied?] at h
  split at h
  · obtain rfl := Option.some.inj h
    exact .nil
  · next fields hfind =>
    obtain rfl := Option.some.inj h
    exact keyed_table_iff.mp (hparent.of_find? hfind)
  · cases h

/-- A header takes its table out of the parent. -/
theorem Keyed.openTable (hs : s.Keyed) (h : s.openTable path key = some s') : s'.Keyed := by
  obtain ⟨finished, hfinish, h⟩ := Option.bind_eq_some_iff.mp h
  obtain ⟨parent, hparent, h⟩ := Option.bind_eq_some_iff.mp h
  obtain ⟨contents, hcontents, h⟩ := Option.bind_eq_some_iff.mp h
  obtain ⟨finished', hbelow, h⟩ := Option.bind_eq_some_iff.mp h
  obtain rfl := Option.some.inj h
  obtain ⟨t, t', hchange, hlookup, hlookup', hkeyed⟩ := below_spec hbelow
  obtain ⟨ht, hafter⟩ := hkeyed (hs.finish hfinish)
  obtain rfl := Option.some.inj (hlookup.symm.trans hparent)
  obtain rfl := Option.some.inj hchange
  refine ⟨hafter ht.erase, keyed_of_implied? ht hcontents, ?_⟩
  rintro _ _ parent ⟨⟩ hparent'
  obtain rfl := Option.some.inj (hlookup'.symm.trans hparent')
  exact find?_erase_self t key

theorem Keyed.openElement (hs : s.Keyed) (h : s.openElement path key = some s') : s'.Keyed := by
  obtain ⟨finished, hfinish, h⟩ := Option.bind_eq_some_iff.mp h
  obtain ⟨finished', hbelow, h⟩ := Option.bind_eq_some_iff.mp h
  obtain rfl := Option.some.inj h
  obtain ⟨t, t', hchange, -, -, hkeyed⟩ := below_spec hbelow
  obtain ⟨ht, hafter⟩ := hkeyed (hs.finish hfinish)
  refine ⟨hafter ?_, .nil, ?_⟩
  · split at hchange
    · next hfind =>
      obtain rfl := Option.some.inj hchange
      exact ht.append hfind (keyed_tables_iff.mpr (List.forall_mem_nil _))
    · obtain rfl := Option.some.inj hchange
      exact ht
    · cases hchange
  · intro path key parent hplace
    cases hplace

end State

end Draft

/-! ### Reading values -/

theorem keyed_of_readNumeric {cs rest : List Char} {v : Value}
    (h : readNumeric cs = some (v, rest)) : v.Keyed := by
  have horElse {a b : Option (Value × List Char)} (h : (a <|> b) = some (v, rest)) :
      a = some (v, rest) ∨ b = some (v, rest) := by
    cases a with
    | none => exact .inr h
    | some a => exact .inl h
  rcases horElse h with h | h
  · obtain ⟨⟨d, rest'⟩, -, h⟩ := Option.map_eq_some_iff.mp h
    exact (Prod.mk.inj h).1 ▸ .dateTime d
  rcases horElse h with h | h
  · obtain ⟨⟨x, rest'⟩, -, h⟩ := Option.map_eq_some_iff.mp h
    exact (Prod.mk.inj h).1 ▸ .float x
  · obtain ⟨⟨n, rest'⟩, -, h⟩ := Option.map_eq_some_iff.mp h
    exact (Prod.mk.inj h).1 ▸ .integer n

theorem keyed_of_readScalar {cs rest : List Char} {v : Value}
    (h : readScalar cs = some (v, rest)) : v.Keyed := by
  unfold readScalar at h
  split at h
  · exact (Prod.mk.inj (Option.some.inj h)).1 ▸ .boolean true
  · exact (Prod.mk.inj (Option.some.inj h)).1 ▸ .boolean false
  · obtain ⟨⟨text, rest'⟩, -, h⟩ := Option.map_eq_some_iff.mp h
    exact (Prod.mk.inj h).1 ▸ .string text
  · obtain ⟨⟨text, rest'⟩, -, h⟩ := Option.map_eq_some_iff.mp h
    exact (Prod.mk.inj h).1 ▸ .string text
  · exact keyed_of_readNumeric h

section Values

variable {readValue : Reader Value}
  (hread : ∀ {cs rest v}, readValue cs = some (v, rest) → v.Keyed)

include hread

theorem keyed_of_readElements {fuel : Nat} {cs rest : List Char} {values : List Value}
    (h : readElements readValue fuel cs = some (values, rest)) : ∀ v ∈ values, v.Keyed := by
  induction fuel generalizing cs rest values with
  | zero => cases h
  | succ fuel ih =>
    obtain ⟨front, -, h⟩ := Option.bind_eq_some_iff.mp h
    split at h
    · obtain ⟨rfl, rfl⟩ := Prod.mk.inj (Option.some.inj h)
      exact List.forall_mem_nil _
    · obtain ⟨⟨value, cs⟩, hvalue, h⟩ := Option.bind_eq_some_iff.mp h
      obtain ⟨after, -, h⟩ := Option.bind_eq_some_iff.mp h
      split at h
      · obtain ⟨⟨values', rest'⟩, hvalues, h⟩ := Option.bind_eq_some_iff.mp h
        obtain ⟨rfl, rfl⟩ := Prod.mk.inj (Option.some.inj h)
        exact List.forall_mem_cons.mpr ⟨hread hvalue, ih hvalues⟩
      · obtain ⟨rfl, rfl⟩ := Prod.mk.inj (Option.some.inj h)
        exact List.forall_mem_singleton.mpr (hread hvalue)
      · cases h

theorem keyed_of_readPair {cs rest : List Char} {key : List String} {v : Value}
    (h : readPair readValue cs = some ((key, v), rest)) : v.Keyed := by
  obtain ⟨⟨key', after⟩, -, h⟩ := Option.bind_eq_some_iff.mp h
  obtain ⟨front, -, h⟩ := Option.bind_eq_some_iff.mp h
  obtain ⟨⟨v', rest'⟩, hvalue, h⟩ := Option.bind_eq_some_iff.mp h
  obtain ⟨⟨rfl, rfl⟩, rfl⟩ := Prod.mk.inj (Option.some.inj h)
  exact hread hvalue

theorem keyed_of_readPairs {fuel : Nat} {cs rest : List Char} {d d' : Draft} (hd : d.Keyed)
    (h : readPairs readValue fuel d cs = some (d', rest)) : d'.Keyed := by
  induction fuel generalizing cs d with
  | zero => cases h
  | succ fuel ih =>
    obtain ⟨⟨⟨key, value⟩, after⟩, hpair, h⟩ := Option.bind_eq_some_iff.mp h
    obtain ⟨inserted, hinsert, h⟩ := Option.bind_eq_some_iff.mp h
    have hinserted := hd.insert (keyed_of_readPair hread hpair) hinsert
    split at h
    · exact ih hinserted h
    · obtain ⟨rfl, rfl⟩ := Prod.mk.inj (Option.some.inj h)
      exact hinserted
    · cases h

end Values

/-! ### Finished tables -/

theorem draftFields_eq_map (d : Draft) :
    draftFields d = d.map fun field => (field.1, field.2.toValue) := by
  induction d with
  | nil => rw [draftFields, List.map_nil]
  | cons field d ih => rw [draftFields, ih, List.map_cons]

theorem draftTables_eq_map (elements : List Draft) :
    draftTables elements = elements.map fun d => .table (draftFields d) := by
  induction elements with
  | nil => rw [draftTables, List.map_nil]
  | cons d elements ih => rw [draftTables, ih, List.map_cons]

theorem keys_draftFields (d : Draft) : keys (draftFields d) = keys d := by
  rw [draftFields_eq_map, keys, List.map_map]
  rfl

theorem Item.Keyed.toValue {item : Item} (h : item.Keyed) : item.toValue.Keyed := by
  have htable {d : Draft} (nodup : (keys d).Nodup) (h : ∀ field ∈ d, field.2.toValue.Keyed) :
      (Value.table (draftFields d)).Keyed := by
    refine .table (keys_draftFields d ▸ nodup) ?_
    rw [draftFields_eq_map]
    exact List.forall_mem_map.mpr h
  induction h with
  | value h => rwa [Item.toValue]
  | table nodup h ih =>
    rw [Item.toValue]
    exact htable nodup ih
  | tables nodup h ih =>
    rw [Item.toValue, draftTables_eq_map]
    exact .array (List.forall_mem_map.mpr fun d hd => htable (nodup d hd) (ih d hd))

theorem Draft.Keyed.table {d : Draft} (hd : d.Keyed) : (Value.table (draftFields d)).Keyed := by
  have h : (Item.table .implied d).Keyed := Draft.keyed_table_iff.mpr hd
  have hvalue := h.toValue
  rwa [Item.toValue] at hvalue

theorem keyed_of_readInlineTable {readValue : Reader Value}
    (hread : ∀ {cs rest v}, readValue cs = some (v, rest) → v.Keyed) {cs rest : List Char}
    {v : Value} (h : readInlineTable readValue cs = some (v, rest)) : v.Keyed := by
  rw [readInlineTable] at h
  split at h
  · exact (Prod.mk.inj (Option.some.inj h)).1 ▸ .table List.nodup_nil (List.forall_mem_nil _)
  · obtain ⟨⟨d, rest'⟩, hpairs, h⟩ := Option.bind_eq_some_iff.mp h
    exact (Prod.mk.inj (Option.some.inj h)).1 ▸ (keyed_of_readPairs hread .nil hpairs).table

/-- What is read as a value has no key twice. -/
theorem keyed_of_readValue {depth : Nat} {cs rest : List Char} {v : Value}
    (h : readValue depth cs = some (v, rest)) : v.Keyed := by
  -- arrays and inline tables are read with the reader for one level less
  induction depth using Nat.strongRecOn generalizing cs rest v with
  | ind depth ih =>
    fun_cases readValue depth cs with
    | case1 cs => cases h
    | case2 cs => cases h
    | case3 depth cs =>
      obtain ⟨⟨values, rest'⟩, hvalues, h⟩ := Option.bind_eq_some_iff.mp h
      have hread := keyed_of_readElements (ih depth depth.lt_succ_self) hvalues
      exact (Prod.mk.inj (Option.some.inj h)).1 ▸ .array hread
    | case4 depth cs => exact keyed_of_readInlineTable (ih depth depth.lt_succ_self) h
    | case5 depth cs =>
      rw [readValue] at h
      · exact keyed_of_readScalar h
      all_goals assumption

/-! ### Documents -/

theorem Draft.State.Keyed.readHeader {s s' : Draft.State} {cs rest : List Char} (hs : s.Keyed)
    (h : readHeader s cs = some (s', rest)) : s'.Keyed := by
  unfold Toml.readHeader at h
  split at h
  · obtain ⟨⟨key, after⟩, -, h⟩ := Option.bind_eq_some_iff.mp h
    obtain ⟨after', -, h⟩ := Option.bind_eq_some_iff.mp h
    obtain ⟨after'', -, h⟩ := Option.bind_eq_some_iff.mp h
    obtain ⟨rest', -, h⟩ := Option.bind_eq_some_iff.mp h
    obtain ⟨⟨path, last⟩, -, h⟩ := Option.bind_eq_some_iff.mp h
    obtain ⟨opened, hopen, h⟩ := Option.bind_eq_some_iff.mp h
    exact (Prod.mk.inj (Option.some.inj h)).1 ▸ hs.openElement hopen
  · obtain ⟨⟨key, after⟩, -, h⟩ := Option.bind_eq_some_iff.mp h
    obtain ⟨after', -, h⟩ := Option.bind_eq_some_iff.mp h
    obtain ⟨rest', -, h⟩ := Option.bind_eq_some_iff.mp h
    obtain ⟨⟨path, last⟩, -, h⟩ := Option.bind_eq_some_iff.mp h
    obtain ⟨opened, hopen, h⟩ := Option.bind_eq_some_iff.mp h
    exact (Prod.mk.inj (Option.some.inj h)).1 ▸ hs.openTable hopen

theorem Draft.State.Keyed.readAssignment {s s' : Draft.State} {cs rest : List Char} (hs : s.Keyed)
    (h : readAssignment s cs = some (s', rest)) : s'.Keyed := by
  obtain ⟨⟨⟨key, value⟩, after⟩, hpair, h⟩ := Option.bind_eq_some_iff.mp h
  obtain ⟨rest', -, h⟩ := Option.bind_eq_some_iff.mp h
  obtain ⟨inserted, hinsert, h⟩ := Option.bind_eq_some_iff.mp h
  exact (Prod.mk.inj (Option.some.inj h)).1 ▸
    hs.insert (keyed_of_readPair keyed_of_readValue hpair) hinsert

/-- Every line of a document keeps the invariant. -/
theorem Draft.State.Keyed.readLines {fuel : Nat} {s s' : Draft.State} {cs : List Char}
    (hs : s.Keyed) (h : readLines fuel s cs = some s') : s'.Keyed := by
  induction fuel generalizing s cs with
  | zero => cases h
  | succ fuel ih =>
    rw [Toml.readLines] at h
    split at h
    · exact Option.some.inj h ▸ hs
    · obtain ⟨rest, -, h⟩ := Option.bind_eq_some_iff.mp h
      exact ih hs h
    · obtain ⟨⟨opened, rest⟩, hheader, h⟩ := Option.bind_eq_some_iff.mp h
      exact ih (hs.readHeader hheader) h
    · exact ih hs h
    · obtain ⟨rest, -, h⟩ := Option.bind_eq_some_iff.mp h
      exact ih hs h
    · obtain ⟨⟨inserted, rest⟩, hassignment, h⟩ := Option.bind_eq_some_iff.mp h
      exact ih (hs.readAssignment hassignment) h

/-! ### Dates and times -/

namespace Value

theorem exists_of_settleAll {values settled : List Value} (h : settleAll values = some settled) :
    ∀ v' ∈ settled, ∃ v ∈ values, settle v = some v' := by
  induction values generalizing settled with
  | nil =>
    rw [settleAll] at h
    exact Option.some.inj h ▸ List.forall_mem_nil _
  | cons first values ih =>
    rw [settleAll] at h
    obtain ⟨first', hfirst, h⟩ := Option.bind_eq_some_iff.mp h
    obtain ⟨rest, hrest, h⟩ := Option.bind_eq_some_iff.mp h
    obtain rfl := Option.some.inj h
    refine List.forall_mem_cons.mpr ⟨⟨first, List.mem_cons_self, hfirst⟩, fun v' hv' => ?_⟩
    obtain ⟨v, hv, hsettle⟩ := ih hrest v' hv'
    exact ⟨v, List.mem_cons_of_mem _ hv, hsettle⟩

theorem exists_of_settleFields {fields settled : Fields} (h : settleFields fields = some settled) :
    keys settled = keys fields ∧
      ∀ field' ∈ settled, ∃ field ∈ fields, settle field.2 = some field'.2 := by
  induction fields generalizing settled with
  | nil =>
    rw [settleFields] at h
    exact Option.some.inj h ▸ ⟨rfl, List.forall_mem_nil _⟩
  | cons first fields ih =>
    rw [settleFields] at h
    obtain ⟨value', hvalue, h⟩ := Option.bind_eq_some_iff.mp h
    obtain ⟨rest, hrest, h⟩ := Option.bind_eq_some_iff.mp h
    obtain rfl := Option.some.inj h
    obtain ⟨hkeys, hfields⟩ := ih hrest
    refine ⟨congrArg (first.1 :: ·) hkeys, List.forall_mem_cons.mpr ⟨?_, fun field' hfield' => ?_⟩⟩
    · exact ⟨first, List.mem_cons_self, hvalue⟩
    · obtain ⟨field, hfield, hsettle⟩ := hfields field' hfield'
      exact ⟨field, List.mem_cons_of_mem _ hfield, hsettle⟩

/-- A table is settled field by field, unless it stands for a date or time. -/
theorem settle_table_cases {fields : Fields} {v' : Value}
    (h : settle (.table fields) = some v') : (∃ d, v' = .dateTime d) ∨
      ∃ settled, settleFields fields = some settled ∧ v' = .table settled := by
  cases fields with
  | nil => exact .inr ⟨[], by rw [settleFields], (Option.some.inj h).symm⟩
  | cons first rest =>
    rw [settle] at h
    split at h
    · obtain ⟨d, -, rfl⟩ := Option.map_eq_some_iff.mp h
      exact .inl ⟨d, rfl⟩
    · obtain ⟨value', hvalue, h⟩ := Option.bind_eq_some_iff.mp h
      obtain ⟨rest', hrest, h⟩ := Option.bind_eq_some_iff.mp h
      refine .inr ⟨(first.1, value') :: rest', ?_, (Option.some.inj h).symm⟩
      rw [settleFields, hvalue, hrest]
      rfl

theorem Keyed.settle {v v' : Value} (hv : v.Keyed) (h : v.settle = some v') : v'.Keyed := by
  induction hv generalizing v' with
  | array h' ih =>
    rw [Value.settle] at h
    obtain ⟨settled, hsettled, rfl⟩ := Option.map_eq_some_iff.mp h
    refine .array fun value hvalue => ?_
    obtain ⟨old, hold, hsettle⟩ := exists_of_settleAll hsettled value hvalue
    exact ih old hold hsettle
  | table nodup h' ih =>
    rcases settle_table_cases h with ⟨d, rfl⟩ | ⟨settled, hsettled, rfl⟩
    · exact .dateTime d
    · obtain ⟨hkeys, hfields⟩ := exists_of_settleFields hsettled
      refine .table (hkeys ▸ nodup) fun field hfield => ?_
      obtain ⟨old, hold, hsettle⟩ := hfields field hfield
      exact ih old hold hsettle
  | string text => exact Option.some.inj h ▸ .string text
  | integer n => exact Option.some.inj h ▸ .integer n
  | float x => exact Option.some.inj h ▸ .float x
  | boolean b => exact Option.some.inj h ▸ .boolean b
  | dateTime d => exact Option.some.inj h ▸ .dateTime d

end Value

/-- No table of a document has a key twice. -/
theorem keyed_of_document? {s : String} {fields : Fields} (h : document? s = some fields) :
    (Value.table fields).Keyed := by
  obtain ⟨state, hlines, h⟩ := Option.bind_eq_some_iff.mp h
  obtain ⟨d, hfinish, h⟩ := Option.bind_eq_some_iff.mp h
  have hd : d.Keyed := (Draft.State.Keyed.empty.readLines hlines).finish hfinish
  obtain ⟨hkeys, hfields⟩ := Value.exists_of_settleFields h
  cases hd.table with
  | table nodup hitems =>
    refine .table (hkeys ▸ nodup) fun field hfield => ?_
    obtain ⟨old, hold, hsettle⟩ := hfields field hfield
    exact (hitems old hold).settle hsettle

end Patchbay.Toml
