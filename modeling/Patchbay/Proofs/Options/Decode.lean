import Patchbay.Options.Decode
import Patchbay.Proofs.Toml.Document

/-!
# Options key by key

Which values an option accepts and what it makes of them is said first, without regard to how values
are read (`Key.Accepts`).

The options are read one after the other, and each is set in what the ones before it have given. Yet
no option depends on another (`readAll?_eq_some_iff`): it is what is said of it, or the default if
nothing is. The whole fails just if something is said of an option that it does not accept
(`readAll?_eq_none_iff`). What a table says of an option is what its key holds, and all other keys
are ignored; what an array says is at the place of the option.

For documents there is one more key that counts, the one that keeps the options apart. If it is
there, what it holds is all that counts (`document_options`).
-/

namespace Patchbay

open Toml (keys)

namespace Options

/-! ### Accepted values -/

/-- A value that stands for a text: a string for itself, a date or time for how it is written. -/
inductive GivesText : Toml.Value → String → Prop
  | string (s : String) : GivesText (.string s) s
  | dateTime (d : Toml.DateTime) : GivesText (.dateTime d) d.text

/-- The names of the conventions for slots. -/
inductive NamesAddressing : String → Addressing → Prop
  | identifiers : NamesAddressing "identifiers" .identifiers
  | registers : NamesAddressing "registers" .registers

/-- A value that stands for a convention: its name, or the name with an empty table or array. -/
inductive GivesAddressing : Toml.Value → Addressing → Prop
  | name {name : String} {a : Addressing} : NamesAddressing name a →
    GivesAddressing (.string name) a
  | table {name : String} {a : Addressing} : NamesAddressing name a →
    GivesAddressing (.table [(name, .table [])]) a
  | array {name : String} {a : Addressing} : NamesAddressing name a →
    GivesAddressing (.table [(name, .array [])]) a

namespace Key

/-- What an option is. -/
def Field : Key → Type
  | log => Bool
  | addressing => Addressing
  | fallbackKind => String
  | constantKind => String
  | stem => String

/-- A value that an option accepts, and what the option then is. -/
def Accepts : (key : Key) → Toml.Value → key.Field → Prop
  | log, value, x => value = .boolean x
  | addressing, value, x => GivesAddressing value x
  | fallbackKind, value, x => GivesText value x
  | constantKind, value, x => GivesText value x
  | stem, value, x => GivesText value x

/-- What an option makes of a value. -/
def decode? : (key : Key) → Toml.Value → Option key.Field
  | log => boolean?
  | addressing => addressing?
  | fallbackKind => text?
  | constantKind => text?
  | stem => text?

theorem mem_all (key : Key) : key ∈ all := by
  cases key <;> decide

end Key

variable {o o' : Options} {key : Key}

/-- One of the options. -/
def get (o : Options) : (key : Key) → key.Field
  | .log => o.log
  | .addressing => o.addressing
  | .fallbackKind => o.fallbackKind
  | .constantKind => o.constantKind
  | .stem => o.stem

/-- The options with one of them changed. -/
def put (o : Options) : (key : Key) → key.Field → Options
  | .log, x => { o with log := x }
  | .addressing, x => { o with addressing := x }
  | .fallbackKind, x => { o with fallbackKind := x }
  | .constantKind, x => { o with constantKind := x }
  | .stem, x => { o with stem := x }

/-- The options with given values. -/
def ofGet (x : (key : Key) → key.Field) : Options :=
  ⟨x .log, x .addressing, x .fallbackKind, x .constantKind, x .stem⟩

theorem get_ofGet (x : (key : Key) → key.Field) (key : Key) : (ofGet x).get key = x key := by
  cases key <;> rfl

theorem ext_get (h : ∀ key, o.get key = o'.get key) : o = o' := by
  cases o
  cases o'
  rw [mk.injEq]
  exact ⟨h .log, h .addressing, h .fallbackKind, h .constantKind, h .stem⟩

theorem get_put_self (o : Options) (x : key.Field) : (o.put key x).get key = x := by
  cases key <;> rfl

theorem get_put_of_ne (o : Options) (x : key.Field) {other : Key} (h : other ≠ key) :
    (o.put key x).get other = o.get other := by
  cases key <;> cases other <;> first | rfl | exact absurd rfl h

theorem put_get_self (o : Options) (key : Key) : o.put key (o.get key) = o := by
  cases key <;> rfl

theorem set?_eq (o : Options) (key : Key) (value : Toml.Value) :
    o.set? key value = (key.decode? value).map (o.put key) := by
  cases key <;> rfl

/-! ### Values -/

theorem boolean?_eq_some_iff {value : Toml.Value} {b : Bool} :
    boolean? value = some b ↔ value = .boolean b := by
  cases value <;> simp [boolean?]

theorem text?_eq_some_iff {value : Toml.Value} {s : String} :
    text? value = some s ↔ GivesText value s := by
  constructor
  · intro h
    cases value with
    | string t =>
      obtain rfl := Option.some.inj h
      exact .string t
    | dateTime d =>
      obtain rfl := Option.some.inj h
      exact .dateTime d
    | _ => cases h
  · rintro (_ | _) <;> rfl

theorem ofTag?_eq_some_iff {name : String} {a : Addressing} :
    Addressing.ofTag? name = some a ↔ NamesAddressing name a := by
  rw [Addressing.ofTag?_eq_some_iff]
  constructor
  · rintro rfl
    cases a
    · exact .identifiers
    · exact .registers
  · rintro (_ | _) <;> rfl

theorem addressing?_eq_some_iff {value : Toml.Value} {a : Addressing} :
    addressing? value = some a ↔ GivesAddressing value a := by
  constructor
  · intro h
    unfold addressing? at h
    split at h
    · exact .name (ofTag?_eq_some_iff.mp h)
    · exact .table (ofTag?_eq_some_iff.mp h)
    · exact .array (ofTag?_eq_some_iff.mp h)
    · cases h
  · rintro (h | h | h) <;> exact ofTag?_eq_some_iff.mpr h

theorem Key.decode?_eq_some_iff {value : Toml.Value} {x : key.Field} :
    key.decode? value = some x ↔ key.Accepts value x := by
  cases key with
  | log => exact boolean?_eq_some_iff
  | addressing => exact addressing?_eq_some_iff
  | fallbackKind => exact text?_eq_some_iff
  | constantKind => exact text?_eq_some_iff
  | stem => exact text?_eq_some_iff

theorem Key.decode?_eq_none_iff {value : Toml.Value} :
    key.decode? value = none ↔ ∀ x, ¬ key.Accepts value x := by
  simp only [Option.eq_none_iff_forall_ne_some, ne_eq, decode?_eq_some_iff]

/-! ### One option after the other -/

variable {said : Key → Option Toml.Value}

/-- What an option is, given what is said of it, if anything, and what it is otherwise. -/
def Key.read? (key : Key) (said : Option Toml.Value) (missing : key.Field) : Option key.Field :=
  match said with
  | some value => key.decode? value
  | none => some missing

/-- Reads one option. -/
def update? (said : Key → Option Toml.Value) (o : Options) (key : Key) : Option Options :=
  (key.read? (said key) (o.get key)).map (o.put key)

/-- Reads all options. -/
def readAll? (said : Key → Option Toml.Value) : Option Options :=
  Key.all.foldlM (update? said) {}

theorem update?_of_none (o : Options) (h : said key = none) : update? said o key = some o := by
  rw [update?, h]
  exact congrArg some (o.put_get_self key)

theorem update?_of_some (o : Options) {value : Toml.Value} (h : said key = some value) :
    update? said o key = o.set? key value := by
  rw [update?, h, set?_eq]
  rfl

/-- Reading some options sets each of them by itself and leaves the others. -/
theorem foldlM_update?_eq_some_iff {ks : List Key} (hks : ks.Nodup) :
    ks.foldlM (update? said) o = some o' ↔
      (∀ key ∈ ks, key.read? (said key) (o.get key) = some (o'.get key)) ∧
        ∀ key ∉ ks, o'.get key = o.get key := by
  induction ks generalizing o with
  | nil =>
    rw [List.foldlM_nil]
    refine ⟨fun h => ?_, fun h => congrArg some (ext_get fun key => (h.2 key ?_).symm)⟩
    · obtain rfl := Option.some.inj h
      exact ⟨List.forall_mem_nil _, fun _ _ => rfl⟩
    · exact List.not_mem_nil
  | cons first ks ih =>
    obtain ⟨hfirst, hks⟩ := List.nodup_cons.mp hks
    rw [List.foldlM_cons, update?, List.forall_mem_cons]
    cases hread : first.read? (said first) (o.get first) with
    | none =>
      refine ⟨fun h => ?_, fun h => ?_⟩
      · cases h
      · cases h.1.1
    | some x =>
      have hput {key : Key} (hkey : key ∈ ks) : (o.put first x).get key = o.get key :=
        get_put_of_ne o x fun heq => hfirst (heq ▸ hkey)
      refine (ih hks).trans ⟨fun ⟨hmem, hother⟩ => ⟨⟨?_, fun key hkey => ?_⟩, fun key hkey => ?_⟩,
        fun ⟨⟨hx, hmem⟩, hother⟩ => ⟨fun key hkey => ?_, fun key hkey => ?_⟩⟩
      · rw [hother first hfirst, get_put_self]
      · rw [← hput hkey, hmem key hkey]
      · rw [List.mem_cons, not_or] at hkey
        rw [hother key hkey.2, get_put_of_ne o x hkey.1]
      · rw [hput hkey, hmem key hkey]
      · by_cases heq : key = first
        · subst heq
          rw [get_put_self, Option.some.inj hx]
        · rw [hother key (by simp [heq, hkey]), get_put_of_ne o x heq]

/-- Each option is what is said of it, or the default. -/
theorem readAll?_eq_some_iff : readAll? said = some o ↔
    ∀ key : Key, key.read? (said key) (get {} key) = some (o.get key) := by
  rw [readAll?, foldlM_update?_eq_some_iff (by decide)]
  exact ⟨fun h key => h.1 key key.mem_all,
    fun h => ⟨fun key _ => h key, fun key hkey => absurd key.mem_all hkey⟩⟩

/-- Reading fails just if it fails for one of the options. -/
theorem readAll?_eq_none_iff : readAll? said = none ↔
    ∃ key : Key, key.read? (said key) (get {} key) = none := by
  constructor
  · intro hnone
    by_contra hall
    rw [not_exists] at hall
    choose x hx using fun key => Option.ne_none_iff_exists'.mp (hall key)
    have hsome : readAll? said = some (ofGet x) :=
      readAll?_eq_some_iff.mpr fun key => (hx key).trans (congrArg some (get_ofGet x key).symm)
    cases hnone.symm.trans hsome
  · rintro ⟨key, hkey⟩
    cases hoptions : readAll? said with
    | none => rfl
    | some o => cases hkey.symm.trans (readAll?_eq_some_iff.mp hoptions key)

/-! ### Tables -/

variable {fields other inner : Toml.Fields}

theorem ofFields?_eq (fields : Toml.Fields) :
    ofFields? fields = readAll? fun key => fields.lookup key.name := by
  refine congrArg (fun step => List.foldlM step ({} : Options) Key.all) ?_
  funext o key
  cases hsaid : fields.lookup key.name with
  | none => exact (update?_of_none o hsaid).symm
  | some value => exact (update?_of_some o hsaid).symm

/-- The options that a table gives: each is what its key holds, or the default if there is no such
key. -/
def TableGives (fields : Toml.Fields) (o : Options) : Prop :=
  ∀ key : Key, (∀ value, (key.name, value) ∈ fields → key.Accepts value (o.get key)) ∧
    (key.name ∉ keys fields → o.get key = get {} key)

/-- What a table gives, key by key and whatever the order of the keys. -/
structure DecodesTable (fields : Toml.Fields) (outcome : Option Options) : Prop where
  /-- Reading fails just if a key holds something that its option does not accept. -/
  fails : outcome = none ↔ ∃ (key : Key) (value : Toml.Value), (key.name, value) ∈ fields ∧
    ∀ x, ¬ key.Accepts value x
  /-- Otherwise each option is what its key holds, or the default if there is no such key. -/
  gives : ∀ o, outcome = some o ↔ TableGives fields o

section Nodup

variable (hfields : (keys fields).Nodup) {missing x : key.Field}

include hfields

theorem Key.read?_lookup_eq_none_iff : key.read? (fields.lookup key.name) missing = none ↔
    ∃ value, (key.name, value) ∈ fields ∧ ∀ x, ¬ key.Accepts value x := by
  simp only [← Toml.lookup_eq_some_iff hfields, ← decode?_eq_none_iff, read?]
  cases fields.lookup key.name <;> simp

theorem Key.read?_lookup_eq_some_iff : key.read? (fields.lookup key.name) missing = some x ↔
    (∀ value, (key.name, value) ∈ fields → key.Accepts value x) ∧
      (key.name ∉ keys fields → x = missing) := by
  simp only [← Toml.lookup_eq_some_iff hfields, ← Toml.lookup_eq_none_iff,
    ← decode?_eq_some_iff, read?]
  cases fields.lookup key.name <;> simp [eq_comm]

theorem decodesTable_ofFields? : DecodesTable fields (ofFields? fields) where
  fails := by
    rw [ofFields?_eq, readAll?_eq_none_iff]
    exact exists_congr fun key => Key.read?_lookup_eq_none_iff hfields
  gives o := by
    rw [ofFields?_eq, readAll?_eq_some_iff]
    exact forall_congr' fun key => Key.read?_lookup_eq_some_iff hfields

/-- Only the keys of the options count. -/
theorem ofFields?_congr (hother : (keys other).Nodup)
    (h : Toml.AgreeOn (Key.all.map Key.name) fields other) :
    ofFields? fields = ofFields? other := by
  have hlookup (key : Key) : fields.lookup key.name = other.lookup key.name :=
    h.lookup_eq hfields hother (List.mem_map_of_mem key.mem_all)
  simp only [ofFields?_eq, hlookup]

end Nodup

/-! ### Arrays -/

/-- The options that an array gives: each is what stands at its place, or the default if the array
ends before it. There is no place after that of the last option. -/
structure ArrayGives (values : List Toml.Value) (o : Options) : Prop where
  length_le : values.length ≤ Key.all.length
  gives : ∀ {i : Nat} {key : Key}, Key.all[i]? = some key →
    (∀ value, values[i]? = some value → key.Accepts value (o.get key)) ∧
      (values.length ≤ i → o.get key = get {} key)

/-- Setting options by place is reading them all, if what is said of each is what stands there. -/
theorem foldlM_set?_zip {ks : List Key} {values : List Toml.Value}
    (hsaid : ∀ {i : Nat} {key : Key}, ks[i]? = some key → said key = values[i]?) :
    (ks.zip values).foldlM (fun o entry => o.set? entry.1 entry.2) o =
      ks.foldlM (update? said) o := by
  induction ks generalizing values o with
  | nil => rfl
  | cons first ks ih =>
    rw [List.foldlM_cons]
    cases values with
    | nil =>
      have hnone : said first = none := hsaid (i := 0) rfl
      have hrest : (ks.zip ([] : List Toml.Value)).foldlM _ o = ks.foldlM (update? said) o :=
        ih fun {i _} hkey => hsaid (i := i + 1) hkey
      rw [List.zip_nil_right] at hrest ⊢
      rw [update?_of_none o hnone]
      exact hrest
    | cons value values =>
      have hsome : said first = some value := hsaid (i := 0) rfl
      rw [update?_of_some o hsome, List.zip_cons_cons, List.foldlM_cons]
      exact congrArg (o.set? first value).bind (funext fun o =>
        ih fun {i _} hkey => hsaid (i := i + 1) hkey)

theorem Key.read?_getElem?_eq_some_iff {values : List Toml.Value} {i : Nat}
    {missing x : key.Field} : key.read? values[i]? missing = some x ↔
      (∀ value, values[i]? = some value → key.Accepts value x) ∧
        (values.length ≤ i → x = missing) := by
  simp only [← List.getElem?_eq_none_iff, ← decode?_eq_some_iff, read?]
  cases values[i]? <;> simp [eq_comm]

theorem ofArray?_eq_some_iff {values : List Toml.Value} :
    ofArray? values = some o ↔ ArrayGives values o := by
  by_cases hlength : values.length ≤ Key.all.length
  · have hplace {i : Nat} {key : Key} (hkey : Key.all[i]? = some key) : Key.all.idxOf key = i := by
      obtain ⟨hlt, rfl⟩ := List.getElem?_eq_some_iff.mp hkey
      exact List.Nodup.idxOf_getElem (by decide) i hlt
    have hread : ofArray? values = readAll? fun key => values[Key.all.idxOf key]? := by
      rw [ofArray?, guard, if_pos hlength]
      exact foldlM_set?_zip fun hkey => congrArg (values[·]?) (hplace hkey)
    rw [hread, readAll?_eq_some_iff]
    refine ⟨fun h => ⟨hlength, fun {i key} hkey => ?_⟩, fun h key => ?_⟩
    · have hkey' := h key
      rw [hplace hkey] at hkey'
      exact Key.read?_getElem?_eq_some_iff.mp hkey'
    · obtain ⟨i, hkey⟩ := List.mem_iff_getElem?.mp key.mem_all
      rw [hplace hkey]
      exact Key.read?_getElem?_eq_some_iff.mpr (h.gives hkey)
  · refine iff_of_false ?_ fun h => hlength h.length_le
    rw [ofArray?, guard, if_neg hlength]
    exact nofun

/-! ### Documents -/

theorem ofDocument?_of_mem (hfields : (keys fields).Nodup) {value : Toml.Value}
    (h : (sectionKey, value) ∈ fields) : ofDocument? fields = ofValue? value := by
  rw [ofDocument?, (Toml.lookup_eq_some_iff hfields).mpr h]

theorem ofDocument?_of_notMem (h : sectionKey ∉ keys fields) :
    ofDocument? fields = ofFields? fields := by
  rw [ofDocument?, Toml.lookup_eq_none_iff.mpr h]

/-- The options that the table of a document gives. -/
inductive DocumentGives (fields : Toml.Fields) (o : Options) : Prop
  | top : sectionKey ∉ keys fields → TableGives fields o → DocumentGives fields o
  | ofTable {inner : Toml.Fields} : (sectionKey, .table inner) ∈ fields → TableGives inner o →
    DocumentGives fields o
  | ofArray {values : List Toml.Value} : (sectionKey, .array values) ∈ fields →
    ArrayGives values o → DocumentGives fields o

theorem ofDocument?_eq_some_iff (hfields : (keys fields).Nodup)
    (hinner : ∀ {inner}, (sectionKey, .table inner) ∈ fields → (keys inner).Nodup) (o : Options) :
    ofDocument? fields = some o ↔ DocumentGives fields o := by
  constructor
  · intro h
    by_cases hmem : sectionKey ∈ keys fields
    · obtain ⟨⟨name, value⟩, hmem, rfl⟩ := List.mem_map.mp hmem
      rw [ofDocument?_of_mem hfields hmem] at h
      cases value with
      | table inner => exact .ofTable hmem (((decodesTable_ofFields? (hinner hmem)).gives o).mp h)
      | array values => exact .ofArray hmem (ofArray?_eq_some_iff.mp h)
      | _ => cases h
    · rw [ofDocument?_of_notMem hmem] at h
      exact .top hmem (((decodesTable_ofFields? hfields).gives o).mp h)
  · rintro (⟨hnone, h⟩ | ⟨hmem, h⟩ | ⟨hmem, h⟩)
    · rw [ofDocument?_of_notMem hnone]
      exact ((decodesTable_ofFields? hfields).gives o).mpr h
    · rw [ofDocument?_of_mem hfields hmem]
      exact ((decodesTable_ofFields? (hinner hmem)).gives o).mpr h
    · rw [ofDocument?_of_mem hfields hmem]
      exact ofArray?_eq_some_iff.mpr h

/-- How the table of a document is read. Where it is compared with other tables, these have no key
twice either, as the tables of documents do not. -/
structure ReadsDocument (fields : Toml.Fields) : Prop where
  /-- If there is a section for the options, nothing else counts. -/
  section_alone : ∀ {value other}, (sectionKey, value) ∈ fields → (keys other).Nodup →
    (sectionKey, value) ∈ other → ofDocument? fields = ofDocument? other
  /-- A section that is a table is read like a document of its own. -/
  section_table : ∀ {inner}, (sectionKey, .table inner) ∈ fields → sectionKey ∉ keys inner →
    ofDocument? fields = ofDocument? inner
  /-- Only the section and the keys of the options count, in whatever order they come. -/
  foreign : ∀ {other}, (keys other).Nodup →
    Toml.AgreeOn (sectionKey :: Key.all.map Key.name) fields other →
      ofDocument? fields = ofDocument? other
  /-- In a section, only the keys of the options count. -/
  section_foreign : ∀ {inner inner' other}, (sectionKey, .table inner) ∈ fields →
    (keys inner').Nodup → Toml.AgreeOn (Key.all.map Key.name) inner inner' →
      (keys other).Nodup → (sectionKey, .table inner') ∈ other →
        ofDocument? fields = ofDocument? other
  /-- Without a section the document is read key by key. -/
  top_decodes : sectionKey ∉ keys fields → DecodesTable fields (ofDocument? fields)
  /-- A section that is a table is read key by key. -/
  section_decodes : ∀ {inner}, (sectionKey, .table inner) ∈ fields →
    DecodesTable inner (ofDocument? fields)
  /-- The section may also be an array, and nothing else gives options. -/
  gives : ∀ o, ofDocument? fields = some o ↔ DocumentGives fields o

theorem readsDocument_of_keyed (h : (Toml.Value.table fields).Keyed) : ReadsDocument fields := by
  cases h with
  | table hfields hvalues =>
    have hinner {inner : Toml.Fields} (hmem : (sectionKey, .table inner) ∈ fields) :
        (keys inner).Nodup := by
      cases hvalues _ hmem with
      | table nodup _ => exact nodup
    refine ⟨?_, ?_, ?_, ?_, ?_, ?_, ofDocument?_eq_some_iff hfields hinner⟩
    · intro value other hmem hother hmem'
      rw [ofDocument?_of_mem hfields hmem, ofDocument?_of_mem hother hmem']
    · intro inner hmem hnone
      rw [ofDocument?_of_mem hfields hmem, ofDocument?_of_notMem hnone, ofValue?]
    · intro other hother hagree
      have hsection := hagree.lookup_eq hfields hother List.mem_cons_self
      have hkeys : Toml.AgreeOn (Key.all.map Key.name) fields other := fun name hname =>
        hagree name (List.mem_cons_of_mem _ hname)
      rw [ofDocument?, ofDocument?, hsection, ofFields?_congr hfields hother hkeys]
    · intro inner inner' other hmem hnodup hagree hother hmem'
      rw [ofDocument?_of_mem hfields hmem, ofDocument?_of_mem hother hmem', ofValue?, ofValue?,
        ofFields?_congr (hinner hmem) hnodup hagree]
    · intro hnone
      rw [ofDocument?_of_notMem hnone]
      exact decodesTable_ofFields? hfields
    · intro inner hmem
      rw [ofDocument?_of_mem hfields hmem, ofValue?]
      exact decodesTable_ofFields? (hinner hmem)

theorem readsDocument_of_document? {s : String} (h : Toml.document? s = some fields) :
    ReadsDocument fields :=
  readsDocument_of_keyed (Toml.keyed_of_document? h)

/-- The options of a document are read from its section or, if there is none, from its top, key by
key and without regard to anything else in the document. -/
theorem document_options {s : String} (h : Toml.document? s = some fields) :
    ofText? s = ofDocument? fields ∧ (Toml.Value.table fields).Keyed ∧ ReadsDocument fields := by
  refine ⟨?_, Toml.keyed_of_document? h, readsDocument_of_document? h⟩
  rw [ofText?, h, Option.bind_some]

/-- A document in which the option at the top is not accepted and does not count. -/
def sectioned : String :=
  "log = 7\n[compile]\nspare = []\naddressing = \"registers\"\n"

theorem sectioned_document_options : ∃ fields, Toml.document? sectioned = some fields ∧
    ofText? sectioned = some { addressing := .registers } ∧ ReadsDocument fields := by
  have hoptions : ofText? sectioned = some { addressing := .registers } := by decide +kernel
  obtain ⟨fields, hdocument, -⟩ := Option.bind_eq_some_iff.mp hoptions
  exact ⟨fields, hdocument, hoptions, (document_options hdocument).2.2⟩

end Options

end Patchbay
