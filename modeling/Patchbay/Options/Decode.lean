import Patchbay.Options.Basic
import Patchbay.Toml.Document

/-!
# Reading options

Options are read from a table with a key for each of them; keys that are missing leave the
default, and other keys are ignored. An array gives the options by place instead. In a document,
the options stand under the key `compile`, or at the top if there is no such key.
-/

namespace Patchbay

/-- The keys of the options, in the order in which an array gives them. -/
inductive Options.Key where
  | log
  | addressing
  | fallbackKind
  | constantKind
  | stem
  deriving DecidableEq

namespace Options

namespace Key

/-- The keys in order. -/
def all : List Key :=
  [log, addressing, fallbackKind, constantKind, stem]

/-- How a key is written. -/
def name : Key → String
  | log => "log"
  | addressing => "addressing"
  | fallbackKind => "fallback_type"
  | constantKind => "const_type"
  | stem => "identifier_prefix"

end Key

/-- A truth value. -/
def boolean? : Toml.Value → Option Bool
  | .boolean b => some b
  | _ => none

/-- A text; a date or time counts as its text. -/
def text? : Toml.Value → Option String
  | .string s => some s
  | .dateTime d => some d.text
  | _ => none

/-- A convention for slots: its name, or a table with the name as its only key and nothing in
it. -/
def addressing? : Toml.Value → Option Addressing
  | .string s => Addressing.ofTag? s
  | .table [(name, .table [])] => Addressing.ofTag? name
  | .table [(name, .array [])] => Addressing.ofTag? name
  | _ => none

/-- Sets one option to a value from a document. -/
def set? (o : Options) (key : Key) (value : Toml.Value) : Option Options :=
  match key with
  | .log => (boolean? value).map ({ o with log := · })
  | .addressing => (addressing? value).map ({ o with addressing := · })
  | .fallbackKind => (text? value).map ({ o with fallbackKind := · })
  | .constantKind => (text? value).map ({ o with constantKind := · })
  | .stem => (text? value).map ({ o with stem := · })

/-- Sets the options that a table has keys for. -/
def ofFields? (fields : Toml.Fields) : Option Options :=
  Key.all.foldlM
    (fun o key => match fields.lookup key.name with
      | some value => o.set? key value
      | none => some o)
    {}

/-- Sets the options by place. -/
def ofArray? (values : List Toml.Value) : Option Options := do
  guard (values.length ≤ Key.all.length)
  (Key.all.zip values).foldlM (fun o (key, value) => o.set? key value) {}

/-- Options from the value of a key. -/
def ofValue? : Toml.Value → Option Options
  | .table fields => ofFields? fields
  | .array values => ofArray? values
  | _ => none

/-- The key under which a document may keep the options apart. -/
def sectionKey : String := "compile"

/-- Options from the table of a document. -/
def ofDocument? (fields : Toml.Fields) : Option Options :=
  match fields.lookup sectionKey with
  | some value => ofValue? value
  | none => ofFields? fields

/-- Options from the text of a document. -/
def ofText? (s : String) : Option Options :=
  (Toml.document? s).bind ofDocument?

end Options

end Patchbay
