import Patchbay.Toml.Value

/-!
# Tables under construction

A document builds its tables bit by bit: a header opens a table, a longer header implies the tables
above it, and a key with several parts implies tables too. Which of these a table comes from
decides what may still be added to it. A table with a header of its own is never reopened, and
keys may not reach into it from outside; a table that only longer headers imply may still get a
header, once; a table that keys imply may be added to by keys, but gets no header.
-/

namespace Patchbay.Toml

/-- Where a table comes from. -/
inductive Origin where
  /-- It has a header of its own. -/
  | header
  /-- It is implied by a longer header. -/
  | implied
  /-- It is implied by a key with several parts. -/
  | dotted
  deriving DecidableEq

/-- What a key of a table under construction holds. -/
inductive Item where
  | value (v : Value)
  | table (origin : Origin) (fields : List (String × Item))
  /-- An array of tables, each with a header of its own. -/
  | tables (elements : List (List (String × Item)))

/-- The fields of a table under construction. -/
abbrev Draft := List (String × Item)

namespace Draft

/-- What a key holds. -/
def find? (d : Draft) (key : String) : Option Item :=
  (List.find? (·.1 = key) d).map (·.2)

/-- Replaces what a key holds, in its place. -/
def replace (d : Draft) (key : String) (item : Item) : Draft :=
  d.map fun field => if field.1 = key then (key, item) else field

/-- Adds a key at the end. -/
def append (d : Draft) (key : String) (item : Item) : Draft :=
  d ++ [(key, item)]

/-- Removes a key. -/
def erase (d : Draft) (key : String) : Draft :=
  d.filter (·.1 ≠ key)

/-- Changes the table that the leading parts of a header name, making it if need be. In an array of
tables, the last one is meant. -/
def below (change : Draft → Option Draft) : List String → Draft → Option Draft
  | [], d => change d
  | key :: path, d =>
    match d.find? key with
    | none => do return d.append key (.table .implied (← below change path []))
    | some (.table origin fields) => do
      return d.replace key (.table origin (← below change path fields))
    | some (.tables elements) =>
      match elements.getLast? with
      | none => none
      | some last => do
        return d.replace key (.tables (elements.dropLast ++ [← below change path last]))
    | some (.value _) => none

/-- Adds a value under a key, which must be new. The parts before the last one name tables implied
by keys. -/
def insert (value : Value) : List String → Draft → Option Draft
  | [], _ => none
  | [key], d => if (d.find? key).isSome then none else some (d.append key (.value value))
  | key :: path, d =>
    match d.find? key with
    | none => do return d.append key (.table .dotted (← insert value path []))
    | some (.table origin fields) => do
      guard (origin = .dotted ∨ (origin = .implied ∧ 1 < path.length))
      return d.replace key (.table origin (← insert value path fields))
    | some (.tables elements) => do
      guard (1 < path.length)
      match elements.getLast? with
      | none => none
      | some last =>
        return d.replace key (.tables (elements.dropLast ++ [← insert value path last]))
    | some (.value _) => none

end Draft

mutual

/-- The value of a finished item. -/
def Item.toValue : Item → Value
  | .value v => v
  | .table _ fields => .table (draftFields fields)
  | .tables elements => .array (draftTables elements)

/-- The fields of a finished table. -/
def draftFields : List (String × Item) → List (String × Value)
  | [] => []
  | (key, item) :: rest => (key, item.toValue) :: draftFields rest

/-- The tables of a finished array. -/
def draftTables : List (List (String × Item)) → List Value
  | [] => []
  | fields :: rest => .table (draftFields fields) :: draftTables rest

end

end Patchbay.Toml
