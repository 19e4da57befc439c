import Patchbay.Toml.Scalar
import Patchbay.Toml.Table

/-!
# Documents

A document is a sequence of keys with values, headers of tables, comments and blank lines. Arrays
and inline tables may be nested `nestingLimit` deep.
-/

namespace Patchbay.Toml

/-- How deep values may be nested. -/
def nestingLimit : Nat := 79

/-- Reads the rest of an array after its opening bracket. At most `fuel` values are read; the
length of the text is always enough. -/
def readElements (readValue : Reader Value) : (fuel : Nat) → Reader (List Value)
  | 0, _ => none
  | fuel + 1, cs => do
    match ← dropFiller false cs with
    | ']' :: rest => return ([], rest)
    | cs =>
      let (value, cs) ← readValue cs
      match ← dropFiller false cs with
      | ',' :: cs =>
        let (values, rest) ← readElements readValue fuel cs
        return (value :: values, rest)
      | ']' :: rest => return ([value], rest)
      | _ => none

/-- Reads a key and its value, up to the end of the value. -/
def readPair (readValue : Reader Value) : Reader (List String × Value) := fun cs => do
  let (key, cs) ← readKey cs
  let cs ← expect '=' cs
  let (value, rest) ← readValue (dropSpaces cs)
  return ((key, value), rest)

/-- Reads the rest of an inline table that has at least one more key. At most `fuel` keys are
read. -/
def readPairs (readValue : Reader Value) : (fuel : Nat) → Draft → Reader Draft
  | 0, _, _ => none
  | fuel + 1, d, cs => do
    let ((key, value), cs) ← readPair readValue cs
    let d ← d.insert value key
    match dropSpaces cs with
    | ',' :: cs => readPairs readValue fuel d cs
    | '\x7d' :: rest => return (d, rest)
    | _ => none

/-- Reads the rest of an inline table after its opening brace. -/
def readInlineTable (readValue : Reader Value) : Reader Value := fun cs =>
  match dropSpaces cs with
  | '\x7d' :: rest => some (.table [], rest)
  | _ => do
    let (d, rest) ← readPairs readValue (cs.length + 1) [] cs
    return (.table (draftFields d), rest)

/-- Reads a value with at most `depth` levels of arrays and inline tables. -/
def readValue : (depth : Nat) → Reader Value
  | 0, '[' :: _ => none
  | 0, '\x7b' :: _ => none
  | depth + 1, '[' :: cs => do
    let (values, rest) ← readElements (readValue depth) (cs.length + 1) cs
    return (.array values, rest)
  | depth + 1, '\x7b' :: cs => readInlineTable (readValue depth) cs
  | _, cs => readScalar cs

/-- Which table the keys of a document go to. -/
inductive Place where
  /-- The table of the whole document. -/
  | top
  /-- The table with a header, whose last part is kept apart. -/
  | table (path : List String) (key : String)
  /-- A new element of an array of tables. -/
  | element (path : List String) (key : String)

/-- A document as far as it has been read: the finished tables, and the one that keys go to. -/
structure Draft.State where
  finished : Draft := []
  current : Draft := []
  place : Place := .top

namespace Draft.State

/-- Puts the current table in its place. -/
def finish (s : State) : Option Draft :=
  match s.place with
  | .top => some s.current
  | .table path key =>
    s.finished.below (fun parent => some (parent.append key (.table .header s.current))) path
  | .element path key =>
    s.finished.below
      (fun parent => match parent.find? key with
        | some (.tables elements) =>
          some (parent.replace key (.tables (elements ++ [s.current])))
        | _ => none)
      path

/-- Adds a key to the current table. -/
def insert (s : State) (key : List String) (value : Value) : Option State := do
  return { s with current := ← s.current.insert value key }

/-- The contents that a table has before its header: what longer headers put there. -/
def implied? (parent : Draft) (key : String) : Option Draft :=
  match parent.find? key with
  | none => some []
  | some (.table .implied fields) => some fields
  | _ => none

/-- The table that the leading parts of a header name. -/
def lookup? (d : Draft) : List String → Option Draft
  | [] => some d
  | key :: path =>
    match d.find? key with
    | none => lookup? [] path
    | some (.table _ fields) => lookup? fields path
    | some (.tables elements) => elements.getLast?.bind (lookup? · path)
    | some (.value _) => none

/-- Opens a table. -/
def openTable (s : State) (path : List String) (key : String) : Option State := do
  let finished ← s.finish
  let contents ← implied? (← lookup? finished path) key
  let finished ← finished.below (fun parent => some (parent.erase key)) path
  return ⟨finished, contents, .table path key⟩

/-- Opens a new element of an array of tables. -/
def openElement (s : State) (path : List String) (key : String) : Option State := do
  let finished ← s.finish
  let finished ← finished.below
    (fun parent => match parent.find? key with
      | none => some (parent.append key (.tables []))
      | some (.tables _) => some parent
      | _ => none)
    path
  return ⟨finished, [], .element path key⟩

end Draft.State

/-- The leading parts of a key, and its last part. -/
def splitKey? (key : List String) : Option (List String × String) :=
  key.getLast?.map (key.dropLast, ·)

/-- Reads a header after its first bracket. -/
def readHeader (s : Draft.State) : Reader Draft.State
  | '[' :: cs => do
    let (key, cs) ← readKey cs
    let cs ← expect ']' cs
    let cs ← expect ']' cs
    let rest ← lineRest? cs
    let (path, key) ← splitKey? key
    return (← s.openElement path key, rest)
  | cs => do
    let (key, cs) ← readKey cs
    let cs ← expect ']' cs
    let rest ← lineRest? cs
    let (path, key) ← splitKey? key
    return (← s.openTable path key, rest)

/-- Reads a key and its value, up to the end of the line. -/
def readAssignment (s : Draft.State) : Reader Draft.State := fun cs => do
  let ((key, value), cs) ← readPair (readValue nestingLimit) cs
  let rest ← lineRest? cs
  return (← s.insert key value, rest)

/-- Reads the rest of a document, line by line. At most `fuel` lines are read; the length of the
text is always enough. -/
def readLines : (fuel : Nat) → Draft.State → List Char → Option Draft.State
  | 0, _, _ => none
  | fuel + 1, s, cs =>
    match dropSpaces cs with
    | [] => some s
    | '#' :: cs => do readLines fuel s (← lineRest? ('#' :: cs))
    | '[' :: cs => do
      let (s, rest) ← readHeader s cs
      readLines fuel s rest
    | '\n' :: rest => readLines fuel s rest
    | '\r' :: rest => do readLines fuel s (← newline? ('\r' :: rest))
    | cs => do
      let (s, rest) ← readAssignment s cs
      readLines fuel s rest

/-- Drops a byte order mark at the very beginning. -/
def dropMark : List Char → List Char
  | '\ufeff' :: rest => rest
  | cs => cs

/-- The table of a whole document, or `none` if the text is not a document. -/
def document? (s : String) : Option Fields := do
  let cs := dropMark s.toList
  let state ← readLines (cs.length + 1) {} cs
  Value.settleFields (draftFields (← state.finish))

end Patchbay.Toml
