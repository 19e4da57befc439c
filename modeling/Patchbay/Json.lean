import Patchbay.Text.Quoted

/-!
# JSON text

Just enough of JSON to write a compiled patch, laid out with one value a line and two blanks for
each level. Empty arrays and objects stay on one line.
-/

namespace Patchbay

/-- A JSON value. -/
inductive Json where
  | string (text : String)
  | natural (n : Nat)
  | array (values : List Json)
  | object (fields : List (String × Json))

namespace Json

/-- How one character is written inside quotes. Only quotes, backslashes and controls are
escaped. -/
def quoteChar (c : Char) : List Char :=
  match c with
  | '"' => ['\\', '"']
  | '\\' => ['\\', '\\']
  | '\x08' => ['\\', 'b']
  | '\x0c' => ['\\', 'f']
  | '\n' => ['\\', 'n']
  | '\r' => ['\\', 'r']
  | '\t' => ['\\', 't']
  | c =>
    if c < ' ' then
      let digits := Text.hexDigits c.toNat
      ['\\', 'u'] ++ List.replicate (4 - digits.length) '0' ++ digits
    else [c]

/-- A text in quotes. -/
def quote (s : String) : String :=
  "\"" ++ String.ofList (s.toList.flatMap quoteChar) ++ "\""

/-- The blanks before a line at some level. -/
def indentation (level : Nat) : String :=
  String.ofList (List.replicate (2 * level) ' ')

/-- Some lines between brackets, each of them one level in. -/
def block (level : Nat) (opening closing : String) (items : List String) : String :=
  if items.isEmpty then opening ++ closing
  else
    opening ++ "\n" ++ String.intercalate ",\n" (items.map (indentation (level + 1) ++ ·)) ++ "\n"
      ++ indentation level ++ closing

mutual

/-- The text of a value that begins on a line at some level. -/
def pretty (level : Nat) : Json → String
  | .string s => quote s
  | .natural n => toString n
  | .array values => block level "[" "]" (prettyAll (level + 1) values)
  | .object fields => block level "\x7b" "\x7d" (prettyFields (level + 1) fields)

/-- The texts of the values of an array. -/
def prettyAll (level : Nat) : List Json → List String
  | [] => []
  | value :: rest => pretty level value :: prettyAll level rest

/-- The texts of the fields of an object. -/
def prettyFields (level : Nat) : List (String × Json) → List String
  | [] => []
  | (key, value) :: rest => (quote key ++ ": " ++ pretty level value) :: prettyFields level rest

end

end Json

end Patchbay
