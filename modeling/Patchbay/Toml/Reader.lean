/-!
# Reading from the front of a text

A reader takes what it recognises off the front of a list of characters. All the grammar of the
format is written with readers; a text that is not in the format gives `none`, without a reason.
-/

namespace Patchbay.Toml

/-- Reads a value off the front of a text. -/
abbrev Reader (α : Type) := List Char → Option (α × List Char)

/-- Blanks within a line. -/
def isSpace (c : Char) : Bool :=
  c = ' ' || c = '\t'

/-- Drops blanks within a line. -/
def dropSpaces (cs : List Char) : List Char :=
  cs.dropWhile isSpace

/-- Drops one line end. -/
def newline? : List Char → Option (List Char)
  | '\n' :: rest => some rest
  | '\r' :: '\n' :: rest => some rest
  | _ => none

/-- Drops a line end if there is one. -/
def dropNewline (cs : List Char) : List Char :=
  (newline? cs).getD cs

/-- Drops blanks and line ends. -/
def dropBlankLines : List Char → List Char
  | ' ' :: rest => dropBlankLines rest
  | '\t' :: rest => dropBlankLines rest
  | '\n' :: rest => dropBlankLines rest
  | '\r' :: '\n' :: rest => dropBlankLines rest
  | cs => cs

/-- The characters that a comment may hold: all but the controls, of which a tab is allowed. -/
def isCommentChar (c : Char) : Bool :=
  c = '\t' || (' ' ≤ c && c ≠ '\x7f')

/-- Drops what may stand between two values of an array: blanks, line ends and comments, each of
which ends with its line. -/
def dropFiller (inComment : Bool) : List Char → Option (List Char)
  | [] => if inComment then none else some []
  | '\n' :: rest => dropFiller false rest
  | '\r' :: '\n' :: rest => dropFiller false rest
  | c :: rest =>
    if inComment then if isCommentChar c then dropFiller true rest else none
    else if isSpace c then dropFiller false rest
    else if c = '#' then dropFiller true rest
    else some (c :: rest)

/-- Drops what may stand after a value on its line, with the line end or up to the end of the
text. -/
def lineRest? (cs : List Char) : Option (List Char) :=
  let afterComment := match dropSpaces cs with
    | '#' :: rest => rest.dropWhile isCommentChar
    | rest => rest
  match afterComment with
  | [] => some []
  | rest => newline? rest

/-- Takes a run of digits in which single underscores may stand between digits. -/
def digitRun (isDigit : Char → Bool) : List Char → List Char × List Char
  | [] => ([], [])
  | [c] => if isDigit c then ([c], []) else ([], [c])
  | c :: next :: rest =>
    if isDigit c then
      let (digits, after) := digitRun isDigit (next :: rest)
      (c :: digits, after)
    else if c = '_' ∧ isDigit next then digitRun isDigit (next :: rest)
    else ([], c :: next :: rest)

/-- Takes a run of digits that begins with a digit. -/
def digits1 (isDigit : Char → Bool) : Reader (List Char)
  | c :: rest => if isDigit c then some (digitRun isDigit (c :: rest)) else none
  | [] => none

/-- The value of a digit in any base up to sixteen. -/
def digitValue (c : Char) : Nat :=
  if c.isDigit then c.toNat - '0'.toNat
  else if 'a' ≤ c then c.toNat - 'a'.toNat + 10
  else c.toNat - 'A'.toNat + 10

/-- The value of a run of digits in some base. -/
def digitsValue (base : Nat) (digits : List Char) : Nat :=
  digits.foldl (fun n c => base * n + digitValue c) 0

/-- Takes exactly `n` decimal digits, as a number. -/
def fixedDigits (n : Nat) : Reader Nat := fun cs =>
  let digits := cs.take n
  if digits.length = n ∧ digits.all Char.isDigit then some (digitsValue 10 digits, cs.drop n)
  else none

/-- Takes one given character. -/
def expect (c : Char) (cs : List Char) : Option (List Char) :=
  match cs with
  | first :: rest => if first = c then some rest else none
  | [] => none

end Patchbay.Toml
