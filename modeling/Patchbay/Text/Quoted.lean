import Patchbay.Text.Hidden

/-!
# Quoted text

`quote` writes a text between double quotes on one line. A quote, a backslash, a line feed, a
carriage return, a tab and the null character have short escapes; every other hidden character is
written `\u{…}` with its code point in lower-case hexadecimal; all else stands for itself.
`unquote?` reads such a form back and refuses anything that is not one: an unescaped quote inside,
an unknown escape, or a number that is no character.
-/

namespace Patchbay.Text

/-- The lower-case hexadecimal digits of a number, without leading zeros. -/
def hexDigits (n : Nat) : List Char :=
  Nat.toDigits 16 n

/-- The value of a hexadecimal digit of either case. -/
def hexValue? (c : Char) : Option Nat :=
  if '0' ≤ c ∧ c ≤ '9' then some (c.toNat - '0'.toNat)
  else if 'a' ≤ c ∧ c ≤ 'f' then some (c.toNat - 'a'.toNat + 10)
  else if 'A' ≤ c ∧ c ≤ 'F' then some (c.toNat - 'A'.toNat + 10)
  else none

/-- The character with a given code point, if there is one. -/
def charOfCode? (code : Nat) : Option Char :=
  if code.isValidChar then some (Char.ofNat code) else none

/-- How one character is written inside quotes, for any set of hidden characters. -/
def quoteCharWith (hidden : Char → Bool) (c : Char) : List Char :=
  match c with
  | '"' => ['\\', '"']
  | '\\' => ['\\', '\\']
  | '\n' => ['\\', 'n']
  | '\r' => ['\\', 'r']
  | '\t' => ['\\', 't']
  | '\x00' => ['\\', '0']
  | c => if hidden c then ['\\', 'u', '\x7b'] ++ hexDigits c.toNat ++ ['\x7d'] else [c]

/-- The quoted form of a text, as characters, for any set of hidden characters. -/
def quoteCharsWith (hidden : Char → Bool) (cs : List Char) : List Char :=
  '"' :: (cs.flatMap (quoteCharWith hidden) ++ ['"'])

/-- The quoted form of a text, as characters. -/
def quoteChars (cs : List Char) : List Char :=
  quoteCharsWith isHidden cs

/-- The quoted form of a text. -/
def quote (s : String) : String :=
  String.ofList (quoteChars s.toList)

/-- Reads the body of a quoted form up to its closing quote, which must come last. While a
`\u{…}` escape is open, `code` holds the number read so far. -/
def unquoteBody : (code : Option Nat) → List Char → Option (List Char)
  | none, ['"'] => some []
  | none, '\\' :: '"' :: rest => (unquoteBody none rest).map ('"' :: ·)
  | none, '\\' :: '\\' :: rest => (unquoteBody none rest).map ('\\' :: ·)
  | none, '\\' :: 'n' :: rest => (unquoteBody none rest).map ('\n' :: ·)
  | none, '\\' :: 'r' :: rest => (unquoteBody none rest).map ('\r' :: ·)
  | none, '\\' :: 't' :: rest => (unquoteBody none rest).map ('\t' :: ·)
  | none, '\\' :: '0' :: rest => (unquoteBody none rest).map ('\x00' :: ·)
  | none, '\\' :: 'u' :: '\x7b' :: rest => unquoteBody (some 0) rest
  | none, c :: rest =>
    if c = '"' ∨ c = '\\' then none else (unquoteBody none rest).map (c :: ·)
  | some code, '\x7d' :: rest => do
    let c ← charOfCode? code
    return c :: (← unquoteBody none rest)
  | some code, c :: rest => do
    let digit ← hexValue? c
    unquoteBody (some (16 * code + digit)) rest
  | _, [] => none

/-- Reads a quoted form back. -/
def unquote? (form : List Char) : Option (List Char) :=
  match form with
  | '"' :: rest => unquoteBody none rest
  | _ => none

end Patchbay.Text
