import Patchbay.Text.Quoted
import Patchbay.Toml.Reader

/-!
# Strings and keys

A basic string stands between double quotes and has escapes; a literal string stands between
single quotes and has none. Tripled quotes enclose a string of several lines: a line end right
after the opening quotes is dropped, every other line end counts as a line feed, and up to two
quotes may stand right before the closing ones. In a basic string of several lines, a backslash at
the end of a line joins the line to the next text.
-/

namespace Patchbay.Toml

/-- The characters that a literal string may hold. A single quote is not one, nor are the controls
other than a tab. -/
def isLiteralChar (c : Char) : Bool :=
  c ≠ '\'' && isCommentChar c

/-- The characters that stand for themselves in a basic string. -/
def isBasicChar (c : Char) : Bool :=
  c ≠ '"' && c ≠ '\\' && isCommentChar c

/-- The character that a run of `count` hexadecimal digits stands for. -/
def charOfHex? (count : Nat) (digits : List Char) : Option Char := do
  guard (digits.length = count)
  let values ← digits.mapM Text.hexValue?
  Text.charOfCode? (values.foldl (fun n digit => 16 * n + digit) 0)

/-- Puts a character before the text that a reader found. -/
def prepend (c : Char) (read : Option (List Char × List Char)) : Option (List Char × List Char) :=
  read.map fun (text, rest) => (c :: text, rest)

/-- Reads what follows the backslash of an escape. -/
def readEscape : Reader Char
  | 'b' :: rest => some ('\x08', rest)
  | 't' :: rest => some ('\t', rest)
  | 'n' :: rest => some ('\n', rest)
  | 'f' :: rest => some ('\x0c', rest)
  | 'r' :: rest => some ('\r', rest)
  | '"' :: rest => some ('"', rest)
  | '\\' :: rest => some ('\\', rest)
  | 'u' :: rest => (charOfHex? 4 (rest.take 4)).map (·, rest.drop 4)
  | 'U' :: rest => (charOfHex? 8 (rest.take 8)).map (·, rest.drop 8)
  | _ => none

theorem length_readEscape {cs rest : List Char} {c : Char} (h : readEscape cs = some (c, rest)) :
    rest.length < cs.length := by
  unfold readEscape at h
  split at h <;>
    simp only [Option.map_eq_some_iff, Option.some.injEq, Prod.mk.injEq, reduceCtorEq] at h
  case h_8 | h_9 =>
    obtain ⟨_, _, _, rfl⟩ := h
    simp only [List.length_drop, List.length_cons]
    omega
  all_goals
    obtain ⟨_, rfl⟩ := h
    simp

/-- Reads the rest of a basic string after its opening quote. -/
def basicBody (cs : List Char) : Option (List Char × List Char) :=
  match cs with
  | [] => none
  | '"' :: rest => some ([], rest)
  | '\\' :: rest =>
    match h : readEscape rest with
    | some (c, next) =>
      have := length_readEscape h
      prepend c (basicBody next)
    | none => none
  | c :: rest => if isBasicChar c then prepend c (basicBody rest) else none
termination_by cs.length

/-- What follows a line end, and the blanks and line ends after it, if only blanks stand before
it. -/
def joinedLine? (cs : List Char) : Option (List Char) :=
  (newline? (dropSpaces cs)).map dropBlankLines

theorem length_newline? {cs rest : List Char} (h : newline? cs = some rest) :
    rest.length < cs.length := by
  unfold newline? at h
  split at h
  · obtain rfl := Option.some.inj h
    simp
  · obtain rfl := Option.some.inj h
    simp only [List.length_cons]
    omega
  · simp at h

theorem length_dropBlankLines (cs : List Char) : (dropBlankLines cs).length ≤ cs.length := by
  fun_induction dropBlankLines cs with
  | case1 | case2 | case3 | case4 =>
    simp only [List.length_cons]
    omega
  | case5 => exact Nat.le_refl _

theorem length_joinedLine? {cs rest : List Char} (h : joinedLine? cs = some rest) :
    rest.length < cs.length := by
  unfold joinedLine? at h
  obtain ⟨after, hnewline, rfl⟩ := Option.map_eq_some_iff.1 h
  have hspaces : (dropSpaces cs).length ≤ cs.length := (List.dropWhile_sublist isSpace).length_le
  have := length_newline? hnewline
  have := length_dropBlankLines after
  omega

/-- Reads the rest of a basic string of several lines after its opening quotes. -/
def multilineBasicBody (cs : List Char) : Option (List Char × List Char) :=
  match cs with
  | [] => none
  | '"' :: '"' :: '"' :: '"' :: '"' :: rest => some (['"', '"'], rest)
  | '"' :: '"' :: '"' :: '"' :: rest => some (['"'], rest)
  | '"' :: '"' :: '"' :: rest => some ([], rest)
  | '"' :: rest => prepend '"' (multilineBasicBody rest)
  | '\n' :: rest => prepend '\n' (multilineBasicBody rest)
  | '\r' :: '\n' :: rest => prepend '\n' (multilineBasicBody rest)
  | '\\' :: rest =>
    match h : joinedLine? rest with
    | some next =>
      have := length_joinedLine? h
      multilineBasicBody next
    | none =>
      match h : readEscape rest with
      | some (c, next) =>
        have := length_readEscape h
        prepend c (multilineBasicBody next)
      | none => none
  | c :: rest => if isBasicChar c then prepend c (multilineBasicBody rest) else none
termination_by cs.length

/-- Reads the rest of a literal string after its opening quote. -/
def literalBody : Reader (List Char) := fun cs =>
  match cs.dropWhile isLiteralChar with
  | '\'' :: rest => some (cs.takeWhile isLiteralChar, rest)
  | _ => none

/-- Reads the rest of a literal string of several lines after its opening quotes. -/
def multilineLiteralBody : Reader (List Char)
  | [] => none
  | '\'' :: '\'' :: '\'' :: '\'' :: '\'' :: rest => some (['\'', '\''], rest)
  | '\'' :: '\'' :: '\'' :: '\'' :: rest => some (['\''], rest)
  | '\'' :: '\'' :: '\'' :: rest => some ([], rest)
  | '\'' :: rest => prepend '\'' (multilineLiteralBody rest)
  | '\n' :: rest => prepend '\n' (multilineLiteralBody rest)
  | '\r' :: '\n' :: rest => prepend '\n' (multilineLiteralBody rest)
  | c :: rest => if isLiteralChar c then prepend c (multilineLiteralBody rest) else none

/-- Turns a reader of characters into one of texts. -/
def asText (read : Option (List Char × List Char)) : Option (String × List Char) :=
  read.map fun (text, rest) => (String.ofList text, rest)

/-- Reads a string of any of the four sorts. -/
def readString : Reader String
  | '"' :: '"' :: '"' :: rest => asText (multilineBasicBody (dropNewline rest))
  | '"' :: rest => asText (basicBody rest)
  | '\'' :: '\'' :: '\'' :: rest => asText (multilineLiteralBody (dropNewline rest))
  | '\'' :: rest => asText (literalBody rest)
  | _ => none

/-! ### Keys -/

/-- The characters of a key without quotes. -/
def isBareKeyChar (c : Char) : Bool :=
  c.isAlphanum || c = '-' || c = '_'

/-- Reads one part of a key. -/
def readSimpleKey : Reader String
  | '"' :: rest => asText (basicBody rest)
  | '\'' :: rest => asText (literalBody rest)
  | cs =>
    let key := cs.takeWhile isBareKeyChar
    if key.isEmpty then none else some (String.ofList key, cs.dropWhile isBareKeyChar)

/-- The number of parts that a key may have is less than this. -/
def keyDepthLimit : Nat := 80

/-- Reads at most `limit` parts of a key with points between them, and blanks around each. -/
def readKeyParts : (limit : Nat) → Reader (List String)
  | 0, _ => none
  | limit + 1, cs => do
    let (key, rest) ← readSimpleKey (dropSpaces cs)
    match dropSpaces rest with
    | '.' :: rest =>
      let (keys, rest) ← readKeyParts limit rest
      return (key :: keys, rest)
    | rest => return ([key], rest)

/-- Reads a key. -/
def readKey : Reader (List String) :=
  readKeyParts (keyDepthLimit - 1)

end Patchbay.Toml
