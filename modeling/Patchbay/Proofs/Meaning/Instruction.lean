import Mathlib.Data.List.Basic
import Patchbay.Compile.Basic
import Patchbay.Proofs.Text.Quoted

/-!
# Instructions

An *instruction* is what a host makes of one line of a program: where the result goes, what is done,
and the texts of the operands. `Instruction.read?` reads an instruction off its line. The reader
knows the shapes that lines come in, and nothing of the nodes that they were written for.

Operands stand side by side with signs, commas and brackets, and the text of a literal may hold any
of these, so the reader minds the quotes: a quoted form reaches up to the quote that closes it, and
anything else up to the next delimiter.

A *command* is a statement on the way to its line, with its operands written out. What a command
should be read as is `Command.instruction?`, where what stands in for a missing operand is filled
in; that it is indeed read so is `Command.read?_text`.
-/

namespace Patchbay

open Text

/-- What a host does at one line of a program. Operands are texts. -/
inductive Instruction where
  /-- Advances a unit with some arguments and stores what it gives. -/
  | update (target : String) (unit : Nat) (arguments : List String)
  /-- Writes a value to a cell and stores what this gives. -/
  | write (target : String) (cell : Nat) (value : String)
  /-- Stores what a sign makes of two operands. -/
  | arithmetic (target : String) (sign : Char) (left right : String)
  /-- Stores a value. -/
  | copy (target value : String)
  /-- Returns the sums of two channels, at the output level. -/
  | mix (left right : List String)
  deriving DecidableEq

namespace Instruction

/-! ### Operands -/

/-- What a word ends at. -/
def isDelimiter (c : Char) : Bool :=
  [' ', ',', ';', '(', ')', '*', '"', '\n'].contains c

/-- An operand at the beginning of a text, and what follows: a quoted form with its quotes, or else
a word. -/
def token? : List Char → Option (String × List Char)
  | '"' :: cs =>
    (afterQuote? cs).map fun rest =>
      (String.ofList ('"' :: cs.take (cs.length - rest.length)), rest)
  | cs =>
    match cs.takeWhile (!isDelimiter ·) with
    | [] => none
    | word => some (String.ofList word, cs.dropWhile (!isDelimiter ·))

/-- A token is not empty. -/
theorem length_lt_of_token? {cs rest : List Char} {s : String} (h : token? cs = some (s, rest)) :
    rest.length < cs.length := by
  unfold token? at h
  split at h
  · next cs =>
    obtain ⟨after, hafter, heq⟩ := Option.map_eq_some_iff.mp h
    rw [← (Prod.mk.inj heq).2, List.length_cons]
    exact Nat.lt_succ_of_le (length_le_of_afterQuote? hafter)
  · split at h
    · cases h
    · next word hword =>
      rw [← (Prod.mk.inj (Option.some.inj h)).2]
      have hlength := congrArg List.length (cs.takeWhile_append_dropWhile (p := (!isDelimiter ·)))
      have hpos : 0 < (cs.takeWhile (!isDelimiter ·)).length := List.length_pos_iff.mpr hword
      rw [List.length_append] at hlength
      omega

theorem length_lt_of_dropPrefix? {cs rest rest' separator : List Char} {s : String}
    (h : token? cs = some (s, rest)) (h' : rest.dropPrefix? separator = some rest') :
    rest'.length < cs.length := by
  obtain ⟨front, rfl, -⟩ := List.dropPrefix?_eq_some_iff.mp h'
  have hlt := length_lt_of_token? h
  rw [List.length_append] at hlt
  omega

/-- One or more operands with a separator between them, and what follows. -/
def tokens? (separator cs : List Char) : Option (List String × List Char) :=
  match h : token? cs with
  | none => none
  | some (first, rest) =>
    match h' : rest.dropPrefix? separator with
    | none => some ([first], rest)
    | some rest' =>
      have := length_lt_of_dropPrefix? h h'
      (tokens? separator rest').map fun (others, rest) => (first :: others, rest)
termination_by cs.length

theorem tokens?_of_last {separator cs rest : List Char} {s : String}
    (h : token? cs = some (s, rest)) (hend : rest.dropPrefix? separator = none) :
    tokens? separator cs = some ([s], rest) := by
  rw [tokens?]
  split
  · next hnone => rw [h] at hnone; cases hnone
  · next hsome =>
    obtain ⟨rfl, rfl⟩ := Prod.mk.inj (Option.some.inj (h.symm.trans hsome))
    split
    · rfl
    · next hdrop => rw [hend] at hdrop; cases hdrop

theorem tokens?_of_separator {separator cs rest rest' : List Char} {s : String}
    (h : token? cs = some (s, rest)) (hdrop : rest.dropPrefix? separator = some rest') :
    tokens? separator cs =
      (tokens? separator rest').map fun others => (s :: others.1, others.2) := by
  rw [tokens?]
  split
  · next hnone => rw [h] at hnone; cases hnone
  · next hsome =>
    obtain ⟨rfl, rfl⟩ := Prod.mk.inj (Option.some.inj (h.symm.trans hsome))
    split
    · next hnone => rw [hdrop] at hnone; cases hnone
    · next hdrop' =>
      obtain rfl := Option.some.inj (hdrop.symm.trans hdrop')
      rfl

/-- The arguments of a call, behind its opening bracket. -/
def arguments? : List Char → Option (List String × List Char)
  | ')' :: rest => some ([], rest)
  | cs => do
    let (arguments, rest) ← tokens? ",".toList cs
    return (arguments, ← rest.dropPrefix? ")".toList)

/-- The operands of a sum: one alone stands as it is, several are bracketed. -/
def channels? : List Char → Option (List String × List Char)
  | '(' :: cs => do
    let (channels, rest) ← tokens? " + ".toList cs
    return (channels, ← rest.dropPrefix? ")".toList)
  | cs => do
    let (channel, rest) ← token? cs
    return ([channel], rest)

/-! ### Lines -/

/-- The unit and the method of `nodes[…].…`. -/
def callee? (callee : String) : Option (Nat × String) := do
  let cs ← callee.toList.dropPrefix? "nodes[".toList
  let digits := cs.takeWhile Char.isDigit
  let method ← (cs.dropWhile Char.isDigit).dropPrefix? "].".toList
  if digits = [] then none else some (Nat.ofDigitChars 10 digits 0, String.ofList method)

/-- The call of a method of a unit. A unit can be advanced, and written to. -/
def call? (target callee : String) (arguments : List String) : Option Instruction := do
  let (unit, method) ← callee? callee
  match method, arguments with
  | "update", arguments => some (update target unit arguments)
  | "write", [value] => some (write target unit value)
  | _, _ => none

/-- Whether a text is a comment, set off by a space. -/
def isRemark (cs : List Char) : Bool :=
  " /* ".toList.isPrefixOf cs && " */".toList.isSuffixOf cs

/-- What is stored in a slot: the result of a call, with a comment behind it, a copy, or what a sign
makes of two operands. -/
def stored? (target : String) (cs : List Char) : Option Instruction := do
  let (first, rest) ← token? cs
  match rest with
  | '(' :: rest => do
    let (arguments, rest) ← arguments? rest
    let remark ← rest.dropPrefix? ";".toList
    if isRemark remark then call? target first arguments else none
  | [';'] => some (copy target first)
  | ' ' :: sign :: ' ' :: rest => do
    let (second, rest) ← token? rest
    if ['+', '-', '*', '/'].contains sign ∧ rest = [';'] then
      some (arithmetic target sign first second)
    else none
  | _ => none

/-- What stands behind the word that declares a slot. Registers are not declared. -/
def declared? : Addressing → List Char → Option (List Char)
  | .identifiers, cs => cs.dropPrefix? "const ".toList
  | .registers, cs => some cs

/-- A line that stores something in a slot. -/
def assignment? (a : Addressing) (cs : List Char) : Option Instruction := do
  let (target, rest) ← token? (← declared? a cs)
  stored? target (← rest.dropPrefix? " = ".toList)

/-- The line that returns the mix. -/
def mix? (cs : List Char) : Option Instruction := do
  let (left, rest) ← channels? (← cs.dropPrefix? "return [(".toList)
  let (right, rest) ← channels? (← rest.dropPrefix? "*lvl),(".toList)
  if rest = "*lvl)]".toList then some (mix left right) else none

/-- The instruction on a line, under a convention for slots. -/
def read? (a : Addressing) (line : String) : Option Instruction :=
  (assignment? a line.toList).or (mix? line.toList)

end Instruction

/-! ### Commands -/

/-- The sign of an operator. -/
def Operator.sign : Operator → Char
  | add => '+'
  | sub => '-'
  | mul => '*'
  | div => '/'

/-- A statement with its operands as texts, and the site where it is written. -/
structure Command where
  site : Statement.Site
  statement : Statement String

namespace Command

/-- The line of a command. -/
def text (c : Command) : String :=
  c.statement.text c.site

/-- What a command is for a host. Any other text is none of its business. -/
def instruction? (c : Command) : Option Instruction :=
  match c.statement with
  | .update k arguments => some (.update c.site.slot k arguments)
  | .write k value => some (.write c.site.slot k (value.getD "0"))
  | .arithmetic operator left right =>
    some (.arithmetic c.site.slot operator.sign (left.getD operator.identity)
      (right.getD operator.identity))
  | .copy value => some (.copy c.site.slot (value.getD "0"))
  | .mix outputs => some (.mix (outputs.map (·.leftText)) (outputs.map (·.rightText)))
  | .verbatim _ => none

end Command

namespace Entry

/-- The command of a node, if it has a statement. -/
def command? (e : Entry) (naming : Naming) : Option Command :=
  e.statement.map fun statement =>
    ⟨⟨naming.addressing, naming.slot e.position, e.kind⟩, statement.map naming.write⟩

theorem line?_eq (e : Entry) (naming : Naming) :
    e.line? naming = (e.command? naming).map Command.text := by
  cases hstatement : e.statement <;> simp [line?, command?, Command.text, hstatement]

/-- The instruction of a node, if it has a statement. -/
def instruction? (e : Entry) (naming : Naming) : Option Instruction :=
  (e.command? naming).bind Command.instruction?

end Entry

/-- The commands of a program, in order. -/
def commands (registry : Registry) (options : Options) (g : Graph) (root : NodeId) :
    List Command :=
  let layout := Layout.ofGraph g root options.constantKind
  (layout.assemble registry options).entries.filterMap (·.command? (layout.naming options))

end Patchbay
