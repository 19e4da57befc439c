import Patchbay.Addressing

/-!
# Statements

A program is a list of statements, one for each node that computes something. A statement is kept
in structured form, over an arbitrary type `α` of operands, until it is written out. Operands may
be missing; what stands in for a missing operand depends on the statement and is part of writing
it, so that the structured form still tells a missing operand from a zero.

The host that runs a program keeps its stateful units in an array called `nodes`, and its output
level in `lvl`.
-/

namespace Patchbay

/-- The arithmetic operators of a program. -/
inductive Operator where
  | add
  | sub
  | mul
  | div
  deriving DecidableEq

namespace Operator

/-- How an operator is written. -/
def symbol : Operator → String
  | add => "+"
  | sub => "-"
  | mul => "*"
  | div => "/"

/-- What stands in for a missing operand. -/
def identity : Operator → String
  | add | sub => "0"
  | mul | div => "1"

end Operator

/-- The operands of one output: its left channel, and its right one if that is not the same. -/
structure Output (α : Type) where
  left : Option α
  right : Option α
  deriving DecidableEq

/-- What one node contributes to a program. -/
inductive Statement (α : Type) where
  /-- Advances a stateful unit by one block and stores what it gives. -/
  | update (unit : Nat) (arguments : List α)
  /-- Hands a value to a feedback cell, for the next block. -/
  | write (cell : Nat) (value : Option α)
  /-- Stores the result of an arithmetic operator. -/
  | arithmetic (operator : Operator) (left right : Option α)
  /-- Stores a copy of a value. -/
  | copy (value : Option α)
  /-- Ends the block with the sum of the outputs. -/
  | mix (outputs : List (Output α))
  /-- Any other text. -/
  | verbatim (line : String)
  deriving DecidableEq

namespace Output

variable {α β : Type}

/-- The same output over other operands. -/
def map (f : α → β) (output : Output α) : Output β where
  left := output.left.map f
  right := output.right.map f

/-- The text of the left channel; silence if it is missing. -/
def leftText (output : Output String) : String :=
  output.left.getD "0"

/-- The text of the right channel; that of the left one if it is missing. -/
def rightText (output : Output String) : String :=
  output.right.getD output.leftText

end Output

namespace Statement

variable {α β : Type}

/-- The same statement over other operands. -/
def map (f : α → β) : Statement α → Statement β
  | update unit arguments => update unit (arguments.map f)
  | write cell value => write cell (value.map f)
  | arithmetic operator left right => arithmetic operator (left.map f) (right.map f)
  | copy value => copy (value.map f)
  | mix outputs => mix (outputs.map (·.map f))
  | verbatim line => verbatim line

/-- The sum of some channels: one alone stands as it is, several are bracketed. -/
def sumText : List String → String
  | [single] => single
  | several => "(" ++ String.intercalate " + " several ++ ")"

/-- Where and for whom a statement is written: the convention for slots, the slot and the kind of
the node. -/
structure Site where
  addressing : Addressing
  slot : String
  kind : String

/-- The statement that stores an expression in the slot of a site. -/
def Site.assign (site : Site) (expression : String) : String :=
  site.addressing.assign site.slot expression

/-- The comment that names the kind of a node. -/
def Site.remark (site : Site) : String :=
  " /* " ++ site.kind ++ " */"

/-- The text of a statement. -/
def text (site : Site) : Statement String → String
  | update unit arguments =>
    site.assign
      ("nodes[" ++ toString unit ++ "].update(" ++ String.intercalate "," arguments ++ ")")
      ++ site.remark
  | write cell value =>
    site.assign ("nodes[" ++ toString cell ++ "].write(" ++ value.getD "0" ++ ")") ++ site.remark
  | arithmetic operator left right =>
    site.assign
      (left.getD operator.identity ++ " " ++ operator.symbol ++ " "
        ++ right.getD operator.identity)
  | copy value => site.assign (value.getD "0")
  | mix outputs =>
    "return [(" ++ sumText (outputs.map (·.leftText)) ++ "*lvl),("
      ++ sumText (outputs.map (·.rightText)) ++ "*lvl)]"
  | verbatim line => line

end Statement

end Patchbay
