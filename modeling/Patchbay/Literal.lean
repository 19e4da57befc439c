import Patchbay.Number.Positional
import Patchbay.Text.Quoted

/-!
# Literals

A literal is a number or a text. Its text form is what a program holds in the place of the
literal: a number in positional notation, or a text in double quotes.
-/

namespace Patchbay

/-- A constant value in a patch. -/
inductive Literal where
  | number (value : Binary64)
  | text (value : String)
  deriving DecidableEq

namespace Literal

instance (n : Nat) : OfNat Literal n where
  ofNat := .number (OfNat.ofNat n)

instance : OfScientific Literal where
  ofScientific digits shrink exponent := .number (OfScientific.ofScientific digits shrink exponent)

/-- The text form of a literal, as characters. -/
def formChars : Literal → List Char
  | number value => value.textChars
  | text value => Text.quoteChars value.toList

/-- The text form of a literal. -/
def form (l : Literal) : String :=
  String.ofList l.formChars

end Literal

end Patchbay
