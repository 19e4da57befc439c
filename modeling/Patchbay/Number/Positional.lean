import Patchbay.Number.Shortest

/-!
# Numbers in positional notation

A number is written with the digits of its shortest decimal, without an exponent whatever its
size, and without a fractional part when it is whole. Zero keeps its sign. `NaN`, `inf` and `-inf`
are written so. `Binary64.read?` reads such text back, rounding to nearest.
-/

namespace Patchbay

namespace Decimal

/-- The digits of a decimal in positional notation. -/
def positional (d : Decimal) : List Char :=
  let digits := Nat.toDigits 10 d.digits
  let places := (-d.exponent).toNat
  if places = 0 then digits ++ List.replicate d.exponent.toNat '0'
  else
    let padded := List.replicate (places + 1 - digits.length) '0' ++ digits
    padded.take (padded.length - places) ++ '.' :: padded.drop (padded.length - places)

/-- The value of a run of decimal digits, or `none` if there is another character in it or if it
is empty. -/
def naturalOfDigits? (cs : List Char) : Option Nat :=
  if cs.isEmpty ∨ ¬ cs.all Char.isDigit then none
  else some (cs.foldl (fun n c => 10 * n + (c.toNat - '0'.toNat)) 0)

/-- Reads digits with at most one point between them. -/
def ofPositional? (cs : List Char) : Option Decimal :=
  let whole := cs.takeWhile (· ≠ '.')
  match cs.dropWhile (· ≠ '.') with
  | [] => do return ⟨← naturalOfDigits? whole, 0⟩
  | _ :: fraction => do
    let _ ← naturalOfDigits? whole
    let _ ← naturalOfDigits? fraction
    return ⟨← naturalOfDigits? (whole ++ fraction), -fraction.length⟩

end Decimal

namespace Binary64

/-- The text of a number without its sign. -/
def magnitudeText (x : Binary64) : List Char :=
  if x.isInfinite then ['i', 'n', 'f']
  else if x.code.val = 0 then ['0']
  else (shortest x.code).positional

/-- The text of a number, as characters. -/
def textChars (x : Binary64) : List Char :=
  if x.isNaN then ['N', 'a', 'N']
  else if x.negative then '-' :: x.magnitudeText
  else x.magnitudeText

/-- The text of a number. -/
def text (x : Binary64) : String :=
  String.ofList x.textChars

/-- Reads a number without sign. -/
def readMagnitude? (negative : Bool) (cs : List Char) : Option Binary64 :=
  if cs = ['i', 'n', 'f'] then some (ofCode negative infinityCode)
  else (Decimal.ofPositional? cs).map (ofDecimal negative)

/-- Reads a number in positional notation, or an infinity. -/
def read? (cs : List Char) : Option Binary64 :=
  match cs with
  | '-' :: rest => readMagnitude? true rest
  | _ => readMagnitude? false cs

end Binary64

end Patchbay
