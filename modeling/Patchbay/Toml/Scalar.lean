import Patchbay.Toml.Strings
import Patchbay.Toml.Value

/-!
# Numbers and other single values

Integers have sixty-four bits and a sign. A float has a fractional part, an exponent or both, or
is an infinity or no number. One that is too large is refused, though one that is too small, on
the negative side, counts as the negative infinity.
-/

namespace Patchbay.Toml

/-- Takes a sign, if there is one; a minus sign gives `true`. -/
def readSign : List Char → Bool × List Char
  | '-' :: rest => (true, rest)
  | '+' :: rest => (false, rest)
  | cs => (false, cs)

/-- Takes decimal digits that do not begin with a needless zero. -/
def readWhole : Reader (List Char)
  | '0' :: rest => some (['0'], rest)
  | cs => digits1 Char.isDigit cs

/-- Whether an integer fits in sixty-four bits with a sign. -/
def fitsWord (n : Int) : Bool :=
  -Int.ofNat (Nat.pow 2 63) ≤ n && n < Int.ofNat (Nat.pow 2 63)

/-- Whether a character is a digit in base sixteen. -/
def isHexDigit (c : Char) : Bool :=
  c.isDigit || ('a' ≤ c && c ≤ 'f') || ('A' ≤ c && c ≤ 'F')

/-- Reads an unsigned integer in some base after its mark. -/
def readBased (base : Nat) (isDigit : Char → Bool) : Reader Int := fun cs => do
  let (digits, rest) ← digits1 isDigit cs
  let n : Int := digitsValue base digits
  guard (fitsWord n)
  return (n, rest)

/-- Reads an integer. -/
def readInteger : Reader Int
  | '0' :: 'x' :: rest => readBased 16 isHexDigit rest
  | '0' :: 'o' :: rest => readBased 8 (fun c => '0' ≤ c && c ≤ '7') rest
  | '0' :: 'b' :: rest => readBased 2 (fun c => c = '0' || c = '1') rest
  | cs => do
    let (negative, cs) := readSign cs
    let (digits, rest) ← readWhole cs
    let magnitude : Int := digitsValue 10 digits
    let n := if negative then -magnitude else magnitude
    guard (fitsWord n)
    return (n, rest)

/-- Reads an exponent with its mark. -/
def readExponent : Reader Int
  | mark :: cs => do
    guard (mark = 'e' ∨ mark = 'E')
    let (negative, cs) := readSign cs
    let (digits, rest) ← digits1 Char.isDigit cs
    let magnitude : Int := digitsValue 10 digits
    return (if negative then -magnitude else magnitude, rest)
  | [] => none

/-- The double nearest to `digits * 10 ^ exponent`. An exponent that puts the number beyond every
double, or below every one but zero, is cut back to one that still does. -/
def floatOf (negative : Bool) (digits : List Char) (exponent : Int) : Binary64 :=
  let least : Int := -(digits.length + 400)
  Binary64.ofDecimal negative ⟨digitsValue 10 digits, max least (min exponent 400)⟩

/-- Reads a float that is a number. -/
def readFinite : Reader Binary64 := fun cs => do
  let (negative, cs) := readSign cs
  let (whole, cs) ← readWhole cs
  let (fraction, exponent, rest) ← (match cs with
    | '.' :: cs => do
      let (fraction, cs) ← digits1 Char.isDigit cs
      match readExponent cs with
      | some (exponent, rest) => pure (fraction, exponent, rest)
      | none => pure (fraction, 0, cs)
    | cs => do
      let (exponent, rest) ← readExponent cs
      pure ([], exponent, rest))
  let x := floatOf negative (whole ++ fraction) (exponent - fraction.length)
  guard (negative ∨ ¬ x.isInfinite)
  return (x, rest)

/-- Reads an infinity or what is no number. -/
def readSpecial : Reader Binary64 := fun cs =>
  let (negative, cs) := readSign cs
  match cs with
  | 'i' :: 'n' :: 'f' :: rest => some (.ofCode negative Binary64.infinityCode, rest)
  | 'n' :: 'a' :: 'n' :: rest =>
    some (⟨negative, Fin.ofNat _ (Binary64.infinityCode + Binary64.fractionCount / 2)⟩, rest)
  | _ => none

/-- Reads a number, or a date or time. -/
def readNumeric : Reader Value := fun cs =>
  ((DateTime.read cs).map fun (d, rest) => (.dateTime d, rest))
    <|> ((readFinite cs <|> readSpecial cs).map fun (x, rest) => (.float x, rest))
    <|> ((readInteger cs).map fun (n, rest) => (.integer n, rest))

/-- Reads a value that holds no other values. -/
def readScalar : Reader Value := fun cs =>
  match cs with
  | 't' :: 'r' :: 'u' :: 'e' :: rest => some (.boolean true, rest)
  | 'f' :: 'a' :: 'l' :: 's' :: 'e' :: rest => some (.boolean false, rest)
  | '"' :: _ => (readString cs).map fun (s, rest) => (.string s, rest)
  | '\'' :: _ => (readString cs).map fun (s, rest) => (.string s, rest)
  | _ => readNumeric cs

end Patchbay.Toml
