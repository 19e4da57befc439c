import Patchbay.Number.Binary64

/-!
# Rounding a decimal to a double

`Binary64.ofDecimal` gives the double nearest to a decimal number; of two equally near ones it
takes the one with the even code, and past the largest finite double it gives infinity.
-/

namespace Patchbay

/-- The decimal number `digits * 10 ^ exponent`. -/
structure Decimal where
  digits : Nat
  exponent : Int
  deriving DecidableEq

/-- The natural number nearest to `num / den`; a half goes to the even neighbour. -/
def roundHalfEven (num den : Nat) : Nat :=
  let quotient := num / den
  let twice := 2 * (num % den)
  if twice < den then quotient
  else if den < twice then quotient + 1
  else quotient + quotient % 2

namespace Binary64

/-- The code of the magnitude nearest to `num / den` units. The quotient is rounded to fifty-three
binary digits; carrying the rounded digits into the exponent is plain addition on codes. -/
def nearestCode (num den : Nat) : Nat :=
  let shift := Nat.log2 (num / den) - 52
  roundHalfEven num (den * Nat.pow 2 shift) + shift * fractionCount

/-- The double nearest to a decimal with a sign. -/
def ofDecimal (negative : Bool) (d : Decimal) : Binary64 :=
  let num := d.digits * Nat.pow 10 d.exponent.toNat * Nat.pow 2 1074
  let den := Nat.pow 10 (-d.exponent).toNat
  ofCode negative (nearestCode num den)

instance (n : Nat) : OfNat Binary64 n where
  ofNat := ofDecimal false ⟨n, 0⟩

instance : OfScientific Binary64 where
  ofScientific digits shrink exponent :=
    ofDecimal false ⟨digits, if shrink then -exponent else exponent⟩

end Binary64

end Patchbay
