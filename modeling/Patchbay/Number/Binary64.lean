/-!
# Double-precision numbers

A `Binary64` is a double of the IEEE 754 standard, held as its sign and the sixty-three bits below
it read as one number, its `code`. Codes order magnitudes: the finite ones come first, then
infinity, then the codes that stand for no number.

Every finite magnitude is a whole number of `units`, a unit being the least positive double,
`2 ^ -1074`. Exact comparisons of doubles with decimals are therefore comparisons of naturals, and
no floating-point operation is used anywhere.
-/

namespace Patchbay

/-- A double: its sign bit, and its other bits read as a number. -/
structure Binary64 where
  negative : Bool
  code : Fin (Nat.pow 2 63)
  deriving DecidableEq

namespace Binary64

/-- The number of codes that share one exponent. -/
def fractionCount : Nat := Nat.pow 2 52

/-- The code of infinity; the codes above it stand for no number. -/
def infinityCode : Nat := 2047 * fractionCount

/-- The double with a given pattern of sixty-four bits. -/
def ofBits (bits : UInt64) : Binary64 where
  negative := Nat.pow 2 63 ≤ bits.toNat
  code := ⟨bits.toNat % Nat.pow 2 63, Nat.mod_lt _ (by decide)⟩

/-- The pattern of sixty-four bits of a double. -/
def toBits (x : Binary64) : UInt64 :=
  UInt64.ofNat ((if x.negative then Nat.pow 2 63 else 0) + x.code)

/-- Whether a double is not a number. -/
def isNaN (x : Binary64) : Bool :=
  infinityCode < x.code.val

/-- Whether a double is one of the two infinities. -/
def isInfinite (x : Binary64) : Bool :=
  x.code.val = infinityCode

/-- The distance, in units, from the finite magnitude with a given code to the next one. -/
def gap (code : Nat) : Nat :=
  Nat.pow 2 (code / fractionCount - 1)

/-- The finite magnitude with a given code, in units. -/
def units (code : Nat) : Nat :=
  let fraction := code % fractionCount
  let significand := if code / fractionCount = 0 then fraction else fractionCount + fraction
  significand * gap code

/-- The double with a sign and a code, or infinity if the code is too large to be finite. -/
def ofCode (negative : Bool) (code : Nat) : Binary64 where
  negative := negative
  code := ⟨min code infinityCode, Nat.lt_of_le_of_lt (Nat.min_le_right _ _) (by decide)⟩

end Binary64

end Patchbay
