import Patchbay.Number.Rounding

/-!
# The shortest decimal of a double

The decimals that round to a finite double fill an interval around it, which reaches half-way to
its two neighbours; the ends belong to it when the code is even. `Binary64.shortest` picks from
this interval a point of the coarsest decimal grid `10 ^ p` that has one there: the nearer one if
there are two, and the upper one if they are equally near. The search goes from a grid coarser
than the double itself down to `10 ^ -1074`, on which every finite double lies.
-/

namespace Patchbay.Binary64

/-- The lower end of the rounding interval of a code, in quarters of a unit. Just above a power of
two the neighbour below is only half as far as the one above. -/
def lowerEnd (code : Nat) : Nat :=
  let reach := if code % fractionCount = 0 ∧ 1 < code / fractionCount then 1 else 2
  4 * units code - reach * gap code

/-- The upper end of the rounding interval of a code, in quarters of a unit. -/
def upperEnd (code : Nat) : Nat :=
  4 * units code + 2 * gap code

/-- One unit is `gridNum p / gridDen p` steps of the grid `10 ^ p`. -/
def gridNum (p : Int) : Nat :=
  Nat.pow 10 (-p).toNat

@[inherit_doc gridNum]
def gridDen (p : Int) : Nat :=
  Nat.pow 2 1074 * Nat.pow 10 p.toNat

/-- Whether `digits * 10 ^ p` lies in the rounding interval of a code. -/
def roundsTo (code : Nat) (digits : Nat) (p : Int) : Bool :=
  let point := 4 * digits * gridDen p
  let low := lowerEnd code * gridNum p
  let high := upperEnd code * gridNum p
  if code % 2 = 0 then low ≤ point && point ≤ high else low < point && point < high

/-- The point of the grid `10 ^ p` nearest to the magnitude of a code among its two neighbours
there, as far as they round to it. -/
def gridPoint? (code : Nat) (p : Int) : Option Nat :=
  let num := units code * gridNum p
  let den := gridDen p
  let below := num / den
  match roundsTo code below p, roundsTo code (below + 1) p with
  | true, true => if 2 * num < (2 * below + 1) * den then some below else some (below + 1)
  | true, false => some below
  | false, true => some (below + 1)
  | false, false => none

/-- The first point found going down from the grid `10 ^ (n - 1074)`. -/
def shortestFrom (code : Nat) : (n : Nat) → Decimal
  | 0 => ⟨units code * Nat.pow 5 1074, -1074⟩
  | n + 1 =>
    let p : Int := (n + 1 : Nat) - 1074
    match gridPoint? code p with
    | some digits => ⟨digits, p⟩
    | none => shortestFrom code n

/-- A grid, counted from `10 ^ -1074` up, that is coarser than the magnitude of a code: a number
below `2 ^ b` is below `10 ^ p` as soon as `p` is a little over three tenths of `b`. -/
def coarseGrid (code : Nat) : Nat :=
  let bits : Int := Nat.log2 (units code) + 1 - 1074
  (Int.fdiv (bits * 30103) 100000 + 1 + 1074).toNat

/-- The decimal that stands for the finite magnitude with a given code. -/
def shortest (code : Nat) : Decimal :=
  shortestFrom code (coarseGrid code)

end Patchbay.Binary64
