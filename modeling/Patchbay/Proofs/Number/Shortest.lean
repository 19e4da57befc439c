import Patchbay.Proofs.Number.Positional
import Patchbay.Proofs.Number.Rounding

/-!
# Reading back numbers

The decimal that stands for a magnitude lies in its rounding interval (`rounds_shortestFrom`): the
search only ever stops at a point that does, and if it does not stop before, it ends at the
magnitude itself. So the decimal is rounded to that magnitude, and the text of a number is read as
the number (`read?_textChars`), with the sign of a zero and with infinities.
-/

namespace Patchbay

namespace Binary64

variable {code digits : Nat} {p : Int}

/-! ### The search for a decimal -/

/-- The test of the search is for the rounding interval. -/
theorem roundsTo_iff :
    roundsTo code digits p = true ↔ Rounds (digits * gridDen p) (gridNum p) code := by
  have hpoint : 4 * digits * gridDen p = 4 * (digits * gridDen p) := Nat.mul_assoc _ _ _
  rw [roundsTo, hpoint]
  split
  · next heven =>
    rw [Bool.and_eq_true, decide_eq_true_iff, decide_eq_true_iff]
    exact ⟨fun h => ⟨h.1, h.2, fun _ => heven, fun _ => heven⟩, fun h => ⟨h.lower, h.upper⟩⟩
  · next hodd =>
    rw [Bool.and_eq_true, decide_eq_true_iff, decide_eq_true_iff]
    refine ⟨fun h => ⟨h.1.le, h.2.le, fun heq => absurd heq h.1.ne, fun heq => absurd heq h.2.ne⟩,
      fun h => ⟨lt_of_le_of_ne h.lower ?_, lt_of_le_of_ne h.upper ?_⟩⟩
    · exact fun heq => hodd (h.even_of_lower heq)
    · exact fun heq => hodd (h.even_of_upper heq)

theorem roundsTo_of_gridPoint? (h : gridPoint? code p = some digits) :
    roundsTo code digits p = true := by
  rw [gridPoint?] at h
  split at h
  · next hbelow habove =>
    split at h
    · exact Option.some.inj h ▸ hbelow
    · exact Option.some.inj h ▸ habove
  · next hbelow _ => exact Option.some.inj h ▸ hbelow
  · next _ habove => exact Option.some.inj h ▸ habove
  · cases h

/-- A magnitude lies in its own rounding interval, and at an end of it only if it is zero. -/
theorem rounds_units (code : Nat) {den : Nat} (hden : 0 < den) :
    Rounds (units code * den) den code := by
  have hlower : lowerEnd code = 4 * units code → code % 2 = 0 := by
    cases code with
    | zero => exact fun _ => rfl
    | succ code =>
      have hgap := gap_pos code
      rw [lowerEnd_succ, upperEnd, units_succ]
      omega
  have hupper : 4 * units code < upperEnd code := by
    have hgap := gap_pos code
    rw [upperEnd]
    omega
  have hscale : 4 * (units code * den) = 4 * units code * den := (Nat.mul_assoc _ _ _).symm
  refine ⟨?_, ?_, ?_, ?_⟩ <;> rw [hscale]
  · exact Nat.mul_le_mul_right den (lowerEnd_le code)
  · exact Nat.mul_le_mul_right den hupper.le
  · exact fun h => hlower (Nat.eq_of_mul_eq_mul_right hden h)
  · exact fun h => absurd (Nat.eq_of_mul_eq_mul_right hden h) hupper.ne

theorem growth_eq (d : Decimal) : d.growth = d.digits * gridDen d.exponent := by
  rw [Decimal.growth, gridDen, Nat.mul_assoc, Nat.mul_comm (Nat.pow 10 _)]

/-- Wherever the search stops, the decimal lies in the rounding interval. -/
theorem rounds_shortestFrom (code n : Nat) :
    Rounds (shortestFrom code n).growth (shortestFrom code n).shrink code := by
  induction n with
  | zero =>
    -- the last grid holds all magnitudes
    have hgrowth : (shortestFrom code 0).growth = units code * (shortestFrom code 0).shrink := by
      have hplaces : (-(-1074 : Int)).toNat = 1074 := rfl
      have hzeros : (-1074 : Int).toNat = 0 := rfl
      have hten (k : Nat) : Nat.pow 5 k * Nat.pow 2 k = Nat.pow 10 k := (Nat.mul_pow 5 2 k).symm
      rw [shortestFrom, Decimal.growth, Decimal.shrink, hplaces, hzeros]
      generalize 1074 = k
      rw [← hten k, Nat.mul_assoc, Nat.mul_assoc]
      exact congrArg _ (congrArg _ (Nat.one_mul _))
    rw [hgrowth]
    exact rounds_units code (Decimal.shrink_pos _)
  | succ n ih =>
    rw [shortestFrom]
    split
    · next digits hpoint =>
      rw [growth_eq]
      exact roundsTo_iff.mp (roundsTo_of_gridPoint? hpoint)
    · exact ih

theorem nearestCode_zero {den : Nat} (hden : 0 < den) : nearestCode 0 den = 0 := by
  have hzero : units 0 * den = 0 := by
    rw [show units 0 = 0 by decide, Nat.zero_mul]
  have hrounds := rounds_units 0 hden
  rw [hzero] at hrounds
  exact hrounds.nearestCode_eq hden

/-- The shortest decimal of a magnitude is rounded to that magnitude. -/
theorem nearestCode_shortest (code : Nat) :
    nearestCode (shortest code).growth (shortest code).shrink = code :=
  (rounds_shortestFrom code _).nearestCode_eq (Decimal.shrink_pos _)

end Binary64

/-! ### The decimal of a text -/

namespace Decimal

/-- To make the zeros at the end of a decimal digits does not change what it is. -/
theorem growth_spelled (d : Decimal) : d.spelled.growth = d.growth := by
  rw [spelled]
  split
  · have hone : Nat.pow 10 (0 : Int).toNat = 1 := rfl
    rw [growth, growth, hone, Nat.mul_one]
  · rfl

theorem shrink_spelled (d : Decimal) : d.spelled.shrink = d.shrink := by
  rw [spelled]
  split
  · next h =>
    rw [shrink, shrink, h]
    rfl
  · rfl

end Decimal

namespace Binary64

/-- The double whose sign and code are those of a number is that number. -/
theorem ofCode_eq_self {x : Binary64} (h : x.isNaN = false) : ofCode x.negative x.code = x := by
  have hle : x.code.val ≤ infinityCode := Nat.not_lt.mp (decide_eq_false_iff_not.mp h)
  obtain ⟨negative, code⟩ := x
  rw [ofCode]
  congr
  exact Nat.min_eq_left hle

/-- The text of a finite number without its sign is that of a decimal, whose nearest magnitude is
the one of the number. -/
theorem exists_ofPositional?_magnitudeText {x : Binary64} (h : x.isInfinite = false) :
    ∃ d, Decimal.ofPositional? x.magnitudeText = some d ∧
      nearestCode d.growth d.shrink = x.code := by
  rw [magnitudeText, h, if_neg Bool.false_ne_true]
  split
  · next hzero =>
    refine ⟨⟨0, 0⟩, rfl, ?_⟩
    rw [Decimal.growth, Nat.mul_assoc, Nat.zero_mul, nearestCode_zero (Decimal.shrink_pos _), hzero]
  · refine ⟨_, Decimal.ofPositional?_positional _, ?_⟩
    rw [Decimal.growth_spelled, Decimal.shrink_spelled, nearestCode_shortest]

/-- A number without its sign is read as that number, given the sign. -/
theorem readMagnitude?_magnitudeText {x : Binary64} (h : x.isNaN = false) :
    readMagnitude? x.negative x.magnitudeText = some x := by
  by_cases hinfinite : x.isInfinite
  · have hcode : infinityCode = x.code := (decide_eq_true_iff.mp hinfinite).symm
    rw [magnitudeText, if_pos hinfinite, readMagnitude?, if_pos rfl, hcode, ofCode_eq_self h]
  · obtain ⟨d, hread, hcode⟩ :=
      exists_ofPositional?_magnitudeText (Bool.eq_false_of_not_eq_true hinfinite)
    have hletters : x.magnitudeText ≠ ['i', 'n', 'f'] := by
      intro heq
      rw [heq] at hread
      cases hread
    rw [readMagnitude?, if_neg hletters, hread, Option.map_some, ofDecimal_eq, hcode,
      ofCode_eq_self h]

/-- The text of a number is read as that number. -/
theorem read?_textChars {x : Binary64} (h : x.isNaN = false) : read? x.textChars = some x := by
  rw [textChars, h, if_neg Bool.false_ne_true, ← readMagnitude?_magnitudeText h]
  cases x.negative with
  | true => rfl
  | false =>
    have hsign (rest : List Char) : x.magnitudeText ≠ '-' :: rest := by
      intro heq
      have hminus : '-' ∈ x.magnitudeText := heq ▸ List.mem_cons_self
      exact absurd (mem_magnitudeText hminus) (by decide)
    rw [if_neg Bool.false_ne_true, read?]
    exact fun rest heq => hsign rest heq

theorem read?_textChars_of_isNaN {x : Binary64} (h : x.isNaN) : read? x.textChars = none := by
  rw [textChars, if_pos h]
  rfl

end Binary64

end Patchbay
