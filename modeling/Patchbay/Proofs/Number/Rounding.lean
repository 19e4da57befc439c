import Mathlib.Algebra.Order.Field.Basic
import Mathlib.Algebra.Order.Ring.Rat
import Mathlib.Order.Monotone.Basic
import Mathlib.Tactic.FieldSimp
import Mathlib.Tactic.Positivity
import Mathlib.Tactic.Ring
import Patchbay.Number.Shortest

/-!
# Correct rounding

`Binary64.IsNearest` says what it means for a magnitude to be the one that a number is rounded to:
no other magnitude is nearer, and if another one is equally near, the code is even. It speaks of
exact rational numbers, and of all codes, as if there were no largest exponent. Decimals are rounded
in this way (`isNearest_nearestCode`).

In between stands the rounding interval of a code (`Binary64.Rounds`). The intervals of all codes
lie side by side without gaps (`lowerEnd_succ`), also at the powers of two, where the distance
between magnitudes changes. A number in the interval of a code is rounded to that code
(`Rounds.isNearest`), and to no other (`IsNearest.unique`).
-/

namespace Patchbay

/-! ### Rounding quotients -/

/-- A quotient and the number that it is rounded to: they differ by half at most, and by half only
if the number is even. -/
structure IsRounded (num den n : Nat) : Prop where
  below : 2 * (n * den) ≤ 2 * num + den
  above : 2 * num ≤ 2 * (n * den) + den
  even_of_below : 2 * (n * den) = 2 * num + den → n % 2 = 0
  even_of_above : 2 * num = 2 * (n * den) + den → n % 2 = 0

theorem isRounded_roundHalfEven (num : Nat) {den : Nat} (h : 0 < den) :
    IsRounded num den (roundHalfEven num den) := by
  have hdiv : num / den * den + num % den = num := Nat.div_add_mod' num den
  have hmod : num % den < den := Nat.mod_lt num h
  rw [roundHalfEven]
  split
  · constructor <;> omega
  split
  · constructor <;> rw [Nat.add_mul, Nat.one_mul] <;> omega
  · rcases Nat.mod_two_eq_zero_or_one (num / den) with heven | hodd
    · rw [heven, Nat.add_zero]
      constructor <;> omega
    · rw [hodd]
      constructor <;> rw [Nat.add_mul, Nat.one_mul] <;> omega

namespace Binary64

/-! ### Magnitudes by code -/

theorem fractionCount_pos : 0 < fractionCount := by decide

theorem fractionCount_mod_two : fractionCount % 2 = 0 := by decide

theorem gap_pos (code : Nat) : 0 < gap code :=
  Nat.pow_pos (by decide)

/-- A code is a fraction and the number of exponents below its own. -/
theorem units_eq {exponent fraction : Nat} (h : fraction < fractionCount) :
    units (exponent * fractionCount + fraction) =
      (if exponent = 0 then fraction else fractionCount + fraction) * Nat.pow 2 (exponent - 1) := by
  have hdiv : (exponent * fractionCount + fraction) / fractionCount = exponent := by
    rw [Nat.mul_comm, Nat.mul_add_div fractionCount_pos, Nat.div_eq_of_lt h, Nat.add_zero]
  have hmod : (exponent * fractionCount + fraction) % fractionCount = fraction := by
    rw [Nat.mul_comm, Nat.mul_add_mod, Nat.mod_eq_of_lt h]
  rw [units, gap, hdiv, hmod]

theorem gap_eq {exponent fraction : Nat} (h : fraction < fractionCount) :
    gap (exponent * fractionCount + fraction) = Nat.pow 2 (exponent - 1) := by
  rw [gap, Nat.mul_comm, Nat.mul_add_div fractionCount_pos, Nat.div_eq_of_lt h, Nat.add_zero]

theorem exists_exponent (code : Nat) : ∃ exponent fraction,
    code = exponent * fractionCount + fraction ∧ fraction < fractionCount :=
  ⟨code / fractionCount, code % fractionCount, (Nat.div_add_mod' _ _).symm,
    Nat.mod_lt _ fractionCount_pos⟩

/-- The magnitude after a given one is a gap away, also where the exponent changes. -/
theorem units_succ (code : Nat) : units (code + 1) = units code + gap code := by
  obtain ⟨exponent, fraction, rfl, hfraction⟩ := exists_exponent code
  rw [gap_eq hfraction, units_eq hfraction]
  by_cases hlast : fraction + 1 < fractionCount
  · rw [Nat.add_assoc, units_eq hlast]
    split
    · rw [Nat.add_mul, Nat.one_mul]
    · rw [← Nat.add_assoc, Nat.add_mul _ 1, Nat.one_mul]
  · have hcarry : exponent * fractionCount + fraction + 1 =
        (exponent + 1) * fractionCount + 0 := by
      rw [Nat.add_mul]
      omega
    rw [hcarry, units_eq fractionCount_pos, if_neg (Nat.succ_ne_zero _), Nat.add_zero,
      Nat.add_sub_cancel]
    cases exponent with
    | zero =>
      rw [if_pos rfl]
      have hone : Nat.pow 2 (0 - 1) = 1 := rfl
      rw [hone]
      omega
    | succ exponent =>
      have hdouble : Nat.pow 2 (exponent + 1) = Nat.pow 2 exponent * 2 := rfl
      have hsum : fractionCount + fraction + 1 = 2 * fractionCount := by omega
      rw [if_neg (Nat.succ_ne_zero _), Nat.add_sub_cancel, hdouble]
      calc fractionCount * (Nat.pow 2 exponent * 2)
          = 2 * fractionCount * Nat.pow 2 exponent := by
            rw [Nat.mul_comm (Nat.pow 2 exponent), ← Nat.mul_assoc, Nat.mul_comm fractionCount]
        _ = (fractionCount + fraction) * Nat.pow 2 exponent + Nat.pow 2 exponent := by
            rw [← hsum, Nat.add_mul _ 1, Nat.one_mul]

theorem units_strictMono : StrictMono units := by
  refine strictMono_nat_of_lt_succ fun code => ?_
  rw [units_succ]
  exact Nat.lt_add_of_pos_right (gap_pos code)

/-- The reach of a rounding interval below a magnitude is half of the gap before it. -/
theorem lowerEnd_succ (code : Nat) : lowerEnd (code + 1) = upperEnd code := by
  have hreach : (if (code + 1) % fractionCount = 0 ∧ 1 < (code + 1) / fractionCount then 1 else 2) *
      gap (code + 1) = 2 * gap code := by
    obtain ⟨exponent, fraction, rfl, hfraction⟩ := exists_exponent code
    rw [gap_eq hfraction]
    by_cases hlast : fraction + 1 < fractionCount
    · have hmod : (exponent * fractionCount + (fraction + 1)) % fractionCount = fraction + 1 := by
        rw [Nat.mul_comm, Nat.mul_add_mod, Nat.mod_eq_of_lt hlast]
      rw [Nat.add_assoc, hmod, if_neg (fun h => Nat.succ_ne_zero _ h.1), gap_eq hlast]
    · have hcarry : exponent * fractionCount + fraction + 1 =
          (exponent + 1) * fractionCount + 0 := by
        rw [Nat.add_mul]
        omega
      rw [hcarry, gap_eq fractionCount_pos, Nat.add_zero, Nat.mul_div_cancel _ fractionCount_pos,
        Nat.mul_mod_left, Nat.add_sub_cancel]
      cases exponent with
      | zero => rw [if_neg fun h => absurd h.2 (by decide)]
      | succ exponent =>
        rw [if_pos ⟨rfl, by omega⟩, Nat.one_mul, Nat.add_sub_cancel]
        exact Nat.mul_comm _ 2
  rw [lowerEnd, hreach, units_succ, upperEnd]
  omega

theorem lowerEnd_le (code : Nat) : lowerEnd code ≤ 4 * units code :=
  Nat.sub_le _ _

/-! ### Rounding intervals -/

/-- A number, `num / den` units, lies in the rounding interval of a code. The ends belong to it when
the code is even. -/
structure Rounds (num den code : Nat) : Prop where
  lower : lowerEnd code * den ≤ 4 * num
  upper : 4 * num ≤ upperEnd code * den
  even_of_lower : lowerEnd code * den = 4 * num → code % 2 = 0
  even_of_upper : 4 * num = upperEnd code * den → code % 2 = 0

variable {num den code : Nat}

/-! ### The code of a quotient -/

theorem gap_mono : Monotone gap := fun _ _ h =>
  Nat.pow_le_pow_right (by decide) (Nat.sub_le_sub_right (Nat.div_le_div_right h) 1)

/-- A significand of at most fifty-three binary digits and a shift, as a code. A shift takes a full
significand. -/
theorem units_gap_shift {significand shift : Nat} (hlt : significand < 2 * fractionCount)
    (hshift : shift = 0 ∨ fractionCount ≤ significand) :
    units (significand + shift * fractionCount) = significand * Nat.pow 2 shift ∧
      gap (significand + shift * fractionCount) = Nat.pow 2 shift := by
  rcases Nat.lt_or_ge significand fractionCount with hsmall | hge
  · obtain rfl : shift = 0 := hshift.resolve_right (by omega)
    have hcode : significand + 0 * fractionCount = 0 * fractionCount + significand :=
      Nat.add_comm _ _
    rw [hcode, units_eq hsmall, gap_eq hsmall, if_pos rfl]
    exact ⟨rfl, rfl⟩
  · have hcode : significand + shift * fractionCount =
        (shift + 1) * fractionCount + (significand - fractionCount) := by
      rw [Nat.add_mul]
      omega
    have hfraction : significand - fractionCount < fractionCount := by omega
    rw [hcode, units_eq hfraction, gap_eq hfraction, if_neg (Nat.succ_ne_zero _),
      Nat.add_sub_cancel, Nat.add_sub_cancel' hge]
    exact ⟨rfl, rfl⟩

/-- A significand that is rounded up may carry into the exponent. -/
theorem units_gap_shift_le {significand shift : Nat} (hle : significand ≤ 2 * fractionCount)
    (hshift : shift = 0 ∨ fractionCount ≤ significand) :
    units (significand + shift * fractionCount) = significand * Nat.pow 2 shift ∧
      Nat.pow 2 shift ≤ gap (significand + shift * fractionCount) := by
  rcases Nat.lt_or_eq_of_le hle with hlt | heq
  · obtain ⟨hunits, hgap⟩ := units_gap_shift hlt hshift
    exact ⟨hunits, hgap.ge⟩
  · have hpos := fractionCount_pos
    obtain ⟨before, rfl⟩ : ∃ before, significand = before + 1 := ⟨significand - 1, by omega⟩
    obtain ⟨hunits, hgap⟩ := @units_gap_shift before shift (by omega) (Or.inr (by omega))
    rw [Nat.add_right_comm, units_succ, hunits, hgap, Nat.add_mul, Nat.one_mul]
    exact ⟨rfl, hgap.ge.trans (gap_mono (Nat.le_succ _))⟩

/-- Within one exponent, the rounding interval reaches half a gap down. -/
theorem lowerEnd_shift_succ {significand shift : Nat} (hlt : significand < 2 * fractionCount)
    (hshift : shift = 0 ∨ fractionCount ≤ significand) :
    lowerEnd (significand + 1 + shift * fractionCount) =
      4 * (significand * Nat.pow 2 shift) + 2 * Nat.pow 2 shift := by
  obtain ⟨hunits, hgap⟩ := units_gap_shift hlt hshift
  rw [Nat.add_right_comm, lowerEnd_succ, upperEnd, hunits, hgap]

/-- The quotient of a number that takes a shift has as many binary digits as fit. -/
theorem fractionCount_le_of_shift (hshift : Nat.log2 (num / den) - 52 ≠ 0) :
    fractionCount * (den * Nat.pow 2 (Nat.log2 (num / den) - 52)) ≤ num := by
  have hlog : 52 < Nat.log2 (num / den) := by omega
  have hne : num / den ≠ 0 := by
    intro hzero
    rw [hzero] at hlog
    exact absurd hlog (by decide)
  have hpow : fractionCount * Nat.pow 2 (Nat.log2 (num / den) - 52) =
      2 ^ Nat.log2 (num / den) := by
    have hsum := Nat.pow_add 2 52 (Nat.log2 (num / den) - 52)
    rw [Nat.add_sub_cancel' hlog.le] at hsum
    exact hsum.symm
  calc fractionCount * (den * Nat.pow 2 (Nat.log2 (num / den) - 52))
      = 2 ^ Nat.log2 (num / den) * den := by rw [← hpow]; ring
    _ ≤ num / den * den := Nat.mul_le_mul_right den (Nat.log2_self_le hne)
    _ ≤ num := Nat.div_mul_le_self num den

/-- The quotient of a number, once shifted, has no more binary digits than fit. -/
theorem lt_of_shift (hden : 0 < den) :
    num < 2 * fractionCount * (den * Nat.pow 2 (Nat.log2 (num / den) - 52)) := by
  have hpow : 2 ^ (Nat.log2 (num / den) + 1) ≤
      2 * fractionCount * Nat.pow 2 (Nat.log2 (num / den) - 52) := by
    have hsum := Nat.pow_add 2 53 (Nat.log2 (num / den) - 52)
    have hdouble : 2 * fractionCount = 2 ^ 53 := by decide
    rw [hdouble]
    exact (Nat.pow_le_pow_right (by decide) (by omega)).trans_eq hsum
  have hquotient : num / den + 1 ≤ 2 * fractionCount * Nat.pow 2 (Nat.log2 (num / den) - 52) :=
    (Nat.succ_le_of_lt Nat.lt_log2_self).trans hpow
  calc num < (num / den + 1) * den := Nat.lt_mul_of_div_lt (Nat.lt_succ_self _) hden
    _ ≤ 2 * fractionCount * Nat.pow 2 (Nat.log2 (num / den) - 52) * den :=
      Nat.mul_le_mul_right den hquotient
    _ = _ := by ring

section Significand

variable {significand shift : Nat} (hfull : shift = 0 ∨ fractionCount ≤ significand)
  (hround : IsRounded num (den * Nat.pow 2 shift) significand)

include hfull hround

/-- A number that is rounded to a significand is not below the interval of its code. -/
theorem lowerEnd_le_of_isRounded (hle : significand ≤ 2 * fractionCount)
    (hge : shift = 0 ∨ fractionCount * (den * Nat.pow 2 shift) ≤ num) :
    lowerEnd (significand + shift * fractionCount) * den ≤ 4 * num ∧
      (lowerEnd (significand + shift * fractionCount) * den = 4 * num → significand % 2 = 0) := by
  obtain ⟨hbelow, -, heven, -⟩ := hround
  by_cases hinner : ∃ before, significand = before + 1 ∧ (shift = 0 ∨ fractionCount ≤ before)
  · obtain ⟨before, rfl, hbefore⟩ := hinner
    have hend : lowerEnd (before + 1 + shift * fractionCount) * den =
        2 * (2 * (before * (den * Nat.pow 2 shift)) + den * Nat.pow 2 shift) := by
      rw [lowerEnd_shift_succ (Nat.lt_of_succ_le hle) hbefore]
      ring
    rw [Nat.add_mul before 1, Nat.one_mul] at hbelow heven
    rw [hend]
    exact ⟨by omega, fun h => heven (by omega)⟩
  · -- at zero and at a power of two the significand is even, and the number is not below it
    have hstart : significand % 2 = 0 ∧ significand * (den * Nat.pow 2 shift) ≤ num := by
      rcases Nat.eq_zero_or_pos significand with rfl | hpos
      · exact ⟨rfl, by omega⟩
      have hshift : shift ≠ 0 := fun h => hinner ⟨significand - 1, by omega, Or.inl h⟩
      rcases Nat.lt_or_eq_of_le (hfull.resolve_left hshift) with hlt | rfl
      · exact absurd ⟨significand - 1, by omega, Or.inr (by omega)⟩ hinner
      · exact ⟨fractionCount_mod_two, hge.resolve_left hshift⟩
    refine ⟨?_, fun _ => hstart.1⟩
    calc lowerEnd (significand + shift * fractionCount) * den
        ≤ 4 * units (significand + shift * fractionCount) * den :=
          Nat.mul_le_mul_right den (lowerEnd_le _)
      _ = 4 * (significand * (den * Nat.pow 2 shift)) := by
          rw [(units_gap_shift_le hle hfull).1]
          ring
      _ ≤ 4 * num := Nat.mul_le_mul_left 4 hstart.2

/-- A number that is rounded to a significand is not above the interval of its code. -/
theorem le_upperEnd_of_isRounded (hle : significand ≤ 2 * fractionCount) :
    4 * num ≤ upperEnd (significand + shift * fractionCount) * den ∧
      (4 * num = upperEnd (significand + shift * fractionCount) * den → significand % 2 = 0) := by
  obtain ⟨-, habove, -, heven⟩ := hround
  obtain ⟨hunits, hgap⟩ := units_gap_shift_le hle hfull
  have hend : 2 * (2 * (significand * (den * Nat.pow 2 shift)) + den * Nat.pow 2 shift) ≤
      upperEnd (significand + shift * fractionCount) * den := by
    rw [upperEnd, hunits]
    calc 2 * (2 * (significand * (den * Nat.pow 2 shift)) + den * Nat.pow 2 shift)
        = (4 * (significand * Nat.pow 2 shift) + 2 * Nat.pow 2 shift) * den := by ring
      _ ≤ _ := Nat.mul_le_mul_right den (Nat.add_le_add_left (Nat.mul_le_mul_left 2 hgap) _)
  exact ⟨by omega, fun h => heven (by omega)⟩

end Significand

/-- A number lies in the rounding interval of the code that it is given. -/
theorem rounds_nearestCode (num : Nat) (hden : 0 < den) :
    Rounds num den (nearestCode num den) := by
  set shift := Nat.log2 (num / den) - 52
  have hstep : 0 < den * Nat.pow 2 shift := Nat.mul_pos hden (Nat.pow_pos (by decide))
  have hcode : nearestCode num den =
      roundHalfEven num (den * Nat.pow 2 shift) + shift * fractionCount := rfl
  have hround := isRounded_roundHalfEven num hstep
  have hlt : num < 2 * fractionCount * (den * Nat.pow 2 shift) := lt_of_shift hden
  have hge : shift = 0 ∨ fractionCount * (den * Nat.pow 2 shift) ≤ num :=
    or_iff_not_imp_left.mpr fractionCount_le_of_shift
  rw [hcode]
  generalize roundHalfEven num (den * Nat.pow 2 shift) = significand at *
  have hle : significand ≤ 2 * fractionCount := by
    by_contra hgt
    have hover := Nat.mul_le_mul_right (den * Nat.pow 2 shift) (Nat.not_le.mp hgt)
    have hbelow := hround.below
    rw [Nat.succ_mul] at hover
    omega
  have hfull : shift = 0 ∨ fractionCount ≤ significand := by
    refine hge.imp_right fun hge => ?_
    by_contra hlt
    have hunder := Nat.mul_le_mul_right (den * Nat.pow 2 shift) (Nat.not_le.mp hlt)
    have habove := hround.above
    rw [Nat.succ_mul] at hunder
    omega
  have heven (h : significand % 2 = 0) : (significand + shift * fractionCount) % 2 = 0 := by
    rw [Nat.add_mod, h, Nat.mul_mod, fractionCount_mod_two]
    rfl
  obtain ⟨hlower, heven_lower⟩ := lowerEnd_le_of_isRounded hfull hround hle hge
  obtain ⟨hupper, heven_upper⟩ := le_upperEnd_of_isRounded hfull hround hle
  exact ⟨hlower, hupper, heven ∘ heven_lower, heven ∘ heven_upper⟩

/-! ### The nearest magnitude -/

/-- The magnitude of a code. There is one for every code, also for those too large to be finite. -/
def magnitude (code : Nat) : ℚ :=
  units code / 2 ^ 1074

/-- A number is rounded to the magnitude of a code: none is nearer, and if another is equally near,
the code is even. -/
structure IsNearest (v : ℚ) (code : Nat) : Prop where
  nearest : ∀ other, |v - magnitude code| ≤ |v - magnitude other|
  even : ∀ other ≠ code, |v - magnitude code| = |v - magnitude other| → code % 2 = 0

theorem abs_sub_left_le_iff {v x y : ℚ} (h : x < y) : |v - x| ≤ |v - y| ↔ 2 * v ≤ x + y := by
  have hfactor : (v - y) ^ 2 - (v - x) ^ 2 = (y - x) * (x + y - 2 * v) := by ring
  rw [← sq_le_sq, ← sub_nonneg, hfactor, mul_nonneg_iff_of_pos_left (sub_pos.mpr h), sub_nonneg]

theorem abs_sub_right_le_iff {v x y : ℚ} (h : x < y) : |v - y| ≤ |v - x| ↔ x + y ≤ 2 * v := by
  have hfactor : (v - x) ^ 2 - (v - y) ^ 2 = (y - x) * (2 * v - (x + y)) := by ring
  rw [← sq_le_sq, ← sub_nonneg, hfactor, mul_nonneg_iff_of_pos_left (sub_pos.mpr h), sub_nonneg]

theorem magnitude_strictMono : StrictMono magnitude := fun _ _ h =>
  div_lt_div_of_pos_right (Nat.cast_lt.mpr (units_strictMono h)) (by positivity)

/-- A rounding interval ends half-way to the next magnitude, or before the middle to a later one. -/
theorem upperEnd_le_of_lt {code other : Nat} (h : code < other) :
    upperEnd code ≤ 2 * (units code + units other) := by
  have hnext := units_strictMono.monotone (Nat.succ_le_of_lt h)
  rw [Nat.succ_eq_add_one, units_succ] at hnext
  rw [upperEnd]
  omega

theorem le_lowerEnd_of_lt {code other : Nat} (h : other < code) :
    2 * (units other + units code) ≤ lowerEnd code := by
  obtain ⟨before, rfl⟩ : ∃ before, code = before + 1 := ⟨code - 1, by omega⟩
  have hbefore := units_strictMono.monotone (Nat.le_of_lt_succ h)
  rw [lowerEnd_succ, upperEnd, units_succ]
  omega

theorem magnitude_add_scale (code other den : Nat) :
    (magnitude code + magnitude other) * (2 ^ 1074 * (2 * den)) =
      (2 * (units code + units other) * den : Nat) := by
  rw [magnitude, magnitude]
  push_cast
  field_simp

/-- A number is rounded to one magnitude only. -/
theorem IsNearest.unique {v : ℚ} {code other : Nat} (h : IsNearest v code)
    (h' : IsNearest v other) : code = other := by
  wlog hlt : code < other generalizing code other
  · rcases Nat.lt_or_eq_of_le (Nat.not_lt.mp hlt) with hlt | heq
    · exact (this h' h hlt).symm
    · exact heq.symm
  -- a magnitude between the two would be nearer than both
  have hbelow := (abs_sub_left_le_iff (magnitude_strictMono code.lt_succ_self)).mp
    (h.nearest (code + 1))
  have habove := (abs_sub_right_le_iff (magnitude_strictMono hlt)).mp (h'.nearest code)
  have hnext : other ≤ code + 1 := by
    rw [← magnitude_strictMono.le_iff_le]
    exact le_of_add_le_add_left (habove.trans hbelow)
  have hdist := le_antisymm (h.nearest other) (h'.nearest code)
  have heven := h.even other hlt.ne' hdist
  have heven' := h'.even code hlt.ne hdist.symm
  omega

section Nearest

variable {v : ℚ} (hv : v = num / den / 2 ^ 1074) (hden : 0 < den)

include hv hden

theorem two_mul_scale : 2 * v * (2 ^ 1074 * (2 * den)) = (4 * num : Nat) := by
  have hden' : (den : ℚ) ≠ 0 := Nat.cast_ne_zero.mpr (Nat.ne_of_gt hden)
  rw [hv]
  push_cast
  field_simp
  ring

/-- Whether a number is at most half-way between two magnitudes. -/
theorem two_mul_le_iff (code other : Nat) : 2 * v ≤ magnitude code + magnitude other ↔
    4 * num ≤ 2 * (units code + units other) * den := by
  have hscale : (0 : ℚ) < 2 ^ 1074 * (2 * den) := by positivity
  rw [← mul_le_mul_iff_of_pos_right hscale, two_mul_scale hv hden, magnitude_add_scale, Nat.cast_le]

theorem le_two_mul_iff (code other : Nat) : magnitude code + magnitude other ≤ 2 * v ↔
    2 * (units code + units other) * den ≤ 4 * num := by
  have hscale : (0 : ℚ) < 2 ^ 1074 * (2 * den) := by positivity
  rw [← mul_le_mul_iff_of_pos_right hscale, two_mul_scale hv hden, magnitude_add_scale, Nat.cast_le]

/-- A number in the interval of a code is rounded to its magnitude. -/
theorem Rounds.isNearest (h : Rounds num den code) : IsNearest v code := by
  have hside (other : Nat) : |v - magnitude code| ≤ |v - magnitude other| ∧
      (other ≠ code → |v - magnitude code| = |v - magnitude other| → code % 2 = 0) := by
    rcases Nat.lt_trichotomy code other with hlt | rfl | hlt
    · have hend := Nat.mul_le_mul_right den (upperEnd_le_of_lt hlt)
      rw [abs_sub_left_le_iff (magnitude_strictMono hlt), two_mul_le_iff hv hden]
      refine ⟨h.upper.trans hend, fun _ heq => h.even_of_upper (le_antisymm h.upper ?_)⟩
      have hmiddle := (abs_sub_right_le_iff (magnitude_strictMono hlt)).mp heq.ge
      exact hend.trans ((le_two_mul_iff hv hden code other).mp hmiddle)
    · exact ⟨le_rfl, fun hne => absurd rfl hne⟩
    · have hend := Nat.mul_le_mul_right den (le_lowerEnd_of_lt hlt)
      rw [abs_sub_right_le_iff (magnitude_strictMono hlt), le_two_mul_iff hv hden]
      refine ⟨hend.trans h.lower, fun _ heq => h.even_of_lower (le_antisymm h.lower ?_)⟩
      have hmiddle := (abs_sub_left_le_iff (magnitude_strictMono hlt)).mp heq.ge
      exact ((two_mul_le_iff hv hden other code).mp hmiddle).trans hend
  exact ⟨fun other => (hside other).1, fun other => (hside other).2⟩

end Nearest

/-- A number in the interval of a code is given that code. -/
theorem Rounds.nearestCode_eq (h : Rounds num den code) (hden : 0 < den) :
    nearestCode num den = code :=
  ((rounds_nearestCode num hden).isNearest rfl hden).unique (h.isNearest rfl hden)

end Binary64

/-! ### Decimals -/

namespace Decimal

/-- The number that a decimal stands for. -/
def value (d : Decimal) : ℚ :=
  d.digits * 10 ^ d.exponent

/-- The number that a decimal stands for, in units, is this over `shrink`. -/
def growth (d : Decimal) : Nat :=
  d.digits * Nat.pow 10 d.exponent.toNat * Nat.pow 2 1074

@[inherit_doc growth]
def shrink (d : Decimal) : Nat :=
  Nat.pow 10 (-d.exponent).toNat

theorem shrink_pos (d : Decimal) : 0 < d.shrink :=
  Nat.pow_pos (by decide)

theorem value_eq (d : Decimal) : d.value = d.growth / d.shrink / 2 ^ 1074 := by
  have hpow : (10 : ℚ) ^ d.exponent =
      10 ^ d.exponent.toNat / 10 ^ (-d.exponent).toNat := by
    cases d.exponent with
    | ofNat n => simp
    | negSucc n => simp [zpow_negSucc]
  have hcast (b n : Nat) : ((Nat.pow b n : Nat) : ℚ) = (b : ℚ) ^ n := Nat.cast_pow b n
  rw [value, growth, shrink, hpow]
  generalize 1074 = n
  rw [Nat.cast_mul, Nat.cast_mul, hcast, hcast, hcast, Nat.cast_ofNat, Nat.cast_ofNat]
  field_simp

end Decimal

namespace Binary64

theorem ofDecimal_eq (negative : Bool) (d : Decimal) :
    ofDecimal negative d = ofCode negative (nearestCode d.growth d.shrink) :=
  rfl

/-- A decimal is rounded to the nearest magnitude, as if there were no largest exponent. Past the
largest finite magnitude this gives infinity. -/
theorem isNearest_nearestCode (d : Decimal) :
    IsNearest d.value (nearestCode d.growth d.shrink) :=
  (rounds_nearestCode _ d.shrink_pos).isNearest d.value_eq d.shrink_pos

end Binary64

end Patchbay
