import Mathlib.Data.List.TakeWhile
import Patchbay.Number.Positional

/-!
# Reading back positional notation

What a number is written with: digits, a point and a sign, or the letters of `inf` and `NaN`. There
is no exponent, and the text of a finite number is read as the decimal that it was written from
(`Decimal.ofPositional?_positional`), except that zeros at its end become digits.
-/

namespace Patchbay

namespace Decimal

variable {c : Char} {cs : List Char} {n : Nat}

theorem isDigit_of_mem_toDigits (h : c ∈ Nat.toDigits 10 n) : c.isDigit :=
  Nat.isDigit_of_mem_toDigits (by decide) (by decide) h

theorem isDigit_of_mem_replicate (h : c ∈ List.replicate n '0') : c.isDigit := by
  rw [List.eq_of_mem_replicate h]
  rfl

/-- The digits of a decimal, with zeros before them up to one more than its number of places. -/
def padded (d : Decimal) : List Char :=
  List.replicate ((-d.exponent).toNat + 1 - (Nat.toDigits 10 d.digits).length) '0' ++
    Nat.toDigits 10 d.digits

theorem isDigit_of_mem_padded {d : Decimal} (h : c ∈ d.padded) : c.isDigit :=
  (List.mem_append.mp h).elim isDigit_of_mem_replicate isDigit_of_mem_toDigits

theorem places_lt_length_padded (d : Decimal) : (-d.exponent).toNat < d.padded.length := by
  rw [padded, List.length_append, List.length_replicate]
  omega

theorem positional_of_whole {d : Decimal} (h : (-d.exponent).toNat = 0) :
    d.positional = Nat.toDigits 10 d.digits ++ List.replicate d.exponent.toNat '0' := by
  rw [positional, if_pos h]

theorem positional_of_places {d : Decimal} (h : (-d.exponent).toNat ≠ 0) :
    d.positional = d.padded.take (d.padded.length - (-d.exponent).toNat) ++
      '.' :: d.padded.drop (d.padded.length - (-d.exponent).toNat) := by
  rw [positional, if_neg h]
  rfl

/-- A number in positional notation is digits and a point. -/
theorem isDigit_of_mem_positional {d : Decimal} (h : c ∈ d.positional) : c.isDigit ∨ c = '.' := by
  by_cases hplaces : (-d.exponent).toNat = 0
  · rw [positional_of_whole hplaces] at h
    exact .inl ((List.mem_append.mp h).elim isDigit_of_mem_toDigits isDigit_of_mem_replicate)
  · rw [positional_of_places hplaces] at h
    rcases List.mem_append.mp h with h | h
    · exact .inl (isDigit_of_mem_padded (List.mem_of_mem_take h))
    rcases List.mem_cons.mp h with h | h
    · exact .inr h
    · exact .inl (isDigit_of_mem_padded (List.mem_of_mem_drop h))

/-! ### Reading digits -/

theorem naturalOfDigits?_eq_some (hne : cs ≠ []) (h : ∀ c ∈ cs, c.isDigit) :
    naturalOfDigits? cs = some (Nat.ofDigitChars 10 cs 0) := by
  have hdigits : cs.all Char.isDigit = true := List.all_eq_true.mpr h
  rw [naturalOfDigits?, if_neg (by simp [hne, hdigits])]
  rfl

theorem ne_point_of_isDigit (h : c.isDigit) : c ≠ '.' := by
  rintro rfl
  exact absurd h (by decide)

/-- A run of digits is a whole number. -/
theorem ofPositional?_of_isDigit (hne : cs ≠ []) (h : ∀ c ∈ cs, c.isDigit) :
    ofPositional? cs = some ⟨Nat.ofDigitChars 10 cs 0, 0⟩ := by
  have hpoint : ∀ c ∈ cs, decide (c ≠ '.') = true := fun c hc =>
    decide_eq_true (ne_point_of_isDigit (h c hc))
  rw [ofPositional?, List.takeWhile_eq_self_iff.mpr hpoint, List.dropWhile_eq_nil_iff.mpr hpoint]
  simp [naturalOfDigits?_eq_some hne h]

/-- The digits after the point are places. -/
theorem ofPositional?_point {whole fraction : List Char} (hwhole : whole ≠ [])
    (hfraction : fraction ≠ []) (h : ∀ c ∈ whole ++ fraction, c.isDigit) :
    ofPositional? (whole ++ '.' :: fraction) =
      some ⟨Nat.ofDigitChars 10 (whole ++ fraction) 0, -fraction.length⟩ := by
  have hpoint : ∀ c ∈ whole, decide (c ≠ '.') = true := fun c hc =>
    decide_eq_true (ne_point_of_isDigit (h c (List.mem_append_left _ hc)))
  have hread : ∀ cs ⊆ whole ++ fraction, cs ≠ [] →
      naturalOfDigits? cs = some (Nat.ofDigitChars 10 cs 0) := fun cs hcs hne =>
    naturalOfDigits?_eq_some hne fun c hc => h c (hcs hc)
  rw [ofPositional?, List.takeWhile_append_of_pos hpoint, List.dropWhile_append_of_pos hpoint]
  simp [hread whole (List.subset_append_left _ _) hwhole,
    hread fraction (List.subset_append_right _ _) hfraction,
    hread (whole ++ fraction) (List.Subset.refl _) (by simp [hwhole])]

theorem ofDigitChars_padded (d : Decimal) : Nat.ofDigitChars 10 d.padded 0 = d.digits := by
  rw [padded, Nat.ofDigitChars_append, Nat.ofDigitChars_replicate_zero, Nat.mul_zero]
  exact Nat.ofDigitChars_toDigits (by decide) (by decide)

/-- A decimal with the zeros at its end made digits, if its exponent is not negative. -/
def spelled (d : Decimal) : Decimal :=
  if (-d.exponent).toNat = 0 then ⟨d.digits * Nat.pow 10 d.exponent.toNat, 0⟩ else d

/-- Positional notation is read as the decimal that it spells. -/
theorem ofPositional?_positional (d : Decimal) : ofPositional? d.positional = some d.spelled := by
  rw [spelled]
  by_cases hplaces : (-d.exponent).toNat = 0
  · have hvalue : Nat.ofDigitChars 10
        (Nat.toDigits 10 d.digits ++ List.replicate d.exponent.toNat '0') 0 =
          d.digits * Nat.pow 10 d.exponent.toNat := by
      rw [Nat.ofDigitChars_append, Nat.ofDigitChars_toDigits (by decide) (by decide),
        Nat.ofDigitChars_replicate_zero, Nat.mul_comm]
      rfl
    rw [if_pos hplaces, positional_of_whole hplaces, ofPositional?_of_isDigit, hvalue]
    · simp [Nat.toDigits_ne_nil]
    · exact fun c hc =>
        (List.mem_append.mp hc).elim isDigit_of_mem_toDigits isDigit_of_mem_replicate
  · have hlength := d.places_lt_length_padded
    have hexponent : -((-d.exponent).toNat : Int) = d.exponent := by omega
    rw [if_neg hplaces, positional_of_places hplaces, ofPositional?_point, List.take_append_drop,
      ofDigitChars_padded, List.length_drop, Nat.sub_sub_self (Nat.le_of_lt hlength), hexponent]
    · exact List.ne_nil_of_length_pos (by rw [List.length_take]; omega)
    · exact List.ne_nil_of_length_pos (by rw [List.length_drop]; omega)
    · rw [List.take_append_drop]
      exact fun c => isDigit_of_mem_padded

theorem positional_ne_nil (d : Decimal) : d.positional ≠ [] := by
  intro h
  have hread := ofPositional?_positional d
  rw [h] at hread
  cases hread

end Decimal

namespace Binary64

theorem textChars_ne_nil (x : Binary64) : x.textChars ≠ [] := by
  have hmagnitude : x.magnitudeText ≠ [] := by
    rw [magnitudeText]
    split
    · exact List.cons_ne_nil _ _
    split
    · exact List.cons_ne_nil _ _
    · exact Decimal.positional_ne_nil _
  rw [textChars]
  split
  · exact List.cons_ne_nil _ _
  split
  · exact List.cons_ne_nil _ _
  · exact hmagnitude

/-- The characters of a number without sign. -/
theorem mem_magnitudeText {x : Binary64} {c : Char} (h : c ∈ x.magnitudeText) :
    c.isDigit ∨ c ∈ ['.', 'i', 'n', 'f'] := by
  rw [magnitudeText] at h
  split at h
  · exact .inr (List.mem_cons_of_mem _ h)
  split at h
  · rw [List.mem_singleton.mp h]
    exact .inl rfl
  · rcases Decimal.isDigit_of_mem_positional h with hdigit | rfl
    · exact .inl hdigit
    · exact .inr List.mem_cons_self

/-- The characters of a number. -/
theorem mem_textChars {x : Binary64} {c : Char} (h : c ∈ x.textChars) :
    c.isDigit ∨ c ∈ ['-', '.', 'i', 'n', 'f', 'N', 'a'] := by
  rw [textChars] at h
  split at h
  · have hletters : ['N', 'a', 'N'] ⊆ ['-', '.', 'i', 'n', 'f', 'N', 'a'] := by simp
    exact .inr (hletters h)
  have hmagnitude : c ∈ x.magnitudeText → c.isDigit ∨ c ∈ ['-', '.', 'i', 'n', 'f', 'N', 'a'] := by
    intro hc
    have hletters : ['.', 'i', 'n', 'f'] ⊆ ['-', '.', 'i', 'n', 'f', 'N', 'a'] := by simp
    exact (mem_magnitudeText hc).imp_right fun hc => hletters hc
  split at h
  · rcases List.mem_cons.mp h with rfl | h
    · exact .inr List.mem_cons_self
    · exact hmagnitude h
  · exact hmagnitude h

end Binary64

end Patchbay
