import Patchbay.Literal
import Patchbay.Proofs.Number.Shortest
import Patchbay.Proofs.Text.Quoted

/-!
# Literals by their text forms

The text form of a literal says which literal it is. A text is read back from its form with the
escapes of quoted text, a number with correct rounding, and no text has the form of a number. So
only literals that are not a number share a form (`Literal.form_determines_literal`). The set of
hidden characters plays no part in this and is arbitrary.
-/

namespace Patchbay

/-! ### Texts -/

/-- A form from which a text can be read, up to the first quote that is not escaped. -/
structure Text.ReadsBack (s form : String) : Prop where
  read : unquote? form.toList = some s.toList
  /-- The form opens with a quote, and the next unescaped quote is its last character. -/
  closed : ∃ rest, form.toList = '"' :: rest ∧ afterQuote? rest = some []

/-! ### Numbers -/

namespace Binary64

theorem toBits_ofBits (bits : UInt64) : (ofBits bits).toBits = bits := by
  have hsplit (half n : Nat) (h : n < 2 * half) :
      (if decide (half ≤ n) = true then half else 0) + n % half = n := by
    by_cases hge : half ≤ n
    · rw [if_pos (decide_eq_true hge), Nat.mod_eq_sub_mod hge, Nat.mod_eq_of_lt (by omega)]
      omega
    · rw [if_neg (by simpa using hge), Nat.mod_eq_of_lt (by omega), Nat.zero_add]
  rw [toBits, ofBits, hsplit (Nat.pow 2 63) bits.toNat bits.toNat_lt, UInt64.ofNat_toNat]

/-- The sign of a number, as it is written. -/
def signText (x : Binary64) : List Char :=
  if x.negative then ['-'] else []

theorem textChars_eq {x : Binary64} (h : x.isNaN = false) :
    x.textChars = x.signText ++ x.magnitudeText := by
  rw [textChars, h, if_neg Bool.false_ne_true, signText]
  split <;> rfl

/-- A form from which the number with a given pattern of bits can be read. -/
structure ReadsBack (bits : UInt64) (form : String) : Prop where
  read : (read? form.toList).map toBits = some bits
  /-- After the sign, a finite number has digits with at most one point among them. Its magnitude is
  the one that the decimal made of these digits is rounded to. -/
  nearest : (ofBits bits).isInfinite = false → ∃ digits d,
    form.toList = (ofBits bits).signText ++ digits ∧ Decimal.ofPositional? digits = some d ∧
      ∀ code, IsNearest d.value code ↔ code = (ofBits bits).code
  /-- There is no exponent. -/
  plain : 'e' ∉ form.toList ∧ 'E' ∉ form.toList

theorem readsBack_text {bits : UInt64} (h : (ofBits bits).isNaN = false) :
    ReadsBack bits (ofBits bits).text := by
  have htext : (ofBits bits).text.toList = (ofBits bits).textChars := String.toList_ofList
  refine ⟨?_, fun hfinite => ?_, ?_⟩ <;> rw [htext]
  · rw [read?_textChars h, Option.map_some, toBits_ofBits]
  · obtain ⟨d, hread, hcode⟩ := exists_ofPositional?_magnitudeText hfinite
    have hnearest := isNearest_nearestCode d
    rw [hcode] at hnearest
    refine ⟨_, d, textChars_eq h, hread, fun code => ⟨fun h => h.unique hnearest, ?_⟩⟩
    rintro rfl
    exact hnearest
  · exact ⟨fun he => absurd (mem_textChars he) (by decide),
      fun he => absurd (mem_textChars he) (by decide)⟩

/-- Two doubles are written alike only if they are the same or neither is a number. -/
theorem text_eq_iff {x y : Binary64} : x.text = y.text ↔ x = y ∨ x.isNaN ∧ y.isNaN := by
  rw [text, text, String.ofList_inj]
  constructor
  · intro heq
    have hread := congrArg read? heq
    cases hx : x.isNaN <;> cases hy : y.isNaN
    · rw [read?_textChars hx, read?_textChars hy] at hread
      exact .inl (Option.some.inj hread)
    · rw [read?_textChars hx, read?_textChars_of_isNaN hy] at hread
      cases hread
    · rw [read?_textChars_of_isNaN hx, read?_textChars hy] at hread
      cases hread
    · exact .inr ⟨rfl, rfl⟩
  · rintro (rfl | ⟨hx, hy⟩)
    · rfl
    · rw [textChars, textChars, if_pos hx, if_pos hy]

end Binary64

/-! ### Literals -/

namespace Literal

/-- The text form of a literal, for any set of hidden characters. -/
def formWith (hidden : Char → Bool) : Literal → String
  | number value => value.text
  | text value => String.ofList (Text.quoteCharsWith hidden value.toList)

theorem form_eq_formWith (l : Literal) : l.form = l.formWith Text.isHidden := by
  cases l <;> rfl

/-- Whether a literal is a number that is not one. -/
def isNaN : Literal → Bool
  | number value => value.isNaN
  | text _ => false

variable {hidden : Char → Bool}

theorem readsBack_formWith_text (s : String) : Text.ReadsBack s ((text s).formWith hidden) := by
  have hform : ((text s).formWith hidden).toList = Text.quoteCharsWith hidden s.toList :=
    String.toList_ofList
  refine ⟨?_, ?_⟩ <;> rw [hform]
  · exact Text.unquote?_quoteCharsWith hidden s.toList
  · have hclosed := Text.afterQuote?_quoteCharsWith hidden s.toList []
    rw [List.append_nil] at hclosed
    exact ⟨_, rfl, hclosed⟩

/-- A number and a text are written differently. -/
theorem formWith_number_ne (x : Binary64) (s : String) :
    (number x).formWith hidden ≠ (text s).formWith hidden := by
  intro heq
  have hquote : '"' ∈ ((number x).formWith hidden).toList := by
    obtain ⟨rest, hform, -⟩ := (readsBack_formWith_text s : Text.ReadsBack s _).closed
    rw [heq, hform]
    exact List.mem_cons_self
  have hchars : ((number x).formWith hidden).toList = x.textChars := String.toList_ofList
  exact absurd (Binary64.mem_textChars (hchars ▸ hquote)) (by decide)

/-- Two literals are written alike only if they are the same or neither is a number. -/
theorem formWith_eq_iff {l l' : Literal} :
    l.formWith hidden = l'.formWith hidden ↔ l = l' ∨ l.isNaN ∧ l'.isNaN := by
  cases l with
  | number x =>
    cases l' with
    | number y =>
      rw [number.injEq]
      exact Binary64.text_eq_iff
    | text s => simp [formWith_number_ne, isNaN]
  | text s =>
    cases l' with
    | number y => simp [(formWith_number_ne y s).symm, isNaN]
    | text s' =>
      constructor
      · intro heq
        have hread : Text.ReadsBack s ((text s).formWith hidden) := readsBack_formWith_text s
        have hsame := hread.read
        rw [heq, (readsBack_formWith_text s').read] at hsame
        rw [String.toList_inj.mp (Option.some.inj hsame)]
        exact .inl rfl
      · rintro (heq | ⟨hnan, -⟩)
        · rw [heq]
        · cases hnan

/-- A literal can be read from its text form, whatever characters are hidden: a text by undoing the
escapes, a number by rounding correctly. So the form determines the literal, up to the doubles that
are not a number. -/
theorem form_determines_literal :
    (∀ l : Literal, l.form = l.formWith Text.isHidden) ∧
      ∀ hidden : Char → Bool,
        (∀ s : String, Text.ReadsBack s ((text s).formWith hidden)) ∧
        (∀ bits : UInt64, (Binary64.ofBits bits).isNaN = false →
          Binary64.ReadsBack bits ((number (.ofBits bits)).formWith hidden)) ∧
        ∀ l l' : Literal,
          l.formWith hidden = l'.formWith hidden ↔ l = l' ∨ l.isNaN ∧ l'.isNaN :=
  ⟨form_eq_formWith, fun _ => ⟨readsBack_formWith_text, fun _ => Binary64.readsBack_text,
    fun _ _ => formWith_eq_iff⟩⟩

/-- The first double past the whole numbers that all are doubles; the one before it is half as far
away as the one after it. -/
theorem form_determines_two_pow_53 :
    (Binary64.ofBits 0x4340000000000000).isNaN = false ∧
      Binary64.ReadsBack 0x4340000000000000
        ((number (.ofBits 0x4340000000000000)).formWith Text.isHidden) :=
  ⟨by decide, (form_determines_literal.2 Text.isHidden).2.1 _ (by decide)⟩

end Literal

end Patchbay
