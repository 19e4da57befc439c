import Mathlib.Tactic.IntervalCases
import Patchbay.Text.Quoted

/-!
# Reading back quoted text

A quoted form can be read back (`unquote?_quoteCharsWith`), it ends at its first unescaped quote
(`afterQuote?_quoteCharsWith`), and it stays on its line (`lineFeed_notMem_quoteCharsWith`). Nothing
of this depends on which characters count as hidden: a character that is written by number is read
back from the number, and one that is not is read back as it is. So the set of hidden characters is
a parameter here, and `quoteChars` is the case of `isHidden`.
-/

namespace Patchbay.Text

variable (hidden : Char → Bool)

/-- The characters with an escape of their own, and the letters of these escapes. -/
def shortEscapes : List (Char × Char) :=
  [('"', '"'), ('\\', '\\'), ('\n', 'n'), ('\r', 'r'), ('\t', 't'), ('\x00', '0')]

/-- The three ways to write a character. -/
theorem quoteCharWith_cases (c : Char) :
    (∃ letter, (c, letter) ∈ shortEscapes ∧ quoteCharWith hidden c = ['\\', letter]) ∨
      quoteCharWith hidden c = ['\\', 'u', '\x7b'] ++ (hexDigits c.toNat ++ ['\x7d']) ∨
      (quoteCharWith hidden c = [c] ∧ c ≠ '"' ∧ c ≠ '\\' ∧ c ≠ '\n') := by
  unfold quoteCharWith
  split
  · exact .inl ⟨'"', by decide, rfl⟩
  · exact .inl ⟨'\\', by decide, rfl⟩
  · exact .inl ⟨'n', by decide, rfl⟩
  · exact .inl ⟨'r', by decide, rfl⟩
  · exact .inl ⟨'t', by decide, rfl⟩
  · exact .inl ⟨'0', by decide, rfl⟩
  · next hquote hbackslash hfeed _ _ _ =>
    split
    · exact .inr (.inl rfl)
    · exact .inr (.inr ⟨rfl, hquote, hbackslash, hfeed⟩)

/-! ### Numbers in escapes -/

theorem unquoteBody_digit {d : Nat} (hd : d < 16) (code : Nat) (rest : List Char) :
    unquoteBody (some code) (d.digitChar :: rest) = unquoteBody (some (16 * code + d)) rest := by
  interval_cases d <;> rfl

/-- The digits of a number are read as the number. -/
theorem unquoteBody_hexDigits (n : Nat) (rest : List Char) :
    unquoteBody (some 0) (hexDigits n ++ rest) = unquoteBody (some n) rest := by
  rw [hexDigits]
  induction n using Nat.strongRecOn generalizing rest with
  | ind n ih =>
    by_cases hn : n < 16
    · rw [Nat.toDigits_of_lt_base hn, List.singleton_append, unquoteBody_digit hn,
        Nat.mul_zero, Nat.zero_add]
    · have hlt : n / 16 < n := by omega
      rw [Nat.toDigits_of_base_le (by decide) (by omega), List.append_assoc, List.singleton_append,
        ih (n / 16) hlt, unquoteBody_digit (Nat.mod_lt n (by decide)), Nat.div_add_mod]

theorem charOfCode?_toNat (c : Char) : charOfCode? c.toNat = some c := by
  have hvalid : c.toNat.isValidChar := c.valid
  rw [charOfCode?, if_pos hvalid, Char.ofNat_toNat]

theorem isAlphanum_of_mem_hexDigits {n : Nat} {c : Char} (h : c ∈ hexDigits n) : c.isAlphanum := by
  rw [hexDigits] at h
  induction n using Nat.strongRecOn with
  | ind n ih =>
    have hdigit : ∀ d < 16, d.digitChar.isAlphanum := by decide
    by_cases hn : n < 16
    · rw [Nat.toDigits_of_lt_base hn, List.mem_singleton] at h
      exact h ▸ hdigit n hn
    · rw [Nat.toDigits_of_base_le (by decide) (by omega), List.mem_append, List.mem_singleton] at h
      rcases h with h | rfl
      · exact ih (n / 16) (by omega) h
      · exact hdigit _ (Nat.mod_lt n (by decide))

/-! ### Reading back -/

theorem unquoteBody_shortEscape {c letter : Char} (h : (c, letter) ∈ shortEscapes)
    (rest : List Char) :
    unquoteBody none ('\\' :: letter :: rest) = (unquoteBody none rest).map (c :: ·) := by
  simp only [shortEscapes, List.mem_cons, Prod.mk.injEq, List.not_mem_nil, or_false] at h
  rcases h with ⟨rfl, rfl⟩ | ⟨rfl, rfl⟩ | ⟨rfl, rfl⟩ | ⟨rfl, rfl⟩ | ⟨rfl, rfl⟩ | ⟨rfl, rfl⟩ <;> rfl

/-- A written character is read as that character. -/
theorem unquoteBody_quoteCharWith (c : Char) (rest : List Char) :
    unquoteBody none (quoteCharWith hidden c ++ rest) = (unquoteBody none rest).map (c :: ·) := by
  rcases quoteCharWith_cases hidden c with ⟨letter, hletter, heq⟩ | heq |
      ⟨heq, hquote, hbackslash, -⟩
  · rw [heq]
    exact unquoteBody_shortEscape hletter rest
  · have hopen : unquoteBody none (quoteCharWith hidden c ++ rest) =
        unquoteBody (some 0) (hexDigits c.toNat ++ '\x7d' :: rest) := by
      rw [heq, List.append_assoc, List.append_assoc]
      rfl
    rw [hopen, unquoteBody_hexDigits, unquoteBody, charOfCode?_toNat]
    cases unquoteBody none rest <;> rfl
  · rw [heq, List.singleton_append, unquoteBody, if_neg (by simp [hquote, hbackslash])]
    all_goals simp [hquote, hbackslash]

/-- A quoted form is read as the text that it was made from. -/
theorem unquote?_quoteCharsWith (cs : List Char) :
    unquote? (quoteCharsWith hidden cs) = some cs := by
  rw [quoteCharsWith, unquote?]
  induction cs with
  | nil => rfl
  | cons c cs ih =>
    rw [List.flatMap_cons, List.append_assoc, unquoteBody_quoteCharWith, ih, Option.map_some]

/-! ### Where a form ends -/

/-- What follows the first unescaped quote of a text. A backslash escapes the character after it. -/
def afterQuote? : List Char → Option (List Char)
  | '\\' :: _ :: rest => afterQuote? rest
  | '"' :: rest => some rest
  | _ :: rest => afterQuote? rest
  | [] => none

theorem length_le_of_afterQuote? {cs rest : List Char} (h : afterQuote? cs = some rest) :
    rest.length ≤ cs.length := by
  fun_induction afterQuote? cs with
  | case1 c cs ih =>
    have hle := ih h
    simp only [List.length_cons]
    omega
  | case2 cs => rw [Option.some.inj h, List.length_cons]; exact Nat.le_succ _
  | case3 c cs _ _ ih => exact (ih h).trans (Nat.le_succ _)
  | case4 => cases h

theorem afterQuote?_cons {c : Char} (hquote : c ≠ '"') (hbackslash : c ≠ '\\')
    (rest : List Char) : afterQuote? (c :: rest) = afterQuote? rest := by
  rw [afterQuote?]
  · exact fun _ _ h => absurd h hbackslash
  · exact hquote

theorem afterQuote?_of_isAlphanum {cs : List Char} (h : ∀ c ∈ cs, c.isAlphanum)
    (rest : List Char) : afterQuote? (cs ++ rest) = afterQuote? rest := by
  induction cs with
  | nil => rfl
  | cons c cs ih =>
    have hc := h c List.mem_cons_self
    have hquote : c ≠ '"' := fun heq => absurd (heq ▸ hc) (by decide)
    have hbackslash : c ≠ '\\' := fun heq => absurd (heq ▸ hc) (by decide)
    rw [List.cons_append, afterQuote?_cons hquote hbackslash,
      ih fun c' hc' => h c' (List.mem_cons_of_mem _ hc')]

/-- A written character has no unescaped quote. -/
theorem afterQuote?_quoteCharWith (c : Char) (rest : List Char) :
    afterQuote? (quoteCharWith hidden c ++ rest) = afterQuote? rest := by
  rcases quoteCharWith_cases hidden c with ⟨letter, -, heq⟩ | heq | ⟨heq, hquote, hbackslash, -⟩
  · rw [heq]
    rfl
  · have hopen : afterQuote? (quoteCharWith hidden c ++ rest) =
        afterQuote? (hexDigits c.toNat ++ '\x7d' :: rest) := by
      rw [heq, List.append_assoc, List.append_assoc]
      rfl
    rw [hopen, afterQuote?_of_isAlphanum fun _ => isAlphanum_of_mem_hexDigits]
    rfl
  · rw [heq, List.singleton_append, afterQuote?_cons hquote hbackslash]

/-- The first unescaped quote after the one that opens a form is the one that closes it, whatever
follows. -/
theorem afterQuote?_quoteCharsWith (cs rest : List Char) :
    afterQuote? ((quoteCharsWith hidden cs).tail ++ rest) = some rest := by
  rw [quoteCharsWith, List.tail_cons, List.append_assoc]
  induction cs with
  | nil => rfl
  | cons c cs ih => rw [List.flatMap_cons, List.append_assoc, afterQuote?_quoteCharWith, ih]

/-! ### Forms on a line -/

theorem lineFeed_notMem_quoteCharWith (c : Char) : '\n' ∉ quoteCharWith hidden c := by
  rcases quoteCharWith_cases hidden c with ⟨letter, hletter, heq⟩ | heq | ⟨heq, -, -, hfeed⟩
  · have hletters : ∀ escape ∈ shortEscapes, '\n' ∉ ['\\', escape.2] := by decide
    rw [heq]
    exact hletters _ hletter
  · have hdigits : '\n' ∉ hexDigits c.toNat := fun h =>
      absurd (isAlphanum_of_mem_hexDigits h) (by decide)
    rw [heq]
    simp [hdigits]
  · rw [heq, List.mem_singleton]
    exact hfeed.symm

/-- A quoted form stays on its line, whatever the text is. -/
theorem lineFeed_notMem_quoteCharsWith (cs : List Char) : '\n' ∉ quoteCharsWith hidden cs := by
  simp [quoteCharsWith, lineFeed_notMem_quoteCharWith]

end Patchbay.Text
