import Patchbay.Proofs.Compile.Layout
import Patchbay.Proofs.Number.Positional

/-!
# Slots and literals do not get mixed up

An operand of a program is a text: the name of a slot or the form of a literal. `Addressing.IsSlot`
says that a text is the name of some slot, and is decided by reading the index back. Different
indices give different names (`Addressing.slot_inj`), so under either convention different nodes
with a slot have different names (`Layout.naming_slot_inj`).

The form of a literal is never the name of a slot (`Literal.not_isSlot_of_marked`), provided that
identifiers begin with something that numbers do not begin with, such as a letter or an underscore,
and not with a digit or nothing at all.
-/

namespace Patchbay

/-! ### Names of slots -/

namespace Addressing

/-- What stands before the index in the name of a slot. -/
def front (a : Addressing) (stem : String) : List Char :=
  match a with
  | identifiers => stem.toList
  | registers => ['r', '[']

/-- What stands after the index in the name of a slot. -/
def back : Addressing → List Char
  | identifiers => []
  | registers => [']']

theorem slot_toList (a : Addressing) (stem : String) (index : Nat) :
    (a.slot stem index).toList = a.front stem ++ Nat.toDigits 10 index ++ a.back := by
  cases a with
  | identifiers => simp [slot, front, back]
  | registers => simp [slot, front, back]

/-- A text is the name of a slot. -/
def IsSlot (a : Addressing) (stem text : String) : Prop :=
  ∃ index, text = a.slot stem index

/-- The number that follows the front of a text. -/
def indexOf (a : Addressing) (stem text : String) : Nat :=
  Nat.ofDigitChars 10 ((text.toList.drop (a.front stem).length).takeWhile Char.isDigit) 0

/-- The index can be read back from the name of a slot. -/
theorem indexOf_slot (a : Addressing) (stem : String) (index : Nat) :
    a.indexOf stem (a.slot stem index) = index := by
  have hdigits : ∀ c ∈ Nat.toDigits 10 index, c.isDigit := fun c hc =>
    Nat.isDigit_of_mem_toDigits (by decide) (by decide) hc
  have hback : a.back.takeWhile Char.isDigit = [] := by cases a <;> rfl
  rw [indexOf, slot_toList, List.append_assoc, List.drop_left,
    List.takeWhile_append_of_pos hdigits, hback, List.append_nil]
  exact Nat.ofDigitChars_toDigits (by decide) (by decide)

theorem slot_inj {a : Addressing} {stem : String} {i j : Nat} :
    a.slot stem i = a.slot stem j ↔ i = j := by
  refine ⟨fun h => ?_, fun h => h ▸ rfl⟩
  rw [← indexOf_slot a stem i, h, indexOf_slot]

theorem isSlot_slot (a : Addressing) (stem : String) (index : Nat) :
    a.IsSlot stem (a.slot stem index) :=
  ⟨index, rfl⟩

theorem isSlot_iff {a : Addressing} {stem text : String} :
    a.IsSlot stem text ↔ text = a.slot stem (a.indexOf stem text) := by
  refine ⟨?_, fun h => ⟨_, h⟩⟩
  rintro ⟨index, rfl⟩
  rw [indexOf_slot]

instance (a : Addressing) (stem text : String) : Decidable (a.IsSlot stem text) :=
  decidable_of_iff' _ isSlot_iff

end Addressing

/-! ### The slots of a layout -/

namespace Layout

variable {l : Layout} {options : Options} {i j : Nat}

/-- The index in the name of the slot at a position: the position itself, or the number of slots
before it. -/
def slotIndex (l : Layout) : Addressing → (position : Nat) → Nat
  | .identifiers, position => position
  | .registers, position => l.rank position

theorem naming_slot (hi : i < l.nodes.size) : (l.naming options).slot i =
    options.addressing.slot options.stem (l.slotIndex options.addressing i) := by
  cases haddressing : options.addressing with
  | identifiers => simp [naming, Naming.slot, haddressing, slotIndex]
  | registers =>
    have hrank : l.ranks.getD i 0 = l.rank i := by
      rw [Array.getD_eq_getD_getElem?, ranks_getElem? hi, Option.getD_some]
    simp [naming, Naming.slot, haddressing, slotIndex, hrank]

theorem naming_isSlot (hi : i < l.nodes.size) :
    options.addressing.IsSlot options.stem ((l.naming options).slot i) :=
  naming_slot hi ▸ Addressing.isSlot_slot _ _ _

/-- Nodes with a slot have different names. -/
theorem naming_slot_inj {node node' : Node} (hi : l.nodes[i]? = some node)
    (hnode : l.isConstant node = false) (hj : l.nodes[j]? = some node')
    (hnode' : l.isConstant node' = false) :
    (l.naming options).slot i = (l.naming options).slot j ↔ i = j := by
  have hi' : i < l.nodes.size := (Array.getElem?_eq_some_iff.mp hi).1
  have hj' : j < l.nodes.size := (Array.getElem?_eq_some_iff.mp hj).1
  rw [naming_slot hi', naming_slot hj', Addressing.slot_inj]
  cases options.addressing with
  | identifiers => rfl
  | registers =>
    refine ⟨fun h => ?_, fun h => h ▸ rfl⟩
    rcases Nat.lt_trichotomy i j with hlt | heq | hgt
    · exact absurd h (rank_lt_rank hi hnode hlt).ne
    · exact heq
    · exact absurd h (rank_lt_rank hj hnode' hgt).ne'

end Layout

/-! ### Forms of literals -/

/-- The form of a number begins with a sign, or ends in a letter, or is digits and a point. -/
theorem Binary64.textChars_cases (x : Binary64) :
    x.textChars = ['N', 'a', 'N'] ∨ x.textChars = ['i', 'n', 'f'] ∨
      (∃ rest, x.textChars = '-' :: rest) ∨ ∀ c ∈ x.textChars, c.isDigit ∨ c = '.' := by
  rw [textChars, magnitudeText]
  split
  · exact .inl rfl
  split
  · exact .inr (.inr (.inl ⟨_, rfl⟩))
  split
  · exact .inr (.inl rfl)
  refine .inr (.inr (.inr fun c hc => ?_))
  split at hc
  · rw [List.mem_singleton.mp hc]
    exact .inl rfl
  · exact Decimal.isDigit_of_mem_positional hc

/-- Identifiers begin with something that numbers do not begin with: neither a digit, nor a sign,
nor a point. A letter of any script or an underscore will do. Registers always begin with `r`. -/
def Addressing.Marked (a : Addressing) (stem : String) : Prop :=
  a = .identifiers → ∃ c rest, stem.toList = c :: rest ∧ c.isDigit = false ∧ c ≠ '-' ∧ c ≠ '.'

/-- Identifiers begin with a letter of the alphabet or an underscore. -/
def Addressing.Lettered (a : Addressing) (stem : String) : Prop :=
  a = .identifiers → ∃ c rest, stem.toList = c :: rest ∧ (c.isAlpha ∨ c = '_')

namespace Addressing

variable {a : Addressing} {stem : String}

theorem Marked.exists_front (h : a.Marked stem) :
    ∃ c rest, a.front stem = c :: rest ∧ c.isDigit = false ∧ c ≠ '-' ∧ c ≠ '.' := by
  cases a with
  | identifiers => exact h rfl
  | registers => exact ⟨'r', ['['], rfl, rfl, by decide, by decide⟩

/-- A letter is not a digit. -/
private theorem isDigit_of_isAlpha {c : Char} (h : c.isAlpha) : c.isDigit = false := by
  rw [Bool.eq_false_iff]
  intro hdigit
  delta Char.isAlpha Char.isUpper Char.isLower at h
  delta Char.isDigit at hdigit
  simp only [Bool.or_eq_true, Bool.and_eq_true, decide_eq_true_eq, ge_iff_le,
    UInt32.le_iff_toNat_le] at h hdigit
  revert h hdigit
  simp
  omega

theorem Lettered.marked (h : a.Lettered stem) : a.Marked stem := by
  intro hidentifiers
  obtain ⟨c, rest, hstem, hc⟩ := h hidentifiers
  refine ⟨c, rest, hstem, ?_⟩
  rcases hc with halpha | rfl
  · refine ⟨isDigit_of_isAlpha halpha, ?_, ?_⟩ <;> rintro rfl <;> revert halpha <;> decide
  · decide

/-- The name of a slot ends in a digit or a bracket. -/
theorem slot_getLast? (a : Addressing) (stem : String) (index : Nat) :
    ∃ c, (a.slot stem index).toList.getLast? = some c ∧ (c.isDigit ∨ c = ']') := by
  rw [slot_toList]
  cases a with
  | registers => exact ⟨']', by simp [back], .inr rfl⟩
  | identifiers =>
    have hne : Nat.toDigits 10 index ≠ [] := Nat.toDigits_ne_nil
    refine ⟨(Nat.toDigits 10 index).getLast hne, ?_, .inl ?_⟩
    · rw [back, List.append_nil, List.getLast?_append_of_ne_nil _ hne,
        List.getLast?_eq_getLast_of_ne_nil hne]
    · exact Nat.isDigit_of_mem_toDigits (by decide) (by decide) (List.getLast_mem hne)

end Addressing

/-- The form of a literal is not the name of a slot. -/
theorem Literal.not_isSlot_of_marked (l : Literal) {a : Addressing} {stem : String}
    (h : a.Marked stem) : ¬ a.IsSlot stem l.form := by
  rintro ⟨index, hslot⟩
  obtain ⟨first, rest, hfront, hdigit, hsign, hpoint⟩ := h.exists_front
  have hchars : l.formChars = (a.slot stem index).toList := by
    rw [← hslot, form, String.toList_ofList]
  have hhead : l.formChars = first :: (rest ++ Nat.toDigits 10 index ++ a.back) := by
    rw [hchars, Addressing.slot_toList, hfront]
    simp
  obtain ⟨last, hlast, hlast'⟩ := a.slot_getLast? stem index
  rw [← hchars] at hlast
  cases l with
  | text value =>
    -- a text ends in a quote
    have hquote : (text value).formChars =
        ('"' :: value.toList.flatMap (Text.quoteCharWith Text.isHidden)) ++ ['"'] := rfl
    rw [hquote, List.getLast?_concat, Option.some.injEq] at hlast
    subst hlast
    revert hlast'
    decide
  | number value =>
    rw [formChars] at hhead hlast
    rcases value.textChars_cases with hnan | hinf | ⟨rest, hminus⟩ | hdigits
    · obtain rfl : last = 'N' := by simpa [hnan, eq_comm] using hlast
      revert hlast'
      decide
    · obtain rfl : last = 'f' := by simpa [hinf, eq_comm] using hlast
      revert hlast'
      decide
    · exact hsign (List.cons.inj (hminus.symm.trans hhead)).1.symm
    · rcases hdigits first (by rw [hhead]; exact List.mem_cons_self) with hfirst | hfirst
      · exact Bool.false_ne_true (hdigit.symm.trans hfirst)
      · exact hpoint hfirst

theorem Literal.not_isSlot (l : Literal) {a : Addressing} {stem : String} (h : a.Lettered stem) :
    ¬ a.IsSlot stem l.form :=
  l.not_isSlot_of_marked h.marked

end Patchbay
