import Mathlib.Data.List.TakeWhile
import Patchbay.Text.Blank

/-!
# Trimming

Trimming a text takes nothing but blanks off its two ends, and leaves no blank there. The two
together determine what is left (`trimsTo_iff`).
-/

namespace Patchbay.Text

variable {s t : String}

/-- What begins with no character of some kind loses none at its front. -/
theorem dropWhile_of_head? {p : Char → Bool} {cs : List Char} (h : ∀ c ∈ cs.head?, ¬ p c) :
    cs.takeWhile p = [] ∧ cs.dropWhile p = cs := by
  cases cs with
  | nil => exact ⟨rfl, rfl⟩
  | cons c cs => simp [show p c = false by simpa using h c rfl]

theorem not_of_mem_head?_dropWhile {p : Char → Bool} {cs : List Char} {c : Char}
    (h : c ∈ (cs.dropWhile p).head?) : ¬ p c := by
  have hnot := List.head?_dropWhile_not p cs
  rw [h] at hnot
  simpa using hnot

/-- One text is another without the blanks at its ends. -/
structure TrimsTo (s t : String) : Prop where
  parts : ∃ front back, s.toList = front ++ t.toList ++ back ∧
    (∀ c ∈ front, isBlank c) ∧ ∀ c ∈ back, isBlank c
  first : ∀ c ∈ t.toList.head?, ¬ isBlank c
  last : ∀ c ∈ t.toList.getLast?, ¬ isBlank c

theorem trimsTo_trim (s : String) : TrimsTo s (trim s) := by
  have htrim : (trim s).toList =
      ((s.toList.dropWhile isBlank).reverse.dropWhile isBlank).reverse := by
    rw [trim, String.toList_ofList]
  have hparts : s.toList.dropWhile isBlank = (trim s).toList ++
      ((s.toList.dropWhile isBlank).reverse.takeWhile isBlank).reverse := by
    rw [htrim, ← List.reverse_append, List.takeWhile_append_dropWhile, List.reverse_reverse]
  refine ⟨⟨s.toList.takeWhile isBlank,
    ((s.toList.dropWhile isBlank).reverse.takeWhile isBlank).reverse, ?_, ?_, ?_⟩, ?_, ?_⟩
  · rw [List.append_assoc, ← hparts, List.takeWhile_append_dropWhile]
  · exact fun c hc => List.mem_takeWhile_imp hc
  · exact fun c hc => List.mem_takeWhile_imp (List.mem_reverse.mp hc)
  · intro c hc
    have hmem : c ∈ (s.toList.dropWhile isBlank).head? := by
      rw [hparts, List.head?_append, hc]
      rfl
    exact not_of_mem_head?_dropWhile hmem
  · intro c hc
    rw [htrim, List.getLast?_reverse] at hc
    exact not_of_mem_head?_dropWhile hc

theorem TrimsTo.trim_eq (h : TrimsTo s t) : trim s = t := by
  obtain ⟨⟨front, back, hs, hfront, hback⟩, hfirst, hlast⟩ := h
  have hend : t.toList.reverse.dropWhile isBlank = t.toList.reverse :=
    (dropWhile_of_head? fun c hc => hlast c (List.head?_reverse ▸ hc)).2
  have hrest : ((t.toList ++ back).dropWhile isBlank).reverse.dropWhile isBlank =
      t.toList.reverse := by
    cases ht : t.toList with
    | nil =>
      rw [List.nil_append, List.dropWhile_eq_nil_iff.mpr hback]
      rfl
    | cons c cs =>
      have hstart : (c :: cs ++ back).dropWhile isBlank = c :: cs ++ back :=
        (dropWhile_of_head? fun d hd => hfirst d (by rwa [ht])).2
      rw [hstart, List.reverse_append,
        List.dropWhile_append_of_pos fun d hd => hback d (List.mem_reverse.mp hd), ← ht, hend]
  rw [trim, hs, List.append_assoc, List.dropWhile_append_of_pos hfront, hrest,
    List.reverse_reverse, String.ofList_toList]

/-- Trimming is determined by what it loses and what it leaves. -/
theorem trimsTo_iff : TrimsTo s t ↔ trim s = t :=
  ⟨TrimsTo.trim_eq, fun h => h ▸ trimsTo_trim s⟩

end Patchbay.Text
