import Patchbay.Text.Lines

/-!
# Reading back lines

A text put together from lines is cut into the same lines again (`lines_intercalate`), provided that
each of them could be a line: it has no line feed in it, it does not end in a carriage return, which
would be taken for a part of the line end, and it is not empty, which would make it vanish at the
end of the text.
-/

namespace Patchbay.Text

/-- A text that can be told apart as a line. -/
structure IsLine (s : String) : Prop where
  no_feed : '\n' ∉ s.toList
  no_return : s.toList.getLast? ≠ some '\r'
  nonempty : s ≠ ""

theorem splitAt_eq_splitOn (separator : Char) (cs : List Char) :
    splitAt separator cs = cs.splitOn separator := by
  induction cs with
  | nil => rfl
  | cons c cs ih =>
    have hcons : splitAt separator (c :: cs) =
        if c = separator then [] :: splitAt separator cs
        else (splitAt separator cs).modifyHead (c :: ·) := by
      rw [splitAt, List.foldr_cons, ← splitAt]
      split
      · rfl
      · -- there is a first piece to put the character before
        cases hpieces : splitAt separator cs with
        | nil => exact absurd (ih ▸ hpieces) (List.splitOn_ne_nil _ _)
        | cons piece rest => rfl
    rw [hcons, ih, List.splitOn, List.splitOn, List.splitOnP_cons_eq_if_modifyHead]
    simp only [beq_iff_eq]

theorem dropReturn_of_getLast? {line : List Char} (h : line.getLast? ≠ some '\r') :
    dropReturn line = line := by
  rw [← List.head?_reverse] at h
  rw [dropReturn]
  split
  · next front hfront => exact absurd (by rw [hfront]; rfl) h
  · rfl

/-- Pieces that need nothing dropped are lines as they are. -/
theorem linesOfPieces_eq_self {pieces : List (List Char)}
    (hreturn : ∀ piece ∈ pieces, piece.getLast? ≠ some '\r')
    (hempty : ∀ piece ∈ pieces, piece ≠ []) :
    linesOfPieces pieces = pieces := by
  induction pieces with
  | nil => rfl
  | cons piece rest ih =>
    cases rest with
    | nil =>
      have hpiece : piece.isEmpty = false := List.isEmpty_eq_false_iff.mpr (hempty piece (by simp))
      rw [linesOfPieces, hpiece, if_neg Bool.false_ne_true]
    | cons second rest =>
      have hrest := ih (fun p hp => hreturn p (List.mem_cons_of_mem _ hp))
        fun p hp => hempty p (List.mem_cons_of_mem _ hp)
      rw [linesOfPieces, dropReturn_of_getLast? (hreturn piece List.mem_cons_self), hrest]
      exact List.cons_ne_nil _ _

/-- What is put together from lines is cut into these lines. -/
theorem lines_intercalate {texts : List String} (h : ∀ s ∈ texts, IsLine s) :
    lines (String.intercalate "\n" texts) = texts := by
  cases texts with
  | nil => rfl
  | cons first rest =>
    have hsplit : splitAt '\n' (String.intercalate "\n" (first :: rest)).toList =
        (first :: rest).map String.toList := by
      rw [splitAt_eq_splitOn, String.toList_intercalate]
      refine List.splitOn_intercalate _ (fun piece hpiece => ?_) (List.cons_ne_nil _ _)
      obtain ⟨s, hs, rfl⟩ := List.mem_map.mp hpiece
      exact (h s hs).no_feed
    have hlines : linesOfPieces ((first :: rest).map String.toList) =
        (first :: rest).map String.toList := by
      refine linesOfPieces_eq_self (fun piece hpiece => ?_) fun piece hpiece => ?_
      · obtain ⟨s, hs, rfl⟩ := List.mem_map.mp hpiece
        exact (h s hs).no_return
      · obtain ⟨s, hs, rfl⟩ := List.mem_map.mp hpiece
        exact fun hnil => (h s hs).nonempty (String.toList_eq_nil_iff.mp hnil)
    rw [lines, hsplit, hlines, List.map_map]
    simp [Function.comp_def]

end Patchbay.Text
