/-!
# Lines of a text

A line ends at a line feed; a carriage return right before that line feed belongs to the line end
and not to the line. What follows the last line feed is a line too, unless it is empty.
-/

namespace Patchbay.Text

/-- The pieces of a list between occurrences of a separator. There is always at least one. -/
def splitAt (separator : Char) (cs : List Char) : List (List Char) :=
  cs.foldr
    (fun c pieces =>
      if c = separator then [] :: pieces
      else match pieces with
        | [] => [[c]]
        | piece :: rest => (c :: piece) :: rest)
    [[]]

/-- A line without the carriage return that may stand at its end. -/
def dropReturn (line : List Char) : List Char :=
  match line.reverse with
  | '\r' :: front => front.reverse
  | _ => line

/-- The lines among pieces cut at line feeds: every piece but the last was ended by a line feed. -/
def linesOfPieces : List (List Char) → List (List Char)
  | [] => []
  | [last] => if last.isEmpty then [] else [last]
  | piece :: rest => dropReturn piece :: linesOfPieces rest

/-- The lines of a text. -/
def lines (s : String) : List String :=
  (linesOfPieces (splitAt '\n' s.toList)).map String.ofList

end Patchbay.Text
