import Patchbay.Compile.Layout
import Patchbay.Statement

/-!
# Statements in pieces

A statement is made of fixed text, of slots, and of a mark where its own slot is declared. A `Piece`
is one of these, still without a name: a slot is given by its position. `Piece.render` says how a
convention writes a piece, and `Statement.text_map_render` that writing the operands of a statement
and then the statement is the same as writing its pieces one after the other.
-/

namespace Patchbay

/-- A piece of a program whose slots have no names yet. -/
inductive Piece where
  /-- Text that is the same under every convention. -/
  | text (fixed : String)
  /-- The slot of the node at a position. -/
  | slot (position : Nat)
  /-- The mark that the slot after it is declared here. -/
  | declaration
  deriving DecidableEq

/-- How a piece is written. Identifiers are numbered by position; registers are numbered by `rank`
and need no declaration. -/
def Piece.render (options : Options) (rank : Nat → Nat) : Piece → String
  | text fixed => fixed
  | slot position =>
    match options.addressing with
    | .identifiers => options.stem ++ toString position
    | .registers => "r[" ++ toString (rank position) ++ "]"
  | declaration =>
    match options.addressing with
    | .identifiers => "const "
    | .registers => ""

/-- How a list of pieces is written. -/
def render (options : Options) (rank : Nat → Nat) (pieces : List Piece) : String :=
  String.join (pieces.map (Piece.render options rank))

section Render

variable {options : Options} {rank : Nat → Nat}

@[simp] theorem render_nil : render options rank [] = "" :=
  String.join_nil

@[simp] theorem render_cons (piece : Piece) (pieces : List Piece) :
    render options rank (piece :: pieces) =
      piece.render options rank ++ render options rank pieces :=
  String.join_cons

@[simp] theorem render_append (pieces pieces' : List Piece) :
    render options rank (pieces ++ pieces') =
      render options rank pieces ++ render options rank pieces' := by
  rw [render, List.map_append, String.join_append]
  rfl

theorem render_text (fixed : String) : render options rank [.text fixed] = fixed := by
  rw [render_cons, render_nil, String.append_empty, Piece.render]

theorem render_getD (value : Option (List Piece)) (missing : String) :
    render options rank (value.getD [.text missing]) =
      (value.map (render options rank)).getD missing := by
  cases value with
  | none => exact render_text missing
  | some pieces => rfl

theorem render_declaration :
    Piece.declaration.render options rank = options.addressing.declaration := by
  rw [Piece.render]
  cases options.addressing <;> rfl

theorem render_intercalate (separator : String) (parts : List (List Piece)) :
    render options rank ([Piece.text separator].intercalate parts) =
      separator.intercalate (parts.map (render options rank)) := by
  induction parts with
  | nil => simp
  | cons first rest ih =>
    cases rest with
    | nil => simp
    | cons second rest =>
      rw [List.intercalate_cons_cons, render_append, render_append, ih, render_text]
      exact String.intercalate_cons_cons.symm

end Render

/-! ### Statements in pieces -/

/-- The pieces of an operand. -/
def Operand.pieces : Operand → List Piece
  | slot position => [.slot position]
  | literal value => [.text value.form]

namespace Output

/-- The pieces of the left channel. -/
def leftPieces (output : Output (List Piece)) : List Piece :=
  output.left.getD [.text "0"]

/-- The pieces of the right channel. -/
def rightPieces (output : Output (List Piece)) : List Piece :=
  output.right.getD output.leftPieces

variable {options : Options} {rank : Nat → Nat}

theorem render_leftPieces (output : Output (List Piece)) :
    render options rank output.leftPieces = (output.map (render options rank)).leftText :=
  render_getD output.left "0"

theorem render_rightPieces (output : Output (List Piece)) :
    render options rank output.rightPieces = (output.map (render options rank)).rightText := by
  rw [rightPieces, rightText, ← render_leftPieces, map]
  cases output.right <;> rfl

end Output

namespace Statement

/-- The pieces of a statement that stores an expression. -/
def assignPieces (position : Nat) (expression : List Piece) : List Piece :=
  [.declaration, .slot position, .text " = "] ++ expression ++ [.text ";"]

/-- The pieces of the sum of some channels. -/
def sumPieces : List (List Piece) → List Piece
  | [single] => single
  | several => [.text "("] ++ [Piece.text " + "].intercalate several ++ [.text ")"]

/-- The pieces of the statement of a node, given its position and its kind. -/
def pieces (position : Nat) (kind : String) : Statement (List Piece) → List Piece
  | update unit arguments =>
    assignPieces position
      ([.text ("nodes[" ++ toString unit ++ "].update(")] ++ [Piece.text ","].intercalate arguments
        ++ [.text ")"])
      ++ [.text (" /* " ++ kind ++ " */")]
  | write cell value =>
    assignPieces position
      ([.text ("nodes[" ++ toString cell ++ "].write(")] ++ value.getD [.text "0"] ++ [.text ")"])
      ++ [.text (" /* " ++ kind ++ " */")]
  | arithmetic operator left right =>
    assignPieces position
      (left.getD [.text operator.identity] ++ [.text (" " ++ operator.symbol ++ " ")]
        ++ right.getD [.text operator.identity])
  | copy value => assignPieces position (value.getD [.text "0"])
  | mix outputs =>
    [.text "return [("] ++ sumPieces (outputs.map (·.leftPieces)) ++ [.text "*lvl),("]
      ++ sumPieces (outputs.map (·.rightPieces)) ++ [.text "*lvl)]"]
  | verbatim line => [.text line]

theorem map_map {α β γ : Type} (f : α → β) (f' : β → γ) (statement : Statement α) :
    (statement.map f).map f' = statement.map (f' ∘ f) := by
  cases statement <;> simp [map, Output.map]

variable {options : Options} {rank : Nat → Nat}

theorem render_sumPieces (channels : List (List Piece)) :
    render options rank (sumPieces channels) = sumText (channels.map (render options rank)) := by
  match channels with
  | [] => rfl
  | [single] => rfl
  | first :: second :: rest =>
    -- only a sum of two or more channels is bracketed
    rw [sumPieces, render_append, render_append, render_intercalate, render_text, render_text]
    · rfl
    · simp

theorem render_assignPieces (position : Nat) (kind : String) (expression : List Piece) :
    render options rank (assignPieces position expression) =
      Site.assign ⟨options.addressing, (Piece.slot position).render options rank, kind⟩
        (render options rank expression) := by
  simp only [assignPieces, render_append, render_cons, render_nil, render_declaration, Site.assign,
    Addressing.assign, String.append_empty, String.append_assoc]
  rfl

/-- To write the operands and then the statement is to write the statement piece by piece. -/
theorem text_map_render (position : Nat) (kind : String) (statement : Statement (List Piece)) :
    (statement.map (render options rank)).text
        ⟨options.addressing, (Piece.slot position).render options rank, kind⟩ =
      render options rank (statement.pieces position kind) := by
  cases statement with
  | update unit arguments =>
    simp only [pieces, render_append, render_assignPieces position kind, render_intercalate,
      render_text]
    rfl
  | write cell value =>
    simp only [pieces, render_append, render_assignPieces position kind, render_getD, render_text]
    rfl
  | arithmetic operator left right =>
    simp only [pieces, render_append, render_assignPieces position kind, render_getD, render_text,
      map, text, String.append_assoc]
  | copy value =>
    simp only [pieces, render_assignPieces position kind, render_getD]
    rfl
  | mix outputs =>
    have hleft : ((outputs.map (·.map (render options rank))).map (·.leftText)) =
        (outputs.map (·.leftPieces)).map (render options rank) := by
      simp [Output.render_leftPieces]
    have hright : ((outputs.map (·.map (render options rank))).map (·.rightText)) =
        (outputs.map (·.rightPieces)).map (render options rank) := by
      simp [Output.render_rightPieces]
    simp only [pieces, render_append, render_sumPieces, render_text, map, text, hleft, hright]
  | verbatim line => exact (render_text line).symm

end Statement

end Patchbay
