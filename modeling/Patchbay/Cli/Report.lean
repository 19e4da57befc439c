import Patchbay.Compile.Basic
import Patchbay.Json
import Patchbay.Patch

/-!
# What the program prints
-/

namespace Patchbay.Cli

/-- A text with blanks after it up to a width. -/
def column (width : Nat) (s : String) : String :=
  s ++ String.ofList (List.replicate (width - s.length) ' ')

/-- Lines, each of them ended. -/
def unlines (lines : List String) : String :=
  String.join (lines.map (· ++ "\n"))

/-- The line for a stateful unit. -/
def unitLine (index : Nat) (unit : StatefulUnit) : String :=
  "  [" ++ toString index ++ "] " ++ column 12 unit.tag ++ " ("
    ++ String.intercalate ", " unit.inputs ++ ")"

/-- A compiled patch, for reading. -/
def compiledText (c : Compiled) : String :=
  unlines ([c.program, "", "Stateful units (" ++ toString c.units.length ++ "):"]
    ++ c.units.mapIdx unitLine ++ ["", "Slots: " ++ toString c.slotCount])

/-- A compiled patch as JSON. -/
def compiledJson (c : Compiled) : Json :=
  .object [
    ("program", .string c.program),
    ("stateful_units", .array (c.units.map fun unit =>
      .object [("tag", .string unit.tag), ("inputs", .array (unit.inputs.map .string))])),
    ("slot_count", .natural c.slotCount)]

/-- The list of demo patches. -/
def patchesText : String :=
  unlines (["Available Patches", "=================", ""]
    ++ Patch.all.map (fun patch => "  " ++ column 15 patch.name ++ " - " ++ patch.description)
    ++ ["", "Use 'kabel compile <name>' to compile one."])

/-- One line of the list of operations. -/
def operationLine (kind category unit description : String) : String :=
  "  " ++ column 16 kind ++ "  " ++ column 10 category ++ "  " ++ column 10 unit ++ "  "
    ++ description

/-- A list of operations. -/
def operationsText (operations : List Operation) : String :=
  unlines ([
      operationLine "Type" "Category" "Unit" "Description",
      operationLine "----" "--------" "----" "-----------"]
    ++ operations.map fun operation =>
      operationLine operation.kind operation.category.name (operation.schema.tag.getD "-")
        operation.description)

/-- A text with every line of it moved in by four blanks. -/
def indented (s : String) : String :=
  String.ofList ([' ', ' ', ' ', ' '] ++ s.toList.flatMap fun c =>
    if c = '\n' then ['\n', ' ', ' ', ' ', ' '] else [c])

/-- An error, with its cause if it has one. -/
def errorText (message : String) (cause? : Option String) : String :=
  unlines (("Error: " ++ message) :: match cause? with
    | none => []
    | some cause => ["", "Caused by:", indented cause])

end Patchbay.Cli
