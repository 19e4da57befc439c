import Patchbay.Cli.Report

/-!
# The log of a run

The events of a compile go to a subscriber. It decides which of them it hears and how it writes
them, and so settles what a run cannot know: the filter asked for from outside, the time and the
colours. A run is given its subscriber; it only says which level counts if no filter does.

`Subscriber.ofLevel` is a subscriber for filters that are bare levels. Its lines have a stamp and no
colours.
-/

namespace Patchbay.Cli

/-- What listens to the events of a run. -/
structure Subscriber where
  /-- Whether an event is heard, given the level that counts if there is no filter. -/
  hears : (usual : Level) → Event → Bool
  /-- The line for an event, given the number of lines before it. -/
  line : Nat → Event → String

/-- What a subscriber writes. -/
def Subscriber.log (s : Subscriber) (usual : Level) (events : List Event) : String :=
  unlines ((events.filter (s.hears usual)).mapIdx s.line)

/-! ### Lines -/

/-- What a log line calls the part of a compile that an event comes from. -/
def stageName : Stage → String
  | .scheduling => "kabel_compiler::compiler"
  | .generation => "kabel_compiler::codegen"

/-- A character of a log message. Characters that could steer a terminal are written by number. -/
def logChar (c : Char) : List Char :=
  let code := c.toNat
  if code = 0x07 ∨ code = 0x08 ∨ code = 0x0c ∨ code = 0x1b ∨ code = 0x7f then
    let digits := Text.hexDigits code
    ['\\', 'x'] ++ List.replicate (2 - digits.length) '0' ++ digits
  else if 0x80 ≤ code ∧ code ≤ 0x9f then ['\\', 'u', '\x7b'] ++ Text.hexDigits code ++ ['\x7d']
  else [c]

/-- What a log line adds about the node that an event is about. -/
def subjectText (subject : Subject) : String :=
  " id=" ++ toString subject.position ++ " kind=" ++ Text.quote subject.kind

/-- The name of a level, with blanks before it up to the width of the longest one. -/
def levelText (level : Level) : String :=
  String.ofList (List.replicate (5 - level.name.length) ' ') ++ level.name

/-- The log line of an event, without colours. The stamp is the time of the event. -/
def eventText (stamp : String) (event : Event) : String :=
  stamp ++ " " ++ levelText event.level ++ " " ++ stageName event.stage ++ ": "
    ++ String.ofList (event.message.toList.flatMap logChar)
    ++ (event.subject.map subjectText).getD ""

/-! ### Bare levels -/

/-- The level that a filter consists of, from a name or a digit; `some none` is silence. Filters
that say more than a level, such as one for each part of the program, are not read here. -/
def parseLevel? (filter : String) : Option (Option Level) :=
  if filter.toLower = "off" ∨ filter = "0" then some none
  else if filter = "" then some (some .error)
  else match Level.ofName? filter with
    | some level => some (some level)
    | none => (Level.all.find? (toString ·.verbosity = filter)).map some

/-- The subscriber that hears events up to a level, if there is one to be heard. -/
def Subscriber.ofLevel (level? : Option (Option Level)) (stamp : Nat → String) : Subscriber where
  hears usual event := event.isHeard (level?.getD (some usual))
  line index event := eventText (stamp index) event

end Patchbay.Cli
