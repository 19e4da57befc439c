/-!
# Log events

A compile reports what it does as a list of events. Each has a level, and a listener chooses the
least severe level that it wants to hear of.
-/

namespace Patchbay

/-- How severe an event is. -/
inductive Level where
  | error
  | warn
  | info
  | debug
  | trace
  deriving DecidableEq

namespace Level

/-- The levels, most severe first. -/
def all : List Level :=
  [error, warn, info, debug, trace]

/-- The name of a level. -/
def name : Level → String
  | error => "ERROR"
  | warn => "WARN"
  | info => "INFO"
  | debug => "DEBUG"
  | trace => "TRACE"

/-- How much a listener at a level hears. -/
def verbosity : Level → Nat
  | error => 1
  | warn => 2
  | info => 3
  | debug => 4
  | trace => 5

/-- The level with a given name, in upper or lower case. -/
def ofName? (name : String) : Option Level :=
  all.find? fun level => level.name = name.toUpper

end Level

/-- The part of a compile that an event comes from. -/
inductive Stage where
  /-- Scheduling the graph, and finishing. -/
  | scheduling
  /-- Making the statements. -/
  | generation
  deriving DecidableEq

/-- The node that an event is about. -/
structure Subject where
  position : Nat
  kind : String
  deriving DecidableEq

/-- Something that happened during a compile. -/
structure Event where
  level : Level
  stage : Stage
  message : String
  subject : Option Subject := none
  deriving DecidableEq

/-- Whether a listener at a level hears an event; without a level nothing is heard. -/
def Event.isHeard (limit : Option Level) (e : Event) : Bool :=
  limit.any (e.level.verbosity ≤ ·.verbosity)

end Patchbay
