/-!
# Categories

Operations are grouped by what they are for.
-/

namespace Patchbay

/-- What an operation is for. -/
inductive Category where
  | constant
  | source
  | math
  | filter
  | time
  | feedback
  | routing
  | custom
  deriving DecidableEq

namespace Category

/-- The categories in the order in which they are listed. -/
def all : List Category :=
  [constant, source, math, filter, time, feedback, routing, custom]

/-- The name of a category. -/
def name : Category → String
  | constant => "constant"
  | source => "source"
  | math => "math"
  | filter => "filter"
  | time => "time"
  | feedback => "feedback"
  | routing => "routing"
  | custom => "custom"

/-- The category with a given name, in upper or lower case. -/
def ofName? (name : String) : Option Category :=
  all.find? fun category => category.name = name.toLower

end Category

end Patchbay
