import Patchbay.Addressing
import Patchbay.Kind

/-!
# Compile options
-/

namespace Patchbay

/-- What can be chosen about a compile. -/
structure Options where
  /-- Raises the diagnostic events of a compile from debug to info. -/
  log : Bool := false
  /-- How slots are named. -/
  addressing : Addressing := .identifiers
  /-- The kind whose schema is used for nodes of unregistered kinds. -/
  fallbackKind : String := Kind.thru
  /-- The kind of the nodes that are written in place as literals. -/
  constantKind : String := Kind.constant
  /-- What identifiers begin with. -/
  stem : String := "n"
  deriving DecidableEq

end Patchbay
