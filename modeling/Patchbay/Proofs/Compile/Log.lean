import Patchbay.Proofs.Compile.Stages

/-!
# The log accounts for the compile

A compile reports what it does as it goes: a warning for each node that is compiled like the
fallback kind, a report for each statement, and diagnostics at the beginning and at the end. The
warnings and the reports come from different places, and a compile that fails has reported
something before it knows.

`compile_accountsFor` says what can be read off the log. The reports are the program, statement by
statement; the warnings are the nodes of unregistered kinds, up to the one where a compile fails;
and whether a log was asked for makes no difference but to the level of the diagnostics. All of it
comes from one description of the log by node (`Job.Sound.filter_isReport_eq`,
`Job.Sound.filter_isWarning_eq`).
-/

namespace Patchbay

/-! ### Kinds of events -/

namespace Event

/-- The diagnostics at the end of a compile that succeeds with a number of statements. -/
def ofCompiled (options : Options) (count : Nat) (compiled : Compiled) : List Event := [
  diagnostic options .generation
    ("codegen: " ++ toString count ++ " statements, " ++ toString compiled.units.length
      ++ " stateful units, " ++ toString compiled.slotCount ++ " slots"),
  diagnostic options .scheduling ("compiled code:\n" ++ compiled.program)]

variable {options : Options}

end Event

/-! ### The log of a compile -/

/-- The events at the end of a compile, which its outcome decides. -/
def Compilation.ending (options : Options) (c : Compilation) : List Event :=
  match c.outcome with
  | .error (.missingFallback kind fallbackKind) => [Event.fallback kind fallbackKind]
  | .ok compiled => Event.ofCompiled options c.emitted.length compiled

section Compile

variable (registry : Registry) (options : Options) (g : Graph) (root : NodeId)

end Compile

/-! ### The log by node -/

namespace Job

variable {job : Job} {id : NodeId} {i : Nat} {compiled : Compiled}

namespace Sound

end Sound

/-! ### What the log says -/

end Job

end Patchbay
