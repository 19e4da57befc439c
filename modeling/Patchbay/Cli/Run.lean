import Patchbay.Cli.Arguments
import Patchbay.Cli.Log
import Patchbay.Options.Load
import Patchbay.Text.Blank

/-!
# Running a command

A run is a function of the argument list and of its surroundings: what reading files gives, what
the reader of documents says of a text that gives no options, and who listens to the events. Its
outcome is an exit code and what is printed. A run fails at the first thing that is wrong, in the
order: patch, units, options file, compile.
-/

namespace Patchbay.Cli

/-- What the surroundings of a run provide. -/
structure Environment where
  files : Files
  complaint : Complaint
  subscriber : Subscriber

/-- The outcome of a run. -/
structure Outcome where
  exitCode : Nat
  stdout : String := ""
  stderr : String := ""
  deriving DecidableEq

/-- What can go wrong in a run, other than the arguments not being understood. -/
inductive Failure where
  | unknownPatch (name : String)
  | invalidUnit (text : String)
  | unknownCategory (name : String)
  | options (cause : LoadError)
  | compile (patch : String) (cause : CompileError)
  deriving DecidableEq

namespace Failure

/-- The text of a failure. -/
def message : Failure → String
  | unknownPatch name => "Unknown patch: " ++ name
  | invalidUnit text => "Invalid unit '" ++ text ++ "', expected KIND=TAG"
  | unknownCategory name =>
    "Unknown category: " ++ name ++ " (expected one of "
      ++ String.intercalate ", " (Category.all.map (·.name)) ++ ")"
  | options cause => cause.message
  | compile patch _ => "Failed to compile patch '" ++ patch ++ "'"

/-- The text of what caused a failure. -/
def cause? : Failure → Option String
  | options cause => some cause.cause
  | compile _ cause => some cause.message
  | _ => none

end Failure

/-! ### Units given on the command line -/

/-- A kind and a tag from a text of the form `KIND=TAG`, split at the first equals sign and
trimmed; neither may be blank. -/
def parseUnit? (text : String) : Option (String × String) :=
  let kind := Text.trim (String.ofList (text.toList.takeWhile (· ≠ '=')))
  match text.toList.dropWhile (· ≠ '=') with
  | [] => none
  | _ :: rest =>
    let tag := Text.trim (String.ofList rest)
    if kind = "" ∨ tag = "" then none else some (kind, tag)

/-- A registry with units added to it in order. -/
def addUnits (registry : Registry) : List String → Except Failure Registry
  | [] => .ok registry
  | text :: rest =>
    match parseUnit? text with
    | none => .error (.invalidUnit text)
    | some (kind, tag) => addUnits (registry.registerUnit kind tag) rest

/-! ### Commands -/

/-- The options of a compile: those of the file, or the defaults, changed by what the arguments
give. -/
def overrideOptions (options : Options) (arguments : CompileArguments) : Options where
  log := options.log || arguments.log
  addressing := arguments.addressing.getD options.addressing
  fallbackKind := arguments.fallbackKind.getD options.fallbackKind
  constantKind := arguments.constantKind.getD options.constantKind
  stem := arguments.stem.getD options.stem

/-- The options that a compile starts from. -/
def baseOptions (environment : Environment) (config : Option String) : Except Failure Options :=
  match config with
  | none => .ok {}
  | some path => (Options.load environment.files environment.complaint path).mapError .options

/-- A failed run. -/
def Outcome.failed (log : String) (failure : Failure) : Outcome where
  exitCode := 1
  stderr := log ++ errorText failure.message failure.cause?

/-- Everything that has to be right before a compile can start. -/
def prepare (environment : Environment) (arguments : CompileArguments) :
    Except Failure (Patch × Compiler) := do
  let some patch := Patch.find? arguments.patch | throw (.unknownPatch arguments.patch)
  let registry ← addUnits .standard arguments.units
  let options ← baseOptions environment arguments.config
  return (patch, ⟨registry, overrideOptions options arguments⟩)

/-- Compiles a patch. -/
def runCompile (environment : Environment) (arguments : CompileArguments) : Outcome :=
  match prepare environment arguments with
  | .error failure => .failed "" failure
  | .ok (patch, compiler) =>
    let (root, graph) := patch.graph
    let compilation := compiler.compile graph root
    let usual := if arguments.log then Level.info else .warn
    let log := environment.subscriber.log usual compilation.events
    match compilation.outcome with
    | .error cause => .failed log (.compile patch.name cause)
    | .ok compiled =>
      { exitCode := 0
        stdout := if arguments.json then (compiledJson compiled).pretty 0 ++ "\n"
          else compiledText compiled
        stderr := log }

/-- The operations to list. -/
def selectOperations (registry : Registry) : (category : Option String) →
    Except Failure (List Operation)
  | none => .ok registry.operations
  | some name =>
    match Category.ofName? name with
    | some category => .ok (registry.inCategory category)
    | none => .error (.unknownCategory name)

/-- Lists operations. -/
def runOperations (category : Option String) (units : List String) : Outcome :=
  match addUnits .standard units >>= (selectOperations · category) with
  | .error failure => .failed "" failure
  | .ok operations => { exitCode := 0, stdout := operationsText operations }

/-- The exit code of a usage error. -/
def usageExitCode : Nat := 2

/-- Runs the program. -/
def run (environment : Environment) (arguments : List String) : Outcome :=
  match Command.parse? arguments with
  | none => { exitCode := usageExitCode }
  | some .version => { exitCode := 0, stdout := "kabel 0.1.0\n" }
  | some (.compile arguments) => runCompile environment arguments
  | some .patches => { exitCode := 0, stdout := patchesText }
  | some (.operations category units) => runOperations category units

end Patchbay.Cli
