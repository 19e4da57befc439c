import Patchbay.Addressing

/-!
# Command-line arguments

An argument list is read from left to right. `--name value` and `--name=value` give the value of an
option; a value given apart may not look like an option, though it may be a lone dash. After `--`
all arguments are positional. Every option may be given once, or, if it is a list, any number of
times. Whatever does not fit is a usage error, which has no further description.
-/

namespace Patchbay.Cli

/-- What an option takes. -/
inductive Arity where
  /-- No value. -/
  | flag
  /-- One value, once. -/
  | single
  /-- One value, any number of times. -/
  | list
  deriving DecidableEq

/-- The options that a command knows, by name. -/
abbrev Signature := List (String × Arity)

/-- Arguments sorted out: the options given, in order, and the positional arguments. -/
structure Sorted where
  options : List (String × String) := []
  positional : List String := []

namespace Sorted

/-- The values given for an option. -/
def values (s : Sorted) (name : String) : List String :=
  (s.options.filter (·.1 = name)).map (·.2)

/-- The value given for an option that may be given once. -/
def value? (s : Sorted) (name : String) : Option String :=
  (s.values name).head?

/-- Whether an option was given. -/
def has (s : Sorted) (name : String) : Bool :=
  s.options.any (·.1 = name)

/-- Notes an option. One that is not a list must be new. -/
def add? (s : Sorted) (name : String) (arity : Arity) (value : String) : Option Sorted :=
  if arity ≠ .list ∧ s.has name then none
  else some { s with options := s.options ++ [(name, value)] }

end Sorted

/-- An argument of the form `--name` or `--name=value`, taken apart. -/
def splitOption (argument : String) : String × Option String :=
  let body := argument.toList.drop 2
  let name := String.ofList (body.takeWhile (· ≠ '='))
  match body.dropWhile (· ≠ '=') with
  | [] => (name, none)
  | _ :: value => (name, some (String.ofList value))

/-- Whether an argument can only be an option. -/
def looksLikeOption (argument : String) : Bool :=
  argument.startsWith "-" && argument ≠ "-"

/-- Sorts out arguments by the signature of a command. -/
def sort (signature : Signature) (sorted : Sorted) : List String → Option Sorted
  | [] => some sorted
  | argument :: rest =>
    if argument = "--" then some { sorted with positional := sorted.positional ++ rest }
    else if argument.startsWith "--" then
      let (name, value?) := splitOption argument
      match signature.lookup name, value?, rest with
      | none, _, _ => none
      | some .flag, none, rest => do sort signature (← sorted.add? name .flag "") rest
      | some .flag, some _, _ => none
      | some arity, some value, rest => do sort signature (← sorted.add? name arity value) rest
      | some arity, none, value :: rest =>
        if looksLikeOption value then none
        else do sort signature (← sorted.add? name arity value) rest
      | some _, none, [] => none
    else if looksLikeOption argument then none
    else sort signature { sorted with positional := sorted.positional ++ [argument] } rest

/-- The arguments of the command that compiles a patch. -/
structure CompileArguments where
  patch : String
  addressing : Option Addressing := none
  stem : Option String := none
  fallbackKind : Option String := none
  constantKind : Option String := none
  units : List String := []
  config : Option String := none
  log : Bool := false
  json : Bool := false
  deriving DecidableEq

/-- What the program is asked to do. -/
inductive Command where
  | version
  | compile (arguments : CompileArguments)
  | patches
  | operations (category : Option String) (units : List String)
  deriving DecidableEq

namespace Command

/-- The options of the command that compiles a patch. -/
def compileSignature : Signature := [
  ("addressing", .single), ("prefix", .single), ("fallback", .single), ("const-type", .single),
  ("unit", .list), ("config", .single), ("log", .flag), ("json", .flag)]

/-- The options of the command that lists operations. -/
def operationsSignature : Signature :=
  [("category", .single), ("unit", .list)]

/-- Reads the arguments of the command that compiles a patch. The name of a file may not be
empty. -/
def parseCompile? (arguments : List String) : Option Command := do
  let sorted ← sort compileSignature {} arguments
  let [patch] := sorted.positional | none
  let addressing ← match sorted.value? "addressing" with
    | none => pure none
    | some name => (Addressing.ofTag? name).map some
  guard (sorted.value? "config" ≠ some "")
  return .compile {
    patch
    addressing
    stem := sorted.value? "prefix"
    fallbackKind := sorted.value? "fallback"
    constantKind := sorted.value? "const-type"
    units := sorted.values "unit"
    config := sorted.value? "config"
    log := sorted.has "log"
    json := sorted.has "json" }

/-- Reads the arguments of the command that lists patches. -/
def parsePatches? (arguments : List String) : Option Command := do
  let sorted ← sort [] {} arguments
  guard sorted.positional.isEmpty
  return .patches

/-- Reads the arguments of the command that lists operations. -/
def parseOperations? (arguments : List String) : Option Command := do
  let sorted ← sort operationsSignature {} arguments
  guard sorted.positional.isEmpty
  return .operations (sorted.value? "category") (sorted.values "unit")

/-- Reads an argument list; `none` is a usage error. Asking for the version ends the reading. -/
def parse? : List String → Option Command
  | "compile" :: rest => parseCompile? rest
  | "patches" :: rest => parsePatches? rest
  | "ops" :: rest => parseOperations? rest
  | first :: _ => if first = "--version" ∨ first.startsWith "-V" then some .version else none
  | [] => none

end Command

end Patchbay.Cli
