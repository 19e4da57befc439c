import Patchbay.Cli.Run

/-!
# The program

Reads the surroundings of a run, runs it, and prints its outcome. Of filters for the log only bare
levels are understood, and lines have a dash in the place of the time.
-/

open Patchbay

/-- The reason behind a failed read. -/
def fileErrorOf : IO.Error → FileError
  | .noFileOrDirectory .. => .notFound
  | .permissionDenied .. => .permissionDenied
  | .inappropriateType _ code _ => if code = 20 then .notDirectory else .isDirectory
  | error => .other (toString error)

/-- Reads the file that a command needs, if it needs one. -/
def filesFor (arguments : List String) : IO Files := do
  match Cli.Command.parse? arguments with
  | some (.compile { config := some path, .. }) =>
    let contents ← (IO.FS.readBinFile path).toBaseIO
    let result := contents.mapError fileErrorOf
    return fun _ => result
  | _ => return fun _ => .error .notFound

/-- Runs the program on its command line. -/
def main (arguments : List String) : IO UInt32 := do
  let filter ← IO.getEnv "RUST_LOG"
  let environment : Cli.Environment :=
    { files := ← filesFor arguments
      complaint := fun _ => "the document gives no options"
      subscriber := .ofLevel (filter.bind Cli.parseLevel?) fun _ => "-" }
  let outcome := Cli.run environment arguments
  IO.eprint outcome.stderr
  IO.print outcome.stdout
  return outcome.exitCode.toUInt32
