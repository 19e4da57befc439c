/-!
# Reading files

The library never opens a file. Whoever uses it says what reading a path gives: the bytes of a
file, or the reason why there are none.
-/

namespace Patchbay

/-- Why a file cannot be read as text. -/
inductive FileError where
  | notFound
  | permissionDenied
  | notDirectory
  | isDirectory
  | nameTooLong
  | nulInPath
  | notText
  | other (text : String)
  deriving DecidableEq

/-- The text of a file error. -/
def FileError.message : FileError → String
  | notFound => "No such file or directory (os error 2)"
  | permissionDenied => "Permission denied (os error 13)"
  | notDirectory => "Not a directory (os error 20)"
  | isDirectory => "Is a directory (os error 21)"
  | nameTooLong => "File name too long (os error 36)"
  | nulInPath => "file name contained an unexpected NUL byte"
  | notText => "stream did not contain valid UTF-8"
  | other text => text

/-- What reading each path gives. -/
abbrev Files := String → Except FileError ByteArray

/-- Reads a file as text. -/
def Files.readText (files : Files) (path : String) : Except FileError String := do
  match String.fromUTF8? (← files path) with
  | some text => return text
  | none => throw .notText

end Patchbay
