import Patchbay.Files.Basic
import Patchbay.Options.Decode

/-!
# Loading options from a file

What is wrong with a document that gives no options is for the reader of documents to say. Its words
are not part of the library: whoever loads options brings them along as a `Complaint`.
-/

namespace Patchbay

/-- What the reader of documents says of a text that gives no options. -/
abbrev Complaint := String → String

/-- Why options cannot be loaded. -/
inductive LoadError where
  | unreadable (path : String) (cause : FileError)
  /-- The document gives no options, for the reason that the text names. -/
  | malformed (complaint : String)
  deriving DecidableEq

namespace LoadError

/-- The text of what a load error was caused by. -/
def cause : LoadError → String
  | unreadable _ cause => cause.message
  | malformed complaint => complaint

/-- The text of a load error. -/
def message (e : LoadError) : String :=
  match e with
  | unreadable path _ => "failed to read file '" ++ path ++ "': " ++ e.cause
  | malformed _ => "failed to parse TOML: " ++ e.cause

end LoadError

/-- Options from the text of a document. -/
def Options.parse (complaint : Complaint) (s : String) : Except LoadError Options :=
  match Options.ofText? s with
  | some options => .ok options
  | none => .error (.malformed (complaint s))

/-- Options from a file. -/
def Options.load (files : Files) (complaint : Complaint) (path : String) :
    Except LoadError Options :=
  match files.readText path with
  | .ok text => Options.parse complaint text
  | .error cause => .error (.unreadable path cause)

end Patchbay
