import Patchbay.Options.Load
import Patchbay.Proofs.Options.Decode

/-!
# Options from a file

What loading gives is said by the bytes of the file: they are those of a text, the text is a
document, and the table of the document gives the options (`Options.InFile`). If one of these is
not so, loading fails for that reason (`Options.NotInFile`).
-/

namespace Patchbay

/-- A text is read from the bytes that it is written with, and from no others. -/
theorem fromUTF8?_eq_some_iff {bytes : ByteArray} {text : String} :
    String.fromUTF8? bytes = some text ↔ bytes = text.toUTF8 := by
  rw [String.fromUTF8?]
  constructor
  · intro h
    split at h
    · obtain rfl := Option.some.inj h
      rfl
    · cases h
  · rintro rfl
    rw [String.toUTF8_eq_toByteArray, dif_pos text.isValidUTF8]
    rfl

theorem fromUTF8?_eq_none_iff {bytes : ByteArray} :
    String.fromUTF8? bytes = none ↔ ∀ text : String, bytes ≠ text.toUTF8 := by
  simp only [Option.eq_none_iff_forall_ne_some, ne_eq, fromUTF8?_eq_some_iff]

namespace Options

variable {files : Files} {complaint : Complaint} {path : String} {o : Options} {e : LoadError}

/-- The text of a document that gives options. -/
def InText (text : String) (o : Options) : Prop :=
  ∃ fields, Toml.document? text = some fields ∧ DocumentGives fields o

/-- A file that gives options: its bytes are those of a text that does. -/
def InFile (files : Files) (path : String) (o : Options) : Prop :=
  ∃ text : String, files path = .ok text.toUTF8 ∧ InText text o

/-- Why a file gives no options. -/
inductive NotInFile (files : Files) (complaint : Complaint) (path : String) : LoadError → Prop
  | unreadable {cause : FileError} : files path = .error cause →
    NotInFile files complaint path (.unreadable path cause)
  | notText {bytes : ByteArray} : files path = .ok bytes →
    (∀ text : String, bytes ≠ text.toUTF8) →
      NotInFile files complaint path (.unreadable path .notText)
  | malformed {text : String} : files path = .ok text.toUTF8 → (∀ o, ¬ InText text o) →
    NotInFile files complaint path (.malformed (complaint text))

theorem readText_of_text {text : String} (h : files path = .ok text.toUTF8) :
    files.readText path = .ok text := by
  have hbytes : String.fromUTF8? text.toUTF8 = some text := fromUTF8?_eq_some_iff.mpr rfl
  simp only [Files.readText, h, bind, Except.bind, hbytes]
  rfl

theorem readText_of_notText {bytes : ByteArray} (h : files path = .ok bytes)
    (hbytes : ∀ text : String, bytes ≠ text.toUTF8) : files.readText path = .error .notText := by
  simp only [Files.readText, h, bind, Except.bind, fromUTF8?_eq_none_iff.mpr hbytes]
  rfl

theorem ofText?_eq_some_iff {text : String} : ofText? text = some o ↔ InText text o := by
  rw [ofText?, Option.bind_eq_some_iff]
  refine exists_congr fun fields => and_congr_right fun hdocument => ?_
  exact (readsDocument_of_document? hdocument).gives o

theorem load_of_inFile (h : InFile files path o) : load files complaint path = .ok o := by
  obtain ⟨text, hfile, htext⟩ := h
  rw [load, readText_of_text hfile]
  simp only [parse, ofText?_eq_some_iff.mpr htext]

theorem load_of_notInFile (h : NotInFile files complaint path e) :
    load files complaint path = .error e := by
  cases h with
  | unreadable hfile =>
    rw [load, Files.readText, hfile]
    rfl
  | notText hfile hbytes => rw [load, readText_of_notText hfile hbytes]
  | malformed hfile htext =>
    have hnone : ofText? _ = none :=
      Option.eq_none_iff_forall_ne_some.mpr fun o ho => htext o (ofText?_eq_some_iff.mp ho)
    rw [load, readText_of_text hfile]
    simp only [parse, hnone]

/-- A file gives options, or there is a reason why it does not. -/
theorem inFile_or_notInFile (files : Files) (complaint : Complaint) (path : String) :
    (∃ o, InFile files path o) ∨ ∃ e, NotInFile files complaint path e := by
  cases hfile : files path with
  | error cause => exact .inr ⟨_, .unreadable hfile⟩
  | ok bytes =>
    by_cases hbytes : ∃ text : String, bytes = text.toUTF8
    · obtain ⟨text, rfl⟩ := hbytes
      by_cases htext : ∃ o, InText text o
      · obtain ⟨o, htext⟩ := htext
        exact .inl ⟨o, text, hfile, htext⟩
      · exact .inr ⟨_, .malformed hfile (not_exists.mp htext)⟩
    · exact .inr ⟨_, .notText hfile (not_exists.mp hbytes)⟩

end Options

end Patchbay
