import Patchbay.Options.Load
import Patchbay.Proofs.Options.Decode
import Patchbay.Proofs.Toml.Writing

/-!
# Written options are read back

Options are written as lines with a key each. Keys may come in any order, and those whose option is
the default may be left out. Reading what is written gives the options again, both at the top of a
document and below the header of their section (`parse_written`).
-/

namespace Patchbay.Options

open Toml (Plain Style)

variable {o : Options} {ks : List Key}

/-- An option as it is written. -/
def plain (o : Options) : Key → Plain
  | .log => .flag o.log
  | .addressing => .text o.addressing.tag
  | .fallbackKind => .text o.fallbackKind
  | .constantKind => .text o.constantKind
  | .stem => .text o.stem

/-- The lines for some of the options. -/
def lines (o : Options) (ks : List Key) : List (String × Plain) :=
  ks.map fun key => (key.name, o.plain key)

/-- The text of some of the options, one to a line. The last line may be ended like the others. -/
def written (o : Options) (st : Style) (ended : Bool) (ks : List Key) : String :=
  String.ofList (st.writeLines ended (o.lines ks))

theorem accepts_plain (o : Options) (key : Key) :
    key.Accepts (o.plain key).toValue (o.get key) := by
  cases key with
  | log => rfl
  | addressing => exact .name (ofTag?_eq_some_iff.mp (Addressing.ofTag?_eq_some_iff.mpr rfl))
  | _ => exact .string _

namespace Key

theorem name_injective : Function.Injective name := by
  intro key other h
  cases key <;> cases other <;> first | rfl | exact absurd h (by decide)

theorem isBare_name (key : Key) : Toml.IsBare key.name := by
  cases key <;> decide

theorem name_ne_sectionKey (key : Key) : key.name ≠ sectionKey := by
  cases key <;> decide

end Key

theorem isBare_of_mem_lines {line : String × Plain} (h : line ∈ o.lines ks) :
    Toml.IsBare line.1 := by
  obtain ⟨key, -, rfl⟩ := List.mem_map.mp h
  exact key.isBare_name

theorem keys_lines (o : Options) (ks : List Key) : Toml.keys (o.lines ks) = ks.map Key.name := by
  rw [Toml.keys, lines, List.map_map]
  rfl

theorem nodup_keys_lines (o : Options) (hks : ks.Nodup) : (Toml.keys (o.lines ks)).Nodup := by
  rw [keys_lines]
  exact hks.map Key.name_injective

/-- A key that is there gives its option, and one that is missing leaves the default, which is what
the option is. -/
theorem ofFields?_lineFields (hks : ks.Nodup) (hdiffer : ∀ key, o.get key ≠ get {} key → key ∈ ks) :
    ofFields? (Toml.lineFields (o.lines ks)) = some o := by
  have hnodup : (Toml.keys (Toml.lineFields (o.lines ks))).Nodup := by
    rw [Toml.keys_lineFields]
    exact nodup_keys_lines o hks
  refine ((decodesTable_ofFields? hnodup).gives o).mpr fun key => ⟨?_, ?_⟩
  · intro value hmem
    obtain ⟨line, hline, heq⟩ := List.mem_map.mp hmem
    obtain ⟨other, -, rfl⟩ := List.mem_map.mp hline
    obtain ⟨hname, rfl⟩ := Prod.mk.inj heq
    obtain rfl := Key.name_injective hname
    exact o.accepts_plain other
  · intro hnone
    by_contra hne
    rw [Toml.keys_lineFields, keys_lines] at hnone
    exact hnone (List.mem_map_of_mem (hdiffer key hne))

theorem ofDocument?_lineFields (o : Options) (ks : List Key) :
    ofDocument? (Toml.lineFields (o.lines ks)) = ofFields? (Toml.lineFields (o.lines ks)) := by
  refine ofDocument?_of_notMem ?_
  rw [Toml.keys_lineFields, keys_lines]
  intro hmem
  obtain ⟨key, -, hkey⟩ := List.mem_map.mp hmem
  exact key.name_ne_sectionKey hkey

theorem parse_eq_ok {complaint : Complaint} {s : String} (h : ofText? s = some o) :
    parse complaint s = .ok o := by
  rw [parse, h]

/-- Options that are written down are read back, at the top of a document and in a section of their
own. Only options that are the default may be left out. -/
theorem parse_written (complaint : Complaint) (st : Style) (ended : Bool) (o : Options)
    {ks : List Key} (hks : ks.Nodup) (hdiffer : ∀ key, o.get key ≠ get {} key → key ∈ ks) :
    parse complaint (o.written st ended ks) = .ok o ∧
      parse complaint ("[compile]\n" ++ o.written st ended ks) = .ok o := by
  have hbare : ∀ line ∈ o.lines ks, Toml.IsBare line.1 := fun _ => isBare_of_mem_lines
  have hkeys := nodup_keys_lines o hks
  have hfields := ofFields?_lineFields hks hdiffer
  constructor
  · refine parse_eq_ok ?_
    rw [ofText?, written, Toml.document?_writeLines hbare hkeys, Option.bind_some,
      ofDocument?_lineFields, hfields]
  · have htext : "[compile]\n" ++ o.written st ended ks = String.ofList
        ('[' :: (sectionKey.toList ++ ']' :: '\n' :: st.writeLines ended (o.lines ks))) := by
      rw [written, ← String.ofList_toList (s := "[compile]\n"), ← String.ofList_append]
      rfl
    refine parse_eq_ok ?_
    rw [htext, ofText?, Toml.document?_writeSection hbare hkeys (by decide), Option.bind_some]
    exact hfields

/-- Options whose texts are all awkward to write: a quote, a backslash, a line feed, nothing at
all. -/
def awkward : Options where
  addressing := .registers
  fallbackKind := "\"\\\n\x7fé"
  stem := ""

theorem awkward_parse_written :
    parse id (awkward.written Style.least false [.stem, .log, .addressing, .fallbackKind]) =
        .ok awkward ∧
      parse id ("[compile]\n" ++
        awkward.written Style.least false [.stem, .log, .addressing, .fallbackKind]) =
          .ok awkward := by
  refine parse_written id Style.least false awkward (by decide) fun key hkey => ?_
  cases key with
  | constantKind => exact absurd rfl hkey
  | _ => decide

example : awkward.written Style.least false [.stem, .log, .addressing, .fallbackKind] =
    "identifier_prefix = \"\"\nlog = false\naddressing = \"registers\"\n" ++
      "fallback_type = \"\\\"\\\\\\u000a\\u007fé\"" := by
  decide +kernel

end Patchbay.Options
