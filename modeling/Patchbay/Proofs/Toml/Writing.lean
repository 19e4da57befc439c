import Patchbay.Proofs.Text.Blank
import Patchbay.Proofs.Text.Quoted
import Patchbay.Proofs.Toml.Document

/-!
# Written tables are read back

A table of texts and truth values under bare keys can be written down, one key to a line, at the top
of a document or below a header, and reading the document gives the table
(`document?_writeLines`, `document?_writeSection`).

What could go wrong is in the texts. A quote would end a string, a backslash would begin an escape,
and control characters are not allowed; so these are escaped, and each written character is read
back as one character (`basicBody_writeChar`). Whether other characters are written by number too
does not matter, nor does the case of the digits, and both are left open (`Style`).
-/

namespace Patchbay.Toml

/-! ### Writing -/

/-- The control characters. -/
def isControl (c : Char) : Bool :=
  c.toNat < 0x20 || c.toNat == 0x7f

/-- A way to write texts: which characters are written by number, and whether the digits are
upper-case letters. Control characters have to be among them, and characters whose number has more
than four digits cannot be. -/
structure Style where
  coded : Char → Bool
  upper : Bool
  coded_of_isControl : ∀ c, isControl c → coded c
  lt_of_coded : ∀ c, coded c → c.toNat < 0x10000

namespace Style

/-- The way that writes nothing by number but control characters. -/
def least : Style where
  coded := isControl
  upper := false
  coded_of_isControl _ h := h
  lt_of_coded c h := by
    simp only [isControl, Bool.or_eq_true, decide_eq_true_eq, beq_iff_eq] at h
    omega

variable (st : Style)

/-- A hexadecimal digit. -/
def digit (d : Nat) : Char :=
  if st.upper then d.digitChar.toUpper else d.digitChar

/-- The four hexadecimal digits of a number. -/
def digits (code : Nat) : List Char :=
  [code / 4096, code / 256 % 16, code / 16 % 16, code % 16].map st.digit

/-- How one character is written inside quotes. -/
def writeChar (c : Char) : List Char :=
  if c = '"' ∨ c = '\\' then ['\\', c]
  else if st.coded c then '\\' :: 'u' :: st.digits c.toNat
  else [c]

/-- How a text is written. -/
def writeText (s : String) : List Char :=
  '"' :: (s.toList.flatMap st.writeChar ++ ['"'])

end Style

/-- A value that is written on one line. -/
inductive Plain where
  | text (s : String)
  | flag (b : Bool)

/-- The value that is meant. -/
def Plain.toValue : Plain → Value
  | text s => .string s
  | flag b => .boolean b

namespace Style

variable (st : Style)

/-- How a value is written. -/
def writePlain : Plain → List Char
  | .text s => st.writeText s
  | .flag true => ['t', 'r', 'u', 'e']
  | .flag false => ['f', 'a', 'l', 's', 'e']

/-- How a key with its value is written. -/
def writeLine (line : String × Plain) : List Char :=
  line.1.toList ++ ' ' :: '=' :: ' ' :: st.writePlain line.2

/-- How a table is written, one key to a line. The last line may be ended like the others. -/
def writeLines (ended : Bool) : List (String × Plain) → List Char
  | [] => []
  | line :: rest =>
    st.writeLine line ++ if rest.isEmpty && !ended then [] else '\n' :: writeLines ended rest

end Style

/-- The fields of a table of lines. -/
def lineFields (lines : List (String × Plain)) : Fields :=
  lines.map fun line => (line.1, line.2.toValue)

/-! ### Texts -/

section Texts

variable {st : Style} {c : Char} {cs rest : List Char}

theorem hexValue?_digit {d : Nat} (hd : d < 16) : Text.hexValue? (st.digit d) = some d := by
  have hall : ∀ d < 16, Text.hexValue? d.digitChar = some d ∧
      Text.hexValue? d.digitChar.toUpper = some d := by decide
  rw [Style.digit]
  split
  · exact (hall d hd).2
  · exact (hall d hd).1

theorem charOfHex?_digits (h : c.toNat < 0x10000) :
    charOfHex? 4 (st.digits c.toNat) = some c := by
  have hvalues : (st.digits c.toNat).mapM Text.hexValue? =
      some [c.toNat / 4096, c.toNat / 256 % 16, c.toNat / 16 % 16, c.toNat % 16] := by
    simp only [Style.digits, List.map_cons, List.map_nil, List.mapM_cons, List.mapM_nil]
    rw [hexValue?_digit (by omega), hexValue?_digit (by omega), hexValue?_digit (by omega),
      hexValue?_digit (by omega)]
    rfl
  have hcode : [c.toNat / 4096, c.toNat / 256 % 16, c.toNat / 16 % 16, c.toNat % 16].foldl
      (fun n digit => 16 * n + digit) 0 = c.toNat := by
    simp only [List.foldl_cons, List.foldl_nil]
    omega
  rw [charOfHex?, hvalues]
  simp only [Option.bind_eq_bind, Option.bind_some, hcode, Text.charOfCode?_toNat]
  rfl

theorem readEscape_digits (h : c.toNat < 0x10000) (rest : List Char) :
    readEscape ('u' :: (st.digits c.toNat ++ rest)) = some (c, rest) := by
  have htake : (st.digits c.toNat ++ rest).take 4 = st.digits c.toNat := rfl
  have hdrop : (st.digits c.toNat ++ rest).drop 4 = rest := rfl
  rw [readEscape, htake, hdrop, charOfHex?_digits h]
  rfl

theorem basicBody_escape (h : readEscape cs = some (c, rest)) :
    basicBody ('\\' :: cs) = prepend c (basicBody rest) := by
  rw [basicBody]
  split
  · next c' rest' h' =>
    obtain ⟨rfl, rfl⟩ := Prod.mk.inj (Option.some.inj (h'.symm.trans h))
    rfl
  · next h' => cases h'.symm.trans h

theorem isBasicChar_of_not_isControl (hc : ¬ isControl c) (hquote : c ≠ '"')
    (hbackslash : c ≠ '\\') : isBasicChar c := by
  rw [isControl, Bool.or_eq_true, decide_eq_true_eq, beq_iff_eq, not_or] at hc
  have hspace : ' ' ≤ c := Nat.le_of_not_lt hc.1
  have hdelete : c ≠ '\x7f' := fun heq => hc.2 (heq ▸ rfl)
  simp [isBasicChar, isCommentChar, hquote, hbackslash, hspace, hdelete]

theorem basicBody_of_isBasicChar (h : isBasicChar c) (rest : List Char) :
    basicBody (c :: rest) = prepend c (basicBody rest) := by
  have hquote : c ≠ '"' := fun heq => absurd (heq ▸ h) (by decide)
  have hbackslash : c ≠ '\\' := fun heq => absurd (heq ▸ h) (by decide)
  rw [basicBody, if_pos h]
  · exact hquote
  · exact hbackslash

/-- A written character is read back as that character. -/
theorem basicBody_writeChar (c : Char) (rest : List Char) :
    basicBody (st.writeChar c ++ rest) = prepend c (basicBody rest) := by
  rw [Style.writeChar]
  split
  · next hc =>
    rcases hc with rfl | rfl
    · exact basicBody_escape rfl
    · exact basicBody_escape rfl
  · next hc =>
    rw [not_or] at hc
    split
    · next hcoded => exact basicBody_escape (readEscape_digits (st.lt_of_coded c hcoded) rest)
    · next hcoded =>
      have hcontrol : ¬ isControl c := mt (st.coded_of_isControl c) hcoded
      exact basicBody_of_isBasicChar (isBasicChar_of_not_isControl hcontrol hc.1 hc.2) rest

theorem basicBody_flatMap_writeChar (cs rest : List Char) :
    basicBody (cs.flatMap st.writeChar ++ '"' :: rest) = some (cs, rest) := by
  induction cs with
  | nil => rw [List.flatMap_nil, List.nil_append, basicBody]
  | cons c cs ih =>
    rw [List.flatMap_cons, List.append_assoc, basicBody_writeChar, ih]
    rfl

theorem exists_writeChar (st : Style) (c : Char) :
    ∃ first rest, st.writeChar c = first :: rest ∧ first ≠ '"' := by
  rw [Style.writeChar]
  split
  · exact ⟨'\\', [c], rfl, by decide⟩
  · next hc =>
    rw [not_or] at hc
    split
    · exact ⟨'\\', 'u' :: st.digits c.toNat, rfl, by decide⟩
    · exact ⟨c, [], rfl, hc.1⟩

theorem readString_of_ne (h : ∀ rest, cs ≠ '"' :: '"' :: rest) :
    readString ('"' :: cs) = asText (basicBody cs) := by
  rw [readString]
  exact h

/-- A written text is read back, if no quote follows it. After an empty text, another quote would
make three. -/
theorem readString_writeText (s : String) (hrest : rest.head? ≠ some '"') :
    readString (st.writeText s ++ rest) = some (s, rest) := by
  have htriple : ∀ more, s.toList.flatMap st.writeChar ++ '"' :: rest ≠ '"' :: '"' :: more := by
    intro more heq
    cases hs : s.toList with
    | nil =>
      rw [hs, List.flatMap_nil, List.nil_append, List.cons.injEq] at heq
      exact hrest (heq.2 ▸ rfl)
    | cons c cs =>
      obtain ⟨first, others, hwritten, hfirst⟩ := exists_writeChar st c
      rw [hs, List.flatMap_cons, hwritten] at heq
      exact hfirst (List.cons.inj heq).1
  rw [Style.writeText, List.cons_append, List.append_assoc, List.singleton_append,
    readString_of_ne htriple, basicBody_flatMap_writeChar]
  exact congrArg (fun t => some (t, rest)) String.ofList_toList

end Texts

/-! ### Values and keys -/

section Lines

variable {st : Style} {key : String} {rest : List Char}

theorem readValue_eq_readScalar {c : Char} (depth : Nat) (hbracket : c ≠ '[')
    (hbrace : c ≠ '\x7b') (cs : List Char) : readValue depth (c :: cs) = readScalar (c :: cs) := by
  rw [readValue.eq_def]
  split <;> simp_all

theorem readValue_writePlain (depth : Nat) (v : Plain) (hrest : rest.head? ≠ some '"') :
    readValue depth (st.writePlain v ++ rest) = some (v.toValue, rest) := by
  cases v with
  | flag b =>
    cases b with
    | false => exact readValue_eq_readScalar depth (by decide) (by decide) _
    | true => exact readValue_eq_readScalar depth (by decide) (by decide) _
  | text s =>
    have hscalar : readValue depth (st.writeText s ++ rest) =
        (readString (st.writeText s ++ rest)).map fun result => (.string result.1, result.2) :=
      readValue_eq_readScalar depth (by decide) (by decide) _
    rw [Style.writePlain, hscalar, readString_writeText s hrest]
    rfl

/-- A key that needs no quotes. -/
structure IsBare (key : String) : Prop where
  ne_nil : key.toList ≠ []
  chars : ∀ c ∈ key.toList, isBareKeyChar c

theorem isBare_iff : IsBare key ↔ key.toList ≠ [] ∧ key.toList.all isBareKeyChar := by
  rw [List.all_eq_true]
  exact ⟨fun h => ⟨h.ne_nil, h.chars⟩, fun h => ⟨h.1, h.2⟩⟩

instance (key : String) : Decidable (IsBare key) :=
  decidable_of_iff _ isBare_iff.symm

/-- A bare key begins with none of the characters that mean something else. -/
theorem IsBare.exists_cons (h : IsBare key) : ∃ first others, key.toList = first :: others ∧
    ∀ other, ¬ isBareKeyChar other → first ≠ other := by
  cases hkey : key.toList with
  | nil => exact absurd hkey h.ne_nil
  | cons first others =>
    have hfirst := h.chars first (hkey ▸ List.mem_cons_self)
    exact ⟨first, others, rfl, fun other hother heq => hother (heq ▸ hfirst)⟩

/-- A bare key is read up to the first character that cannot belong to it. -/
theorem readSimpleKey_bare (h : IsBare key) (hrest : ∀ c ∈ rest.head?, ¬ isBareKeyChar c) :
    readSimpleKey (key.toList ++ rest) = some (key, rest) := by
  have htake : (key.toList ++ rest).takeWhile isBareKeyChar = key.toList := by
    rw [List.takeWhile_append_of_pos h.chars, (Text.dropWhile_of_head? hrest).1, List.append_nil]
  have hdrop : (key.toList ++ rest).dropWhile isBareKeyChar = rest := by
    rw [List.dropWhile_append_of_pos h.chars, (Text.dropWhile_of_head? hrest).2]
  obtain ⟨first, others, hkey, hfirst⟩ := h.exists_cons
  have hbare : readSimpleKey (key.toList ++ rest) =
      if key.toList.isEmpty then none else some (String.ofList key.toList, rest) := by
    rw [readSimpleKey.eq_def]
    split
    · next heq =>
      rw [hkey] at heq
      exact absurd (List.cons.inj heq).1 (hfirst '"' (by decide))
    · next heq =>
      rw [hkey] at heq
      exact absurd (List.cons.inj heq).1 (hfirst '\'' (by decide))
    · rw [htake, hdrop]
  rw [hbare, String.ofList_toList, if_neg (by simpa using h.ne_nil)]

theorem IsBare.dropSpaces_append (h : IsBare key) (rest : List Char) :
    dropSpaces (key.toList ++ rest) = key.toList ++ rest := by
  obtain ⟨first, others, hkey, hfirst⟩ := h.exists_cons
  refine (Text.dropWhile_of_head? fun c hc => ?_).2
  rw [hkey] at hc
  obtain rfl := Option.some.inj hc
  simp [isSpace, hfirst ' ' (by decide), hfirst '\t' (by decide)]

theorem readKey_bare (h : IsBare key) (hrest : ∀ c ∈ rest.head?, ¬ isBareKeyChar c)
    (hpoint : ∀ more, dropSpaces rest ≠ '.' :: more) :
    readKey (key.toList ++ rest) = some ([key], dropSpaces rest) := by
  rw [readKey, keyDepthLimit, readKeyParts, h.dropSpaces_append, readSimpleKey_bare h hrest]
  simp only [Option.bind_eq_bind, Option.bind_some]
  rfl

/-! ### Lines -/

theorem dropSpaces_writePlain (v : Plain) (rest : List Char) :
    dropSpaces (' ' :: (st.writePlain v ++ rest)) = st.writePlain v ++ rest := by
  cases v with
  | text s => rfl
  | flag b => cases b <;> rfl

theorem readPair_writeLine (depth : Nat) {line : String × Plain} (h : IsBare line.1)
    (hrest : rest.head? ≠ some '"') :
    readPair (readValue depth) (st.writeLine line ++ rest) =
      some (([line.1], line.2.toValue), rest) := by
  obtain ⟨key, v⟩ := line
  have hkey : readKey (st.writeLine (key, v) ++ rest) =
      some ([key], '=' :: ' ' :: (st.writePlain v ++ rest)) := by
    rw [Style.writeLine, List.append_assoc]
    refine readKey_bare h (fun c hc => ?_) fun more heq => ?_
    · obtain rfl := Option.some.inj hc
      decide
    · cases heq
  rw [readPair, hkey]
  simp only [Option.bind_eq_bind, Option.bind_some, expect, if_true, dropSpaces_writePlain,
    readValue_writePlain depth v hrest]
  rfl

/-- A line of its own, or the rest of it: nothing more, or a line feed. -/
theorem readAssignment_writeLine {s : Draft.State} {line : String × Plain} (h : IsBare line.1)
    (hnew : s.current.find? line.1 = none) {after : List Char}
    (hrest : rest.head? ≠ some '"') (hafter : lineRest? rest = some after) :
    readAssignment s (st.writeLine line ++ rest) =
      some ({ s with current := s.current.append line.1 (.value line.2.toValue) }, after) := by
  rw [readAssignment, readPair_writeLine nestingLimit h hrest]
  simp only [Option.bind_eq_bind, Option.bind_some, hafter, Draft.State.insert, Draft.insert, hnew,
    Option.isSome_none, Bool.false_eq_true, if_false]
  rfl

/-- A line that begins with a key is an assignment. -/
theorem readLines_writeLine (fuel : Nat) (s : Draft.State) {line : String × Plain}
    (h : IsBare line.1) (rest : List Char) : readLines (fuel + 1) s (st.writeLine line ++ rest) =
      (readAssignment s (st.writeLine line ++ rest)).bind
        fun result => readLines fuel result.1 result.2 := by
  obtain ⟨first, others, hkey, hfirst⟩ := h.exists_cons
  rw [readLines, Style.writeLine, List.append_assoc, h.dropSpaces_append, hkey, List.cons_append]
  split
  · next heq => cases heq
  · next heq => exact absurd (List.cons.inj heq).1 (hfirst '#' (by decide))
  · next heq => exact absurd (List.cons.inj heq).1 (hfirst '[' (by decide))
  · next heq => exact absurd (List.cons.inj heq).1 (hfirst '\n' (by decide))
  · next heq => exact absurd (List.cons.inj heq).1 (hfirst '\r' (by decide))
  · rfl

end Lines

/-! ### Documents -/

section Documents

variable {st : Style} {ended : Bool} {lines : List (String × Plain)}

/-- What follows a line is the end of the document, or a line feed and the other lines. -/
theorem exists_writeLines_cons (st : Style) (ended : Bool) (line : String × Plain)
    (rest : List (String × Plain)) : ∃ tail,
      st.writeLines ended (line :: rest) = st.writeLine line ++ tail ∧
        tail.head? ≠ some '"' ∧ lineRest? tail = some (st.writeLines ended rest) := by
  refine ⟨_, rfl, ?_⟩
  split
  · next hlast =>
    obtain rfl : rest = [] := by simp_all
    exact ⟨by decide, rfl⟩
  · exact ⟨by simp, rfl⟩

theorem length_le_writeLines (st : Style) (ended : Bool) (lines : List (String × Plain)) :
    lines.length ≤ (st.writeLines ended lines).length := by
  induction lines with
  | nil => exact Nat.le_refl _
  | cons line rest ih =>
    rw [Style.writeLines, Style.writeLine]
    split
    · next hlast =>
      obtain rfl : rest = [] := by simp_all
      simp only [List.length_cons, List.length_append]
      omega
    · simp only [List.length_cons, List.length_append]
      omega

theorem dropMark_cons_of_ne {c : Char} (h : c ≠ '\ufeff') (cs : List Char) :
    dropMark (c :: cs) = c :: cs := by
  rw [dropMark]
  rintro more ⟨-⟩
  exact h rfl

/-- Lines are read one by one, and each adds its key to the table. -/
theorem readLines_writeLines {s : Draft.State} {fuel : Nat} (hfuel : lines.length < fuel)
    (hbare : ∀ line ∈ lines, IsBare line.1) (hkeys : (keys s.current ++ keys lines).Nodup) :
    readLines fuel s (st.writeLines ended lines) = some { s with
      current := s.current ++ lines.map fun line => (line.1, .value line.2.toValue) } := by
  induction lines generalizing s fuel with
  | nil =>
    obtain ⟨fuel, rfl⟩ := Nat.exists_eq_add_of_lt hfuel
    rw [List.map_nil, List.append_nil]
    rfl
  | cons line rest ih =>
    obtain ⟨fuel, rfl⟩ : ∃ n, fuel = n + 1 := ⟨fuel - 1, by omega⟩
    obtain ⟨hline, hrest⟩ := List.forall_mem_cons.mp hbare
    have hnew : s.current.find? line.1 = none := by
      rw [Draft.find?_eq_none_iff]
      intro hmem
      exact (List.nodup_append.mp hkeys).2.2 _ hmem _ List.mem_cons_self rfl
    obtain ⟨tail, hlines, hquote, htail⟩ := exists_writeLines_cons st ended line rest
    rw [hlines, readLines_writeLine fuel s hline,
      readAssignment_writeLine hline hnew hquote htail, Option.bind_some, ih]
    · rw [List.map_cons, Draft.append, List.append_assoc, List.singleton_append]
    · simpa using hfuel
    · exact hrest
    · rwa [keys, Draft.append, List.map_append, List.append_assoc]

theorem keys_lineFields (lines : List (String × Plain)) : keys (lineFields lines) = keys lines := by
  rw [keys, lineFields, List.map_map]
  rfl

theorem Plain.settle_toValue (v : Plain) : v.toValue.settle = some v.toValue := by
  cases v <;> rfl

theorem settleFields_lineFields (lines : List (String × Plain)) :
    Value.settleFields (lineFields lines) = some (lineFields lines) := by
  induction lines with
  | nil => rfl
  | cons line rest ih =>
    rw [lineFields, List.map_cons, Value.settleFields, Plain.settle_toValue, ← lineFields, ih]
    rfl

theorem draftFields_lines (lines : List (String × Plain)) :
    draftFields (lines.map fun line => (line.1, .value line.2.toValue)) = lineFields lines := by
  rw [draftFields_eq_map, List.map_map, lineFields]
  refine List.map_congr_left fun line _ => ?_
  rw [Function.comp_apply, Item.toValue]

/-- No bare key is the one that makes a date or time of a table. -/
theorem settle_lineFields (hbare : ∀ line ∈ lines, IsBare line.1) :
    (Value.table (lineFields lines)).settle = some (.table (lineFields lines)) := by
  cases lines with
  | nil => rfl
  | cons line rest =>
    have hkey : line.1 ≠ Value.dateTimeKey := fun heq =>
      absurd (heq ▸ hbare line List.mem_cons_self) (by decide)
    rw [lineFields, List.map_cons, Value.settle, if_neg hkey, Plain.settle_toValue, ← lineFields,
      settleFields_lineFields]
    rfl

section

variable (hbare : ∀ line ∈ lines, IsBare line.1) (hkeys : (keys lines).Nodup)

include hbare hkeys

/-- Lines at the top of a document are its table. -/
theorem document?_writeLines :
    document? (String.ofList (st.writeLines ended lines)) = some (lineFields lines) := by
  have hmark : dropMark (st.writeLines ended lines) = st.writeLines ended lines := by
    cases lines with
    | nil => rfl
    | cons line rest =>
      obtain ⟨first, others, hkey, hfirst⟩ := (hbare line List.mem_cons_self).exists_cons
      rw [Style.writeLines, Style.writeLine, hkey, List.cons_append, List.cons_append]
      exact dropMark_cons_of_ne (hfirst '\ufeff' (by decide)) _
  have hfuel := Nat.lt_succ_of_le (length_le_writeLines st ended lines)
  have hnodup : (keys ({} : Draft.State).current ++ keys lines).Nodup := hkeys
  rw [document?, String.toList_ofList, hmark]
  simp only [Option.bind_eq_bind]
  rw [readLines_writeLines hfuel hbare hnodup, Option.bind_some, Draft.State.finish,
    Option.bind_some, List.nil_append, draftFields_lines, settleFields_lineFields]

/-- Lines below a header are the table that the header names. -/
theorem document?_writeSection {name : String} (hname : IsBare name) :
    document? (String.ofList
        ('[' :: (name.toList ++ ']' :: '\n' :: st.writeLines ended lines))) =
      some [(name, .table (lineFields lines))] := by
  have hkey : readKey (name.toList ++ ']' :: '\n' :: st.writeLines ended lines) =
      some ([name], ']' :: '\n' :: st.writeLines ended lines) := by
    refine readKey_bare hname (fun c hc => ?_) fun more heq => ?_
    · obtain rfl := Option.some.inj hc
      decide
    · cases heq
  have hheader : readHeader {} (name.toList ++ ']' :: '\n' :: st.writeLines ended lines) =
      some ({ place := .table [] name }, st.writeLines ended lines) := by
    obtain ⟨first, others, hcons, hfirst⟩ := hname.exists_cons
    rw [readHeader, hkey]
    · rfl
    · rw [hcons]
      rintro more ⟨-⟩
      exact hfirst '[' (by decide) rfl
  have hlines (fuel : Nat) (hfuel : lines.length < fuel) : readLines (fuel + 1) {}
      ('[' :: (name.toList ++ ']' :: '\n' :: st.writeLines ended lines)) = some
        { place := .table [] name
          current := lines.map fun line => (line.1, .value line.2.toValue) } := by
    have hstep (cs : List Char) : readLines (fuel + 1) {} ('[' :: cs) =
        (readHeader {} cs).bind fun result => readLines fuel result.1 result.2 := rfl
    rw [hstep, hheader, Option.bind_some, readLines_writeLines hfuel hbare]
    · rfl
    · exact hkeys
  have hfinish (current : Draft) : Draft.State.finish { place := .table [] name, current } =
      some [(name, .table .header current)] := rfl
  have hfuel := length_le_writeLines st ended lines
  rw [document?, String.toList_ofList, dropMark_cons_of_ne (by decide)]
  simp only [Option.bind_eq_bind]
  rw [List.length_cons, hlines _ (by simp only [List.length_append, List.length_cons]; omega),
    Option.bind_some, hfinish, Option.bind_some, draftFields_eq_map, List.map_singleton,
    Item.toValue, draftFields_lines, Value.settleFields, settle_lineFields hbare]
  rfl

end

end Documents

end Patchbay.Toml
