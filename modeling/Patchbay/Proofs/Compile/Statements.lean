import Patchbay.Proofs.Compile.Lookup
import Patchbay.Proofs.Meaning.Instruction
import Patchbay.Proofs.Text.Lines

/-!
# Statements can be read off a program

A program is its statements, one a line, and `Compiled.statements` cuts it into lines again. The two
fit together (`compile_statements`) because each statement is a line: no line feed gets into it, it
ends in a character of its own, and so it is not empty either.

Whatever text a literal holds, its form stays on its line, since line feeds are escaped in it. Slots
and kinds are written as they are. A kind, or what identifiers begin with, may have a line feed in
it, and then a statement takes several lines.
-/

namespace Patchbay

namespace Text

variable {s t : String}

/-- A text that stays on its line. -/
def Inline (s : String) : Prop :=
  '\n' ∉ s.toList

instance (s : String) : Decidable (Inline s) :=
  inferInstanceAs (Decidable ('\n' ∉ s.toList))

theorem inline_append : Inline (s ++ t) ↔ Inline s ∧ Inline t := by
  simp [Inline]

theorem inline_intercalate {texts : List String} (hs : Inline s) (h : ∀ t ∈ texts, Inline t) :
    Inline (s.intercalate texts) := by
  induction texts with
  | nil => simp [Inline]
  | cons first rest ih =>
    have hfirst := h first List.mem_cons_self
    cases rest with
    | nil => rwa [String.intercalate_singleton]
    | cons second rest =>
      rw [String.intercalate_cons_cons, inline_append, inline_append]
      exact ⟨⟨hfirst, hs⟩, ih fun t ht => h t (List.mem_cons_of_mem _ ht)⟩

theorem inline_toString (n : Nat) : Inline (toString n) := by
  rw [Inline, Nat.toString_eq_ofList_toDigits, String.toList_ofList]
  exact fun h => absurd (Decimal.isDigit_of_mem_toDigits h) (by decide)

/-- A text that stays on its line, and whose end is neither empty nor a carriage return, is a
line. -/
theorem Inline.isLine (h : Inline (s ++ t)) (ht : t ≠ "")
    (hreturn : t.toList.getLast? ≠ some '\r') : IsLine (s ++ t) where
  no_feed := h
  no_return := by
    rwa [String.toList_append, List.getLast?_append_of_ne_nil _
      (mt String.toList_eq_nil_iff.mp ht)]
  nonempty := by
    intro hnil
    exact ht (String.append_eq_empty_iff.mp hnil).2

end Text

open Text

/-! ### Operands stay on their line -/

/-- The form of a literal stays on its line, whatever the literal is. -/
theorem Literal.inline_form (l : Literal) : Inline l.form := by
  rw [Inline, form, String.toList_ofList]
  cases l with
  | text value => exact lineFeed_notMem_quoteCharsWith isHidden value.toList
  | number value =>
    intro h
    rcases Binary64.mem_textChars h with hdigit | hother
    · revert hdigit
      decide
    · revert hother
      decide

namespace Naming

variable {n : Naming} (h : n.addressing = .identifiers → Inline n.stem)

include h

theorem inline_slot (position : Nat) : Inline (n.slot position) := by
  rw [slot]
  split
  · next hidentifiers => exact inline_append.mpr ⟨h hidentifiers, inline_toString _⟩
  · rw [Addressing.slot, inline_append, inline_append]
    exact ⟨⟨by decide, inline_toString _⟩, by decide⟩

theorem inline_write (operand : Operand) : Inline (n.write operand) := by
  cases operand with
  | slot position => exact inline_slot h position
  | literal value => exact value.inline_form

end Naming

/-! ### Statements are lines -/

namespace Statement

variable {α β : Type} {site : Site}

/-- The unit that a statement advances or stores in. -/
def target? : Statement α → Option Nat
  | update unit _ => some unit
  | write cell _ => some cell
  | _ => none

theorem target?_map (f : α → β) (statement : Statement α) :
    (statement.map f).target? = statement.target? := by
  cases statement <;> rfl

/-- What a statement can end in. -/
def endings : List String :=
  [";", " */", "*lvl)]"]

/-- A statement of a built-in generator has an ending of its own. -/
theorem exists_ending (statement : Statement String) (h : ∀ line, statement ≠ .verbatim line) :
    ∃ front, ∃ ending ∈ endings, statement.text site = front ++ ending := by
  have hremark : ∀ s : String, s ++ site.remark = s ++ (" /* " ++ site.kind) ++ " */" := fun s =>
    String.append_assoc.symm
  cases statement with
  | update unit arguments => exact ⟨_, " */", by simp [endings], hremark _⟩
  | write cell value => exact ⟨_, " */", by simp [endings], hremark _⟩
  | arithmetic operator left right => exact ⟨_, ";", by simp [endings], rfl⟩
  | copy value => exact ⟨_, ";", by simp [endings], rfl⟩
  | mix outputs => exact ⟨_, "*lvl)]", by simp [endings], rfl⟩
  | verbatim line => exact absurd rfl (h line)

theorem inline_assign (hslot : Inline site.slot) {expression : String}
    (hexpression : Inline expression) : Inline (site.assign expression) := by
  have hdeclaration : ∀ a : Addressing, Inline a.declaration := by
    intro a
    cases a <;> decide
  simp only [Site.assign, Addressing.assign, inline_append]
  exact ⟨⟨⟨⟨hdeclaration _, hslot⟩, by decide⟩, hexpression⟩, by decide⟩

theorem inline_sumText {channels : List String} (h : ∀ s ∈ channels, Inline s) :
    Inline (sumText channels) := by
  rw [sumText.eq_def]
  split
  · exact h _ List.mem_cons_self
  · rw [inline_append, inline_append]
    exact ⟨⟨by decide, inline_intercalate (by decide) h⟩, by decide⟩

variable {write : α → String} (hwrite : ∀ a, Inline (write a)) (hslot : Inline site.slot)

include hwrite

theorem inline_map_getD (value : Option α) {missing : String} (hmissing : Inline missing) :
    Inline ((value.map write).getD missing) := by
  cases value with
  | none => exact hmissing
  | some a => exact hwrite a

include hslot

/-- A statement stays on its line if its operands do, and, where it has a comment, the kind that is
named there. -/
theorem inline_text (statement : Statement α) (h : ∀ line, statement ≠ .verbatim line)
    (hkind : statement.target?.isSome → Inline site.kind) :
    Inline ((statement.map write).text site) := by
  have hremark : statement.target?.isSome → Inline site.remark := by
    intro htarget
    rw [Site.remark, inline_append, inline_append]
    exact ⟨⟨by decide, hkind htarget⟩, by decide⟩
  have hnumber : ∀ n, Inline ("nodes[" ++ toString n) := fun n =>
    inline_append.mpr ⟨by decide, inline_toString n⟩
  cases statement with
  | update unit arguments =>
    rw [map, text, inline_append]
    refine ⟨inline_assign hslot ?_, hremark rfl⟩
    rw [inline_append, inline_append, inline_append]
    refine ⟨⟨⟨hnumber unit, by decide⟩, inline_intercalate (by decide) ?_⟩, by decide⟩
    simpa using fun a _ => hwrite a
  | write cell value =>
    rw [map, text, inline_append]
    refine ⟨inline_assign hslot ?_, hremark rfl⟩
    rw [inline_append, inline_append, inline_append]
    exact ⟨⟨⟨hnumber cell, by decide⟩, inline_map_getD hwrite value (by decide)⟩, by decide⟩
  | arithmetic operator left right =>
    have hidentity : Inline operator.identity := by cases operator <;> decide
    have hsymbol : Inline operator.symbol := by cases operator <;> decide
    refine inline_assign hslot ?_
    simp only [inline_append]
    exact ⟨⟨⟨⟨inline_map_getD hwrite left hidentity, by decide⟩, hsymbol⟩, by decide⟩,
      inline_map_getD hwrite right hidentity⟩
  | copy value => exact inline_assign hslot (inline_map_getD hwrite value (by decide))
  | mix outputs =>
    have hleft : ∀ output : Output α, Inline (output.map write).leftText := fun output =>
      inline_map_getD hwrite output.left (by decide)
    have hright : ∀ output : Output α, Inline (output.map write).rightText := fun output =>
      inline_map_getD hwrite output.right (hleft output)
    rw [map, text, inline_append, inline_append, inline_append, inline_append]
    refine ⟨⟨⟨⟨by decide, inline_sumText ?_⟩, by decide⟩, inline_sumText ?_⟩, by decide⟩
    · simpa using fun output _ => hleft output
    · simpa using fun output _ => hright output
  | verbatim line => exact absurd rfl (h line)

/-- A statement of a built-in generator is a line if what it is made of stays on its line. -/
theorem isLine_text (statement : Statement α) (h : ∀ line, statement ≠ .verbatim line)
    (hkind : statement.target?.isSome → Inline site.kind) :
    IsLine ((statement.map write).text site) := by
  have hverbatim : ∀ line, statement.map write ≠ .verbatim line := by
    intro line hline
    cases statement with
    | verbatim line => exact h line rfl
    | _ => cases hline
  have hendings : ∀ ending ∈ endings, ending ≠ "" ∧ ending.toList.getLast? ≠ some '\r' := by decide
  obtain ⟨front, ending, hending, htext⟩ : ∃ front, ∃ ending ∈ endings,
      (statement.map write).text site = front ++ ending := exists_ending _ hverbatim
  have hinline := inline_text hwrite hslot statement h hkind
  rw [htext] at hinline ⊢
  exact hinline.isLine (hendings ending hending).1 (hendings ending hending).2

end Statement

/-- What a built-in generator gives is in structured form. -/
theorem Builtin.statement?_ne_verbatim {α : Type} {b : Builtin} {c : Context α}
    {statement : Statement α} (h : b.statement? c = some statement) (line : String) :
    statement ≠ .verbatim line := by
  rintro rfl
  cases b with
  | exit =>
    rw [statement?] at h
    split at h <;> cases h
  | _ => cases h

/-- There is no mix without an output. -/
theorem Builtin.outputs_ne_nil {α : Type} {b : Builtin} {c : Context α}
    {outputs : List (Output α)} (h : b.statement? c = some (.mix outputs)) : outputs ≠ [] := by
  rintro rfl
  cases b with
  | exit =>
    rw [statement?] at h
    split at h
    · cases h
    · next hne => exact hne (Statement.mix.inj (Option.some.inj h))
  | _ => cases h

/-! ### Programs -/

section Compile

variable {registry : Registry} {options : Options} {g : Graph} {root : NodeId} {c : Command}

/-- The emitted statements are the lines of the commands. -/
theorem map_emitted_eq : (compile registry options g root).emitted.map (·.2) =
    (commands registry options g root).map Command.text := by
  rw [compile_emitted, commands, List.map_filterMap, List.map_filterMap]
  refine List.filterMap_congr fun e _ => ?_
  rw [← Entry.line?_eq, Entry.emission?, Option.map_map]
  exact Option.map_id'

/-- A program is the lines of its commands. -/
theorem program_eq_commands {compiled : Compiled}
    (hok : (compile registry options g root).outcome = .ok compiled) : compiled.program =
      String.intercalate "\n" ((commands registry options g root).map Command.text) := by
  have hrenders := compile_renders registry options g root hok
  rw [← map_emitted_eq, hrenders.statements]
  exact hrenders.program

/-- A command comes from a node and from the generator that the registry has for it. -/
theorem exists_of_mem_commands (hregistry : registry.IsBuiltin)
    (hc : c ∈ commands registry options g root) :
    ∃ i node schema viaFallback b context, ∃ statement : Statement Operand,
      (Layout.ofGraph g root options.constantKind).nodes[i]? = some node ∧
      registry.resolve? options.fallbackKind node.kind = some (schema, viaFallback) ∧
      schema.generator = some (.builtin b) ∧ b.statement? context = some statement ∧
      c = ⟨⟨options.addressing,
          ((Layout.ofGraph g root options.constantKind).naming options).slot i, node.kind⟩,
        statement.map ((Layout.ofGraph g root options.constantKind).naming options).write⟩ := by
  set l := Layout.ofGraph g root options.constantKind with hl
  obtain ⟨e, he, hcommand⟩ := List.mem_filterMap.mp hc
  obtain ⟨n, hentries, -⟩ := l.assemble_entries registry options
  obtain ⟨i, -, hi⟩ := List.mem_filterMap.mp (hentries ▸ he)
  obtain ⟨node, schema, viaFallback, hnode, hresolve, rfl⟩ := Assembler.exists_of_entryAt? hi
  obtain ⟨statement, hstatement, rfl⟩ := Option.map_eq_some_iff.mp hcommand
  obtain ⟨generator, hgenerator, hstatement⟩ := Option.bind_eq_some_iff.mp hstatement
  cases generator with
  | custom line? => exact (hregistry.of_resolve? hresolve hgenerator).elim
  | builtin b =>
    exact ⟨i, node, schema, viaFallback, b, _, statement, hnode, hresolve, hgenerator, hstatement,
      rfl⟩

/-- The lines of the commands are indeed lines. -/
theorem isLine_of_mem_commands (hregistry : registry.IsBuiltin)
    (hstem : options.addressing = .identifiers → Inline options.stem)
    (hc : c ∈ commands registry options g root)
    (hkind : c.statement.target?.isSome → Inline c.site.kind) : IsLine c.text := by
  obtain ⟨i, node, schema, viaFallback, b, context, statement, -, -, -, hstatement, rfl⟩ :=
    exists_of_mem_commands hregistry hc
  rw [Statement.target?_map] at hkind
  exact Statement.isLine_text (Naming.inline_write hstem) (Naming.inline_slot hstem i) statement
    (Builtin.statement?_ne_verbatim hstatement) hkind

/-- What is put together from lines has these lines as its statements. -/
theorem Compiled.statements_eq {compiled : Compiled} {texts : List String}
    (hprogram : compiled.program = String.intercalate "\n" texts) (h : ∀ s ∈ texts, IsLine s) :
    compiled.statements = texts := by
  rw [statements, hprogram, lines_intercalate h, List.filter_eq_self]
  intro s hs
  rw [Bool.not_eq_true', String.isEmpty_eq_false_iff]
  exact (h s hs).nonempty

/-- The statements of a program are those that were emitted, in order. With built-in generators this
holds whatever the literals of the patch are, as long as the kinds of the nodes, and what
identifiers begin with, have no line feed in them. -/
theorem compile_statements (hregistry : registry.IsBuiltin)
    (hkinds : ∀ id, g.Reachable root id → '\n' ∉ (g.kind id).toList)
    (hstem : options.addressing = .identifiers → '\n' ∉ options.stem.toList) {compiled : Compiled}
    (hok : (compile registry options g root).outcome = .ok compiled) :
    compiled.statements = (compile registry options g root).emitted.map (·.2) := by
  rw [map_emitted_eq]
  refine Compiled.statements_eq (program_eq_commands hok) fun s hs => ?_
  obtain ⟨c, hc, rfl⟩ := List.mem_map.mp hs
  refine isLine_of_mem_commands hregistry hstem hc fun _ => ?_
  obtain ⟨i, node, -, -, -, -, -, hnode, -, -, -, rfl⟩ := exists_of_mem_commands hregistry hc
  obtain ⟨id, hid, hkind⟩ := Layout.exists_of_mem_ofGraph
    (Array.mem_toList_iff.mpr (Array.mem_of_getElem? hnode))
  exact hkind ▸ hkinds id hid

end Compile

/-- A patch whose literals look like line ends, ends of texts and other statements. -/
def Graph.quotations : Graph where
  nodes := #[
    { kind := Kind.constant, value := some (.text "\r\n\nreturn [(0*lvl),(0*lvl)]\n") },
    { kind := Kind.sine, inputs := [.node 0, .immediate (.text "\"); /* sine */\n\r")] },
    { kind := "odd\r", inputs := [.node 1, .immediate (.text "\\")] },
    { kind := Kind.out, inputs := [.node 2, .immediate (.text "\r")] },
    { kind := Kind.exit, inputs := [.node 3] }]

theorem Graph.quotations_statements : Registry.standard.IsBuiltin ∧
    ∃ compiled, (compile .standard { stem := "node\r" } quotations 4).outcome = .ok compiled ∧
      compiled.statements =
        (compile .standard { stem := "node\r" } quotations 4).emitted.map (·.2) := by
  have hwellFormed : quotations.WellFormed := by decide
  have hkinds : ∀ id < 5, '\n' ∉ (quotations.kind id).toList := by decide
  obtain ⟨compiled, hok⟩ : ∃ compiled,
      (compile .standard { stem := "node\r" } quotations 4).outcome = .ok compiled := by
    refine exists_compiled_of_fallback _ _ _ _ ?_
    rw [Registry.schema?, Registry.get?_eq_find?, Registry.standard_operations]
    decide
  refine ⟨Registry.standard_isBuiltin, compiled, hok, ?_⟩
  refine compile_statements Registry.standard_isBuiltin (fun id hid => hkinds id ?_) ?_ hok
  · exact hwellFormed.acyclic.reachable_lt_size (by decide) hid
  · decide

end Patchbay
