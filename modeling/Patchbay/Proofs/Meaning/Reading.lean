import Patchbay.Proofs.Compile.Statements

/-!
# Reading programs back

The line of a command is read as the instruction that the command is meant to be
(`Command.read?_text`), whatever its literals hold, and so a host that has nothing but a compiled
patch recovers the instructions of all its nodes (`Compiled.mapM_read?_statements`).

The reader takes one thing after another off the front of a line, so there is one lemma for each of
them, with anything behind it. They rest on `token?_append`: an operand is a word without
delimiters or a quoted form, and either can be told from what follows. Of the choices that a compile
is given, only what identifiers begin with has a say in this (`Addressing.Legible`).
-/

namespace Patchbay

open Text

namespace Instruction

variable {s target : String} {rest : List Char} {a : Addressing}

/-! ### Words and tokens -/

/-- A text without delimiters. -/
def IsWord (s : String) : Prop :=
  ∀ c ∈ s.toList, isDelimiter c = false

theorem isWord_iff_all : IsWord s ↔ s.toList.all (!isDelimiter ·) = true := by
  simp only [IsWord, List.all_eq_true, Bool.not_eq_true']

instance (s : String) : Decidable (IsWord s) :=
  decidable_of_iff' _ isWord_iff_all

theorem isWord_append {t : String} : IsWord (s ++ t) ↔ IsWord s ∧ IsWord t := by
  simp only [IsWord, String.toList_append, List.mem_append, or_imp, forall_and]

theorem isDelimiter_of_isDigit {c : Char} (h : c.isDigit) : isDelimiter c = false := by
  rw [isDelimiter, ← Bool.not_eq_true, List.contains_iff_mem]
  intro hmem
  have hall : [' ', ',', ';', '(', ')', '*', '"', '\n'].all (!Char.isDigit ·) = true := by decide
  have hdigit := List.all_eq_true.mp hall c hmem
  rw [h] at hdigit
  cases hdigit

theorem toString_ne_empty (n : Nat) : toString n ≠ "" := by
  rw [Nat.toString_eq_ofList_toDigits, ne_eq, ← String.toList_eq_nil_iff, String.toList_ofList]
  exact Nat.toDigits_ne_nil

theorem isWord_toString (n : Nat) : IsWord (toString n) := by
  rw [IsWord, Nat.toString_eq_ofList_toDigits, String.toList_ofList]
  exact fun c hc => isDelimiter_of_isDigit (Decimal.isDigit_of_mem_toDigits hc)

/-- A text that can stand for an operand: a word or a quoted form. -/
def IsToken (s : String) : Prop :=
  (s ≠ "" ∧ IsWord s) ∨ ∃ hidden cs, s.toList = quoteCharsWith hidden cs

private theorem token?_word_append (hne : s ≠ "") (hword : IsWord s)
    (hrest : rest.head?.any isDelimiter = true) :
    token? (s.toList ++ rest) = some (s, rest) := by
  obtain ⟨c, cs, hcons⟩ := List.exists_cons_of_ne_nil (mt String.toList_eq_nil_iff.mp hne)
  have hquote : c ≠ '"' := by
    rintro rfl
    cases hword '"' (hcons ▸ List.mem_cons_self)
  have hpos : ∀ c ∈ s.toList, (!isDelimiter c) = true := fun c hc => by rw [hword c hc]; rfl
  have hstop : rest.takeWhile (!isDelimiter ·) = [] ∧ rest.dropWhile (!isDelimiter ·) = rest := by
    cases rest with
    | nil => cases hrest
    | cons d rest =>
      have hd : isDelimiter d = true := hrest
      simp [hd]
  have htake : (s.toList ++ rest).takeWhile (!isDelimiter ·) = c :: cs := by
    rw [List.takeWhile_append_of_pos hpos, hstop.1, List.append_nil, hcons]
  have hdrop : (s.toList ++ rest).dropWhile (!isDelimiter ·) = rest := by
    rw [List.dropWhile_append_of_pos hpos, hstop.2]
  have hform : String.ofList (c :: cs) = s := by rw [← hcons, String.ofList_toList]
  unfold token?
  split
  · -- a word does not open a quote
    next heq =>
    rw [hcons] at heq
    exact absurd (List.cons.inj heq).1 hquote
  · rw [htake, hdrop]
    exact congrArg (fun s => some (s, rest)) hform

private theorem token?_quoted_append {hidden : Char → Bool} {cs : List Char}
    (hs : s.toList = quoteCharsWith hidden cs) :
    token? (s.toList ++ rest) = some (s, rest) := by
  have hcons : s.toList ++ rest = '"' :: ((quoteCharsWith hidden cs).tail ++ rest) := by
    rw [hs]
    rfl
  have hlength : ((quoteCharsWith hidden cs).tail ++ rest).length - rest.length =
      (quoteCharsWith hidden cs).tail.length := by
    rw [List.length_append, Nat.add_sub_cancel]
  have hform : '"' :: (quoteCharsWith hidden cs).tail = s.toList := hs.symm
  rw [hcons, token?, afterQuote?_quoteCharsWith, Option.map_some, hlength, List.take_left' rfl,
    hform, String.ofList_toList]

/-- An operand ends where a delimiter follows it. -/
theorem token?_append (hs : IsToken s) (hrest : rest.head?.any isDelimiter = true) :
    token? (s.toList ++ rest) = some (s, rest) := by
  rcases hs with ⟨hne, hword⟩ | ⟨hidden, cs, hs⟩
  · exact token?_word_append hne hword hrest
  · exact token?_quoted_append hs

theorem dropPrefix?_append (front rest : List Char) :
    (front ++ rest).dropPrefix? front = some rest :=
  List.dropPrefix?_append_of_beq rest (beq_self_eq_true front)

/-- Operands with a separator between them end where neither a word nor the separator goes on. -/
theorem tokens?_append {separator : String} (hseparator : separator.toList.head?.any isDelimiter)
    (hrest : rest.head?.any isDelimiter) (hend : rest.dropPrefix? separator.toList = none)
    {tokens : List String} (hne : tokens ≠ []) (h : ∀ s ∈ tokens, IsToken s) :
    tokens? separator.toList ((separator.intercalate tokens).toList ++ rest) =
      some (tokens, rest) := by
  induction tokens with
  | nil => exact absurd rfl hne
  | cons first others ih =>
    have hfirst := h first List.mem_cons_self
    cases others with
    | nil =>
      rw [String.intercalate_singleton]
      exact tokens?_of_last (token?_append hfirst hrest) hend
    | cons second others =>
      have hothers := ih (List.cons_ne_nil _ _) fun s hs => h s (List.mem_cons_of_mem _ hs)
      have hsplit : (separator.intercalate (first :: second :: others)).toList ++ rest =
          first.toList ++ (separator.toList ++
            ((separator.intercalate (second :: others)).toList ++ rest)) := by
        simp only [String.intercalate_cons_cons, String.toList_append, List.append_assoc]
      have hhead : ∀ text, (separator.toList ++ text).head?.any isDelimiter = true := by
        intro text
        revert hseparator
        cases separator.toList <;> simp
      rw [hsplit, tokens?_of_separator (token?_append hfirst (hhead _)) (dropPrefix?_append _ _),
        hothers]
      rfl

private theorem tokens?_bracket (separator cs : List Char) :
    tokens? separator (')' :: cs) = none := by
  rw [tokens?]
  split
  · rfl
  · next h => cases h

/-- The arguments of a call end at its closing bracket. -/
theorem arguments?_append {arguments : List String} (h : ∀ s ∈ arguments, IsToken s)
    (rest : List Char) :
    arguments? ((String.intercalate "," arguments).toList ++ (")".toList ++ rest)) =
      some (arguments, rest) := by
  cases arguments with
  | nil => rfl
  | cons first others =>
    have hend : (")".toList ++ rest).dropPrefix? ",".toList = none := rfl
    have htokens := tokens?_append rfl rfl hend (List.cons_ne_nil first others) h
    unfold arguments?
    split
    · -- no operand begins with a bracket, so this is not the empty list
      next heq => rw [heq, tokens?_bracket] at htokens; cases htokens
    · rw [htokens]
      exact congrArg (Option.bind · _) (dropPrefix?_append ")".toList rest)

/-- The operands of a sum end where the sum does. -/
theorem channels?_append {channels : List String} (hne : channels ≠ [])
    (h : ∀ s ∈ channels, IsToken s) (hrest : rest.head?.any isDelimiter = true) :
    channels? ((Statement.sumText channels).toList ++ rest) = some (channels, rest) := by
  rw [Statement.sumText.eq_def]
  split
  · next single =>
    have htoken := token?_append (h single List.mem_cons_self) hrest
    unfold channels?
    split
    · next heq => rw [heq] at htoken; cases htoken
    · rw [htoken]
      rfl
  · have htext : ("(" ++ String.intercalate " + " channels ++ ")").toList ++ rest =
        '(' :: ((String.intercalate " + " channels).toList ++ (")".toList ++ rest)) := by
      simp
    have hend : (")".toList ++ rest).dropPrefix? " + ".toList = none := rfl
    rw [htext, channels?, tokens?_append rfl rfl hend hne h]
    exact congrArg (Option.bind · _) (dropPrefix?_append ")".toList rest)

/-! ### Lines -/

/-- A line that stores something tells what is stored, and where. -/
theorem assignment?_append (htarget : IsToken target) (rest : List Char) :
    assignment? a (a.declaration.toList ++ (target.toList ++ (" = ".toList ++ rest))) =
      stored? target rest := by
  have hdeclared : declared? a (a.declaration.toList ++ (target.toList ++ (" = ".toList ++ rest))) =
      some (target.toList ++ (" = ".toList ++ rest)) := by
    cases a with
    | identifiers => exact dropPrefix?_append _ _
    | registers => rfl
  have htoken : token? (target.toList ++ (" = ".toList ++ rest)) =
      some (target, " = ".toList ++ rest) := token?_append htarget rfl
  rw [assignment?, hdeclared]
  refine (congrArg (Option.bind · _) htoken).trans ?_
  exact congrArg (Option.bind · _) (dropPrefix?_append " = ".toList rest)

theorem read?_assign (htarget : IsToken target) {expression remark : String} {i : Instruction}
    (h : stored? target (expression.toList ++ (";".toList ++ remark.toList)) = some i) :
    read? a (a.assign target expression ++ remark) = some i := by
  have htext : (a.assign target expression ++ remark).toList =
      a.declaration.toList ++ (target.toList ++ (" = ".toList ++
        (expression.toList ++ (";".toList ++ remark.toList)))) := by
    simp only [Addressing.assign, String.toList_append, List.append_assoc]
  rw [read?, htext, assignment?_append htarget, h, Option.some_or]

theorem stored?_copy {value : String} (h : IsToken value) :
    stored? target (value.toList ++ (";".toList ++ "".toList)) = some (copy target value) := by
  rw [stored?, token?_append h rfl]
  rfl

theorem stored?_arithmetic {left right : String} (hleft : IsToken left) (hright : IsToken right)
    (operator : Operator) :
    stored? target ((left ++ " " ++ operator.symbol ++ " " ++ right).toList ++
        (";".toList ++ "".toList)) =
      some (arithmetic target operator.sign left right) := by
  have hsymbol : operator.symbol.toList = [operator.sign] := by cases operator <;> rfl
  have hsign : ['+', '-', '*', '/'].contains operator.sign = true := by cases operator <;> rfl
  have htext : (left ++ " " ++ operator.symbol ++ " " ++ right).toList ++
      (";".toList ++ "".toList) =
      left.toList ++ (' ' :: operator.sign :: ' ' :: (right.toList ++ [';'])) := by
    simp [hsymbol]
  rw [htext, stored?, token?_append hleft rfl]
  refine (congrArg (Option.bind · _) (token?_append hright rfl)).trans ?_
  exact if_pos ⟨hsign, rfl⟩

theorem callee?_append (k : Nat) (method : String) :
    callee? ("nodes[" ++ toString k ++ "]." ++ method) = some (k, method) := by
  have hdigits : ∀ c ∈ Nat.toDigits 10 k, c.isDigit = true := fun c =>
    Decimal.isDigit_of_mem_toDigits
  have htext : ("nodes[" ++ toString k ++ "]." ++ method).toList =
      "nodes[".toList ++ (Nat.toDigits 10 k ++ ("].".toList ++ method.toList)) := by
    simp only [String.toList_append, List.append_assoc, Nat.toString_eq_ofList_toDigits,
      String.toList_ofList]
  have htake : (Nat.toDigits 10 k ++ ("].".toList ++ method.toList)).takeWhile Char.isDigit =
      Nat.toDigits 10 k := by
    rw [List.takeWhile_append_of_pos hdigits]
    exact List.append_nil _
  have hdrop : (Nat.toDigits 10 k ++ ("].".toList ++ method.toList)).dropWhile Char.isDigit =
      "].".toList ++ method.toList := List.dropWhile_append_of_pos hdigits
  rw [callee?, htext, dropPrefix?_append, Option.bind_eq_bind, Option.bind_some, htake, hdrop,
    dropPrefix?_append]
  refine (if_neg Nat.toDigits_ne_nil).trans ?_
  rw [Nat.ofDigitChars_toDigits (by decide) (by decide), String.ofList_toList]

theorem isToken_callee (k : Nat) {method : String} (h : IsWord method) :
    IsToken ("nodes[" ++ toString k ++ "]." ++ method) := by
  refine .inl ⟨?_, ?_⟩
  · simp
  · simp only [isWord_append]
    exact ⟨⟨⟨by decide, isWord_toString k⟩, by decide⟩, h⟩

/-- A call is read as what its method does. -/
theorem stored?_call {callee kind : String} (hcallee : IsToken callee) {arguments : List String}
    (harguments : ∀ s ∈ arguments, IsToken s) :
    stored? target (callee.toList ++ ("(".toList ++ ((String.intercalate "," arguments).toList ++
        (")".toList ++ (";".toList ++ (" /* " ++ kind ++ " */").toList))))) =
      call? target callee arguments := by
  have hremark : isRemark (" /* " ++ kind ++ " */").toList = true := by
    rw [isRemark, Bool.and_eq_true, List.isPrefixOf_iff_prefix, List.isSuffixOf_iff_suffix]
    constructor
    · exact ⟨kind.toList ++ " */".toList, by simp only [String.toList_append, List.append_assoc]⟩
    · exact ⟨" /* ".toList ++ kind.toList, by simp only [String.toList_append]⟩
  rw [stored?, token?_append hcallee rfl]
  refine (congrArg (Option.bind · _) (arguments?_append harguments _)).trans ?_
  refine (congrArg (Option.bind · _) (dropPrefix?_append ";".toList _)).trans ?_
  exact if_pos hremark

/-- The line that returns the mix gives its operands. -/
theorem read?_mix {left right : List String} (hleft : left ≠ []) (hright : right ≠ [])
    (hleft' : ∀ s ∈ left, IsToken s) (hright' : ∀ s ∈ right, IsToken s) :
    read? a ("return [(" ++ Statement.sumText left ++ "*lvl),(" ++ Statement.sumText right
      ++ "*lvl)]") = some (mix left right) := by
  have htext : ("return [(" ++ Statement.sumText left ++ "*lvl),(" ++ Statement.sumText right
      ++ "*lvl)]").toList = "return [(".toList ++ ((Statement.sumText left).toList ++
        ("*lvl),(".toList ++ ((Statement.sumText right).toList ++ "*lvl)]".toList))) := by
    simp only [String.toList_append, List.append_assoc]
  -- no slot is assigned: nothing is declared, and no equals sign follows the first word
  have hassignment : ∀ text, assignment? a ("return [(".toList ++ text) = none := by
    intro text
    cases a with
    | identifiers => rfl
    | registers => rfl
  rw [read?, htext, hassignment, Option.none_or, mix?, dropPrefix?_append, Option.bind_eq_bind,
    Option.bind_some, channels?_append hleft hleft' rfl]
  refine (congrArg (Option.bind · _) (dropPrefix?_append "*lvl),(".toList _)).trans ?_
  refine (congrArg (Option.bind · _) (channels?_append hright hright' rfl)).trans ?_
  rw [Option.bind_some]
  exact if_pos rfl

end Instruction

open Instruction

/-! ### Operands -/

/-- The form of a literal can stand for an operand, whatever the literal is. -/
theorem Literal.isToken_form (l : Literal) : IsToken l.form := by
  cases l with
  | text value => exact .inr ⟨isHidden, value.toList, String.toList_ofList⟩
  | number value =>
    have hother : IsWord "-.infNa" := by decide
    refine .inl ⟨?_, ?_⟩
    · rw [form, ne_eq, ← String.toList_eq_nil_iff, String.toList_ofList]
      exact value.textChars_ne_nil
    · rw [IsWord, form, String.toList_ofList]
      exact fun c hc => (Binary64.mem_textChars hc).elim isDelimiter_of_isDigit (hother c)

/-- What identifiers begin with has no delimiters in it. Registers are always fine. -/
def Addressing.Legible (a : Addressing) (stem : String) : Prop :=
  a = .identifiers → IsWord stem

theorem Addressing.Legible.inline {a : Addressing} {stem : String} (h : a.Legible stem) :
    a = .identifiers → Inline stem := by
  intro hidentifiers hfeed
  cases h hidentifiers _ hfeed

namespace Naming

variable {n : Naming} (h : n.addressing.Legible n.stem)

include h

theorem isToken_slot (position : Nat) : IsToken (n.slot position) := by
  rw [slot]
  split
  · next hidentifiers =>
    exact .inl ⟨fun hnil => toString_ne_empty _ (String.append_eq_empty_iff.mp hnil).2,
      isWord_append.mpr ⟨h hidentifiers, isWord_toString _⟩⟩
  · rw [Addressing.slot]
    refine .inl ⟨fun hnil => ?_, ?_⟩
    · exact absurd (String.append_eq_empty_iff.mp hnil).2 (by decide)
    · rw [isWord_append, isWord_append]
      exact ⟨⟨by decide, isWord_toString _⟩, by decide⟩

theorem isToken_write (operand : Operand) : IsToken (n.write operand) := by
  cases operand with
  | slot position => exact isToken_slot h position
  | literal value => exact value.isToken_form

end Naming

/-! ### Commands -/

namespace Statement

variable {site : Site} (hslot : IsToken site.slot)

include hslot

/-- A call is read as what its method does, however it has been put together. -/
private theorem read?_call (k : Nat) {method expression : String} (hmethod : IsWord method)
    {arguments : List String} (h : ∀ s ∈ arguments, IsToken s)
    (hexpression : expression.toList = ("nodes[" ++ toString k ++ "]." ++ method).toList ++
      ("(".toList ++ ((String.intercalate "," arguments).toList ++ ")".toList))) {i : Instruction}
    (hcall : call? site.slot ("nodes[" ++ toString k ++ "]." ++ method) arguments = some i) :
    read? site.addressing (site.assign expression ++ site.remark) = some i := by
  refine read?_assign hslot ?_
  simp only [hexpression, List.append_assoc]
  exact (stored?_call (isToken_callee k hmethod) h).trans hcall

theorem read?_update (k : Nat) {arguments : List String} (h : ∀ s ∈ arguments, IsToken s) :
    read? site.addressing ((update k arguments).text site) =
      some (.update site.slot k arguments) := by
  refine read?_call hslot k (by decide : IsWord "update") h (by simp) ?_
  rw [call?, callee?_append]
  rfl

theorem read?_write (k : Nat) {value : Option String} (h : IsToken (value.getD "0")) :
    read? site.addressing ((Statement.write k value).text site) =
      some (.write site.slot k (value.getD "0")) := by
  refine read?_call hslot k (by decide : IsWord "write") (List.forall_mem_singleton.mpr h)
    (by simp) ?_
  rw [call?, callee?_append]
  rfl

theorem read?_arithmetic (operator : Operator) {left right : Option String}
    (hleft : IsToken (left.getD operator.identity))
    (hright : IsToken (right.getD operator.identity)) :
    read? site.addressing ((arithmetic operator left right).text site) =
      some (.arithmetic site.slot operator.sign (left.getD operator.identity)
        (right.getD operator.identity)) := by
  have hread := read?_assign (a := site.addressing) hslot (stored?_arithmetic hleft hright operator)
  rwa [String.append_empty] at hread

theorem read?_copy {value : Option String} (h : IsToken (value.getD "0")) :
    read? site.addressing ((copy value).text site) = some (.copy site.slot (value.getD "0")) := by
  have hread := read?_assign (a := site.addressing) hslot (stored?_copy h)
  rwa [String.append_empty] at hread

end Statement

/-- What a built-in generator writes is read as the instruction that it is meant to be. -/
theorem Command.read?_text {α : Type} {write : α → String} {site : Statement.Site}
    (hwrite : ∀ a, IsToken (write a)) (hslot : IsToken site.slot) {b : Builtin}
    {context : Context α} {statement : Statement α} (h : b.statement? context = some statement) :
    ∃ i, (⟨site, statement.map write⟩ : Command).instruction? = some i ∧
      read? site.addressing (⟨site, statement.map write⟩ : Command).text = some i := by
  have hdigit : IsToken "0" ∧ IsToken "1" := ⟨.inl (by decide), .inl (by decide)⟩
  have hgetD : ∀ (value : Option α) {missing : String}, IsToken missing →
      IsToken ((value.map write).getD missing) := by
    intro value missing hmissing
    cases value with
    | none => exact hmissing
    | some a => exact hwrite a
  cases statement with
  | update k arguments =>
    exact ⟨_, rfl, Statement.read?_update hslot k (by simpa using fun a _ => hwrite a)⟩
  | write k value => exact ⟨_, rfl, Statement.read?_write hslot k (hgetD value hdigit.1)⟩
  | arithmetic operator left right =>
    have hidentity : IsToken operator.identity := by
      cases operator with
      | add | sub => exact hdigit.1
      | mul | div => exact hdigit.2
    exact ⟨_, rfl, Statement.read?_arithmetic hslot operator (hgetD left hidentity)
      (hgetD right hidentity)⟩
  | copy value => exact ⟨_, rfl, Statement.read?_copy hslot (hgetD value hdigit.1)⟩
  | mix outputs =>
    have hleft : ∀ output : Output α, IsToken (output.map write).leftText := fun output =>
      hgetD output.left hdigit.1
    have hright : ∀ output : Output α, IsToken (output.map write).rightText := fun output =>
      hgetD output.right (hleft output)
    have hne : outputs ≠ [] := Builtin.outputs_ne_nil h
    refine ⟨_, rfl, read?_mix ?_ ?_ ?_ ?_⟩
    · simpa using hne
    · simpa using hne
    · simpa using fun output _ => hleft output
    · simpa using fun output _ => hright output
  | verbatim line => exact absurd rfl (Builtin.statement?_ne_verbatim h line)

example : read? .registers "r[2] = nodes[0].update(\"a,(b\",-1,r[1]); /* lpf */" =
    some (.update "r[2]" 0 ["\"a,(b\"", "-1", "r[1]"]) := by cbv

section Compile

variable {registry : Registry} {options : Options} {g : Graph} {root : NodeId}

/-- Every line of a program is read as the instruction of its command. -/
theorem read?_of_mem_commands (hregistry : registry.IsBuiltin)
    (hstem : options.addressing.Legible options.stem) {c : Command}
    (hc : c ∈ commands registry options g root) :
    ∃ i, c.instruction? = some i ∧ read? options.addressing c.text = some i := by
  obtain ⟨i, node, schema, viaFallback, b, context, statement, -, -, -, hstatement, rfl⟩ :=
    exists_of_mem_commands hregistry hc
  exact Command.read?_text (Naming.isToken_write hstem) (Naming.isToken_slot hstem i) hstatement

/-- The lines of a program are read as the instructions of its commands, in order. -/
theorem Compiled.mapM_read?_statements (hregistry : registry.IsBuiltin)
    (hstem : options.addressing.Legible options.stem)
    (hkinds : ∀ c ∈ commands registry options g root, c.statement.target?.isSome →
      Inline c.site.kind)
    {compiled : Compiled} (hok : (compile registry options g root).outcome = .ok compiled) :
    compiled.statements.mapM (read? options.addressing) =
      some ((commands registry options g root).filterMap Command.instruction?) := by
  have hlines : ∀ s ∈ (commands registry options g root).map Command.text, IsLine s := by
    intro s hs
    obtain ⟨c, hc, rfl⟩ := List.mem_map.mp hs
    exact isLine_of_mem_commands hregistry hstem.inline hc (hkinds c hc)
  have hread : ∀ c ∈ commands registry options g root, _ := fun c hc =>
    read?_of_mem_commands hregistry hstem hc
  -- one line a command, so the induction is on the commands
  rw [Compiled.statements_eq (program_eq_commands hok) hlines, List.mapM_map]
  generalize commands registry options g root = cs at hread
  induction cs with
  | nil => rfl
  | cons c cs ih =>
    obtain ⟨i, hinstruction, htext⟩ := hread c List.mem_cons_self
    have hrest := ih fun c hc => hread c (List.mem_cons_of_mem _ hc)
    rw [List.mapM_cons, Function.comp_apply, htext, hrest, List.filterMap_cons_some hinstruction]
    rfl

end Compile

end Patchbay
