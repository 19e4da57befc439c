import Mathlib.Data.List.TakeWhile
import Mathlib.Data.Option.Basic
import Patchbay.Cli.Arguments

/-!
# What an argument list says

Arguments are sorted out one after the other, and it is noted which options have been given so far.
What comes out can be said without any such notes: each argument is an option, or the value of the
option before it, or positional (`Given`), and only lists are given more than once (`Once`). An
argument list is accepted just if it can be taken apart in this way (`given_of_sort`,
`sort_of_given`).

For the command that compiles a patch, `Stated` says where each of its arguments comes from
(`parse?_eq_compile_iff`). Any arguments can be given in this way, but for a file without a name
(`exists_stated`).
-/

namespace Patchbay.Cli

/-! ### Options and positional arguments -/

/-- What an argument list gives: options with their values, and positional arguments, both in
order. A flag has an empty value. -/
inductive Given (signature : Signature) :
    (arguments : List String) → (options : List (String × String)) → (positional : List String) →
      Prop where
  | nil : Given signature [] [] []
  /-- After a double dash, all arguments are positional. -/
  | separator (positional : List String) : Given signature ("--" :: positional) [] positional
  | positional {rest options positional} (argument : String) : ¬ looksLikeOption argument →
    Given signature rest options positional →
      Given signature (argument :: rest) options (argument :: positional)
  | flag {rest options positional} (name : String) : '=' ∉ name.toList → name ≠ "" →
    signature.lookup name = some .flag → Given signature rest options positional →
      Given signature (("--" ++ name) :: rest) ((name, "") :: options) positional
  | joined {rest options positional} (name value : String) (arity : Arity) :
    '=' ∉ name.toList → signature.lookup name = some arity → arity ≠ .flag →
    Given signature rest options positional →
      Given signature (("--" ++ name ++ "=" ++ value) :: rest) ((name, value) :: options) positional
  | apart {rest options positional} (name value : String) (arity : Arity) :
    '=' ∉ name.toList → name ≠ "" → signature.lookup name = some arity → arity ≠ .flag →
    ¬ looksLikeOption value → Given signature rest options positional →
      Given signature (("--" ++ name) :: value :: rest) ((name, value) :: options) positional

/-- The values given for an option. -/
def valuesOf (options : List (String × String)) (name : String) : List String :=
  (options.filter (·.1 = name)).map (·.2)

/-- Only lists are given more than once. -/
def Once (signature : Signature) (options : List (String × String)) : Prop :=
  ∀ name, signature.lookup name ≠ some .list → (valuesOf options name).length ≤ 1

variable {signature : Signature} {arguments : List String} {options : List (String × String)}
  {positional : List String} {name value argument : String} {arity : Arity} {s t : Sorted}

theorem valuesOf_append (options others : List (String × String)) (name : String) :
    valuesOf (options ++ others) name = valuesOf options name ++ valuesOf others name := by
  rw [valuesOf, List.filter_append, List.map_append]
  rfl

theorem valuesOf_map (name other : String) (values : List String) :
    valuesOf (values.map fun value => (name, value)) other =
      if name = other then values else [] := by
  by_cases heq : name = other
  · rw [valuesOf, if_pos heq, List.filter_eq_self.mpr (by simp [heq]), List.map_map]
    exact List.map_id values
  · rw [valuesOf, if_neg heq, List.filter_eq_nil_iff.mpr (by simp [heq]), List.map_nil]

theorem valuesOf_singleton (name value other : String) :
    valuesOf [(name, value)] other = if name = other then [value] else [] :=
  valuesOf_map name other [value]

theorem has_iff : s.has name ↔ valuesOf s.options name ≠ [] := by
  simp [Sorted.has, valuesOf]

theorem Once.of_append {others : List (String × String)} (h : Once signature (options ++ others)) :
    Once signature options := by
  intro name hname
  have hall := h name hname
  rw [valuesOf_append, List.length_append] at hall
  omega

theorem once_concat : Once signature (options ++ [(name, value)]) ↔ Once signature options ∧
    (signature.lookup name ≠ some .list → valuesOf options name = []) := by
  constructor
  · intro h
    refine ⟨h.of_append, fun hname => List.eq_nil_of_length_eq_zero ?_⟩
    have hall := h name hname
    rw [valuesOf_append, valuesOf_singleton, if_pos rfl, List.length_append,
      List.length_singleton] at hall
    omega
  · rintro ⟨honce, hnone⟩ other hother
    rw [valuesOf_append, valuesOf_singleton]
    split
    · next heq =>
      subst heq
      rw [hnone hother, List.nil_append, List.length_singleton]
    · rw [List.append_nil]
      exact honce other hother

/-- An option can be noted just if it is a list or has not been given before. -/
theorem add?_eq_some_iff (hname : signature.lookup name = some arity)
    (honce : Once signature s.options) : s.add? name arity value = some t ↔
      Once signature (s.options ++ [(name, value)]) ∧
        t = { s with options := s.options ++ [(name, value)] } := by
  have hrefused : (arity ≠ .list ∧ s.has name) ↔
      ¬ Once signature (s.options ++ [(name, value)]) := by
    rw [once_concat, hname, has_iff]
    simp [honce]
  rw [Sorted.add?]
  split
  · next h => exact iff_of_false nofun fun hnoted => hrefused.mp h hnoted.1
  · next h =>
    rw [Option.some.injEq, eq_comm, and_iff_right (not_not.mp (mt hrefused.mpr h))]

/-- Every option that is given is known, and flags have no value. -/
theorem Given.known (h : Given signature arguments options positional) :
    ∀ option ∈ options, ∃ arity, signature.lookup option.1 = some arity ∧
      (arity = .flag → option.2 = "") := by
  induction h with
  | nil => exact List.forall_mem_nil _
  | separator positional => exact List.forall_mem_nil _
  | positional argument hargument hgiven ih => exact ih
  | flag name hequals hne hname hgiven ih =>
    exact List.forall_mem_cons.mpr ⟨⟨.flag, hname, fun _ => rfl⟩, ih⟩
  | joined name value arity hequals hname harity hgiven ih =>
    exact List.forall_mem_cons.mpr ⟨⟨arity, hname, fun hflag => absurd hflag harity⟩, ih⟩
  | apart name value arity hequals hne hname harity hvalue hgiven ih =>
    exact List.forall_mem_cons.mpr ⟨⟨arity, hname, fun hflag => absurd hflag harity⟩, ih⟩

/-! ### Names and values in one argument -/

theorem cut_of_notMem {c : Char} {cs : List Char} (h : c ∉ cs) :
    cs.takeWhile (· ≠ c) = cs ∧ cs.dropWhile (· ≠ c) = [] := by
  have hall : ∀ d ∈ cs, decide (d ≠ c) = true := fun d hd =>
    decide_eq_true fun heq => h (heq ▸ hd)
  exact ⟨List.takeWhile_eq_self_iff.mpr hall, List.dropWhile_eq_nil_iff.mpr hall⟩

theorem cut_append {c : Char} {left : List Char} (h : c ∉ left) (right : List Char) :
    (left ++ c :: right).takeWhile (· ≠ c) = left ∧
      (left ++ c :: right).dropWhile (· ≠ c) = c :: right := by
  obtain ⟨htake, hdrop⟩ := cut_of_notMem h
  constructor
  · rw [List.takeWhile_append, htake, if_pos rfl, List.takeWhile_cons_of_neg (by simp),
      List.append_nil]
  · rw [List.dropWhile_append, hdrop, List.isEmpty_nil, if_pos rfl,
      List.dropWhile_cons_of_neg (by simp)]

/-- A text with an equals sign can be cut at the first. -/
theorem exists_cut {text : String} (h : '=' ∈ text.toList) :
    ∃ left right, text = left ++ "=" ++ right ∧ '=' ∉ left.toList := by
  obtain ⟨left, right, htext, hleft⟩ := List.eq_append_cons_of_mem h
  refine ⟨String.ofList left, String.ofList right, ?_, by rwa [String.toList_ofList]⟩
  rw [← String.toList_inj, htext]
  simp

theorem toList_joined (left right : String) :
    (left ++ "=" ++ right).toList = left.toList ++ '=' :: right.toList := by
  rw [String.toList_append, String.toList_append, List.append_assoc]
  rfl

theorem splitOption_name (h : '=' ∉ name.toList) : splitOption ("--" ++ name) = (name, none) := by
  have hbody : ("--" ++ name).toList.drop 2 = name.toList := by
    rw [String.toList_append]
    rfl
  rw [splitOption, hbody]
  simp only [cut_of_notMem h, String.ofList_toList]

theorem splitOption_joined (h : '=' ∉ name.toList) (value : String) :
    splitOption ("--" ++ name ++ "=" ++ value) = (name, some value) := by
  have hbody : ("--" ++ name ++ "=" ++ value).toList.drop 2 =
      name.toList ++ '=' :: value.toList := by
    rw [toList_joined, String.toList_append]
    rfl
  rw [splitOption, hbody]
  simp only [cut_append h, String.ofList_toList]

/-- An argument that begins with two dashes is a name, with or without a value. -/
theorem exists_of_startsWith (h : argument.startsWith "--") : ∃ name, '=' ∉ name.toList ∧
    (argument = "--" ++ name ∨ ∃ value, argument = "--" ++ name ++ "=" ++ value) := by
  obtain ⟨body, hbody⟩ := String.startsWith_string_iff.mp h
  have hargument : argument = "--" ++ String.ofList body := by
    rw [← String.toList_inj, String.toList_append, ← hbody]
    exact congrArg _ String.toList_ofList.symm
  by_cases hmem : '=' ∈ (String.ofList body).toList
  · obtain ⟨name, value, hname, hequals⟩ := exists_cut hmem
    refine ⟨name, hequals, .inr ⟨value, ?_⟩⟩
    rw [hargument, hname, String.append_assoc, String.append_assoc, String.append_assoc]
  · exact ⟨String.ofList body, hmem, .inl hargument⟩

theorem eq_of_splitOption_none (h : argument.startsWith "--")
    (hsplit : splitOption argument = (name, none)) :
    '=' ∉ name.toList ∧ argument = "--" ++ name := by
  obtain ⟨name', hname, rfl | ⟨value, rfl⟩⟩ := exists_of_startsWith h
  · rw [splitOption_name hname] at hsplit
    obtain rfl := congrArg Prod.fst hsplit
    exact ⟨hname, rfl⟩
  · rw [splitOption_joined hname] at hsplit
    cases hsplit

theorem eq_of_splitOption_some (h : argument.startsWith "--")
    (hsplit : splitOption argument = (name, some value)) :
    '=' ∉ name.toList ∧ argument = "--" ++ name ++ "=" ++ value := by
  obtain ⟨name', hname, rfl | ⟨value', rfl⟩⟩ := exists_of_startsWith h
  · rw [splitOption_name hname] at hsplit
    cases hsplit
  · rw [splitOption_joined hname] at hsplit
    cases hsplit
    exact ⟨hname, rfl⟩

/-! ### Sorting out -/

/-- An option is noted before what comes after it. -/
theorem exists_of_add? (hname : signature.lookup name = some arity)
    (honce : Once signature s.options) {rest : List String}
    (h : (s.add? name arity value).bind (sort signature · rest) = some t)
    (ih : ∀ noted : Sorted, Once signature noted.options →
      sort signature noted rest = some t → ∃ options positional,
        Given signature rest options positional ∧ Once signature (noted.options ++ options) ∧
          t = ⟨noted.options ++ options, noted.positional ++ positional⟩) :
    ∃ options positional, Given signature rest options positional ∧
      Once signature (s.options ++ (name, value) :: options) ∧
        t = ⟨s.options ++ (name, value) :: options, s.positional ++ positional⟩ := by
  obtain ⟨noted, hadd, hsort⟩ := Option.bind_eq_some_iff.mp h
  obtain ⟨hnoted, rfl⟩ := (add?_eq_some_iff hname honce).mp hadd
  obtain ⟨options, positional, hgiven, hall, rfl⟩ := ih _ hnoted hsort
  rw [List.append_assoc, List.singleton_append] at hall ⊢
  exact ⟨options, positional, hgiven, hall, rfl⟩

/-- Arguments that are accepted can be taken apart. -/
theorem given_of_sort (honce : Once signature s.options)
    (h : sort signature s arguments = some t) : ∃ options positional,
      Given signature arguments options positional ∧ Once signature (s.options ++ options) ∧
        t = ⟨s.options ++ options, s.positional ++ positional⟩ := by
  -- In the cases that are not named, an argument is refused.
  fun_induction sort signature s arguments with
  | case1 s =>
    obtain rfl := Option.some.inj h
    exact ⟨[], [], .nil, by rwa [List.append_nil], by rw [List.append_nil, List.append_nil]⟩
  | case2 s rest =>
    obtain rfl := Option.some.inj h
    exact ⟨[], rest, .separator rest, by rwa [List.append_nil], by rw [List.append_nil]⟩
  | case4 s argument hdash hdashes name rest hname hsplit ih =>
    obtain ⟨hequals, rfl⟩ := eq_of_splitOption_none hdashes hsplit
    obtain ⟨options, positional, hgiven, hall⟩ := exists_of_add? hname honce h ih
    exact ⟨_, positional, .flag name hequals (by rintro rfl; exact hdash rfl) hname hgiven, hall⟩
  | case6 s argument hdash hdashes name arity value rest harity hname hsplit ih =>
    obtain ⟨hequals, rfl⟩ := eq_of_splitOption_some hdashes hsplit
    obtain ⟨options, positional, hgiven, hall⟩ := exists_of_add? hname honce h ih
    exact ⟨_, positional, .joined name value arity hequals hname harity hgiven, hall⟩
  | case8 s argument hdash hdashes name arity value rest harity hname hvalue hsplit ih =>
    obtain ⟨hequals, rfl⟩ := eq_of_splitOption_none hdashes hsplit
    obtain ⟨options, positional, hgiven, hall⟩ := exists_of_add? hname honce h ih
    exact ⟨_, positional, .apart name value arity hequals (by rintro rfl; exact hdash rfl) hname
      harity hvalue hgiven, hall⟩
  | case11 s argument rest hdash hdashes hargument ih =>
    obtain ⟨options, positional, hgiven, hall, rfl⟩ := ih honce h
    refine ⟨options, argument :: positional, .positional argument hargument hgiven, hall, ?_⟩
    rw [List.append_assoc, List.singleton_append]
  | _ => cases h

theorem bind_add? (hname : signature.lookup name = some arity) {rest : List String}
    (hall : Once signature (s.options ++ (name, value) :: options))
    (ih : ∀ {noted : Sorted}, Once signature (noted.options ++ options) →
      sort signature noted rest =
        some ⟨noted.options ++ options, noted.positional ++ positional⟩) :
    (s.add? name arity value).bind (sort signature · rest) =
      some ⟨s.options ++ (name, value) :: options, s.positional ++ positional⟩ := by
  rw [← List.singleton_append, ← List.append_assoc] at hall ⊢
  have hnoted : Once signature (s.options ++ [(name, value)]) :=
    hall.of_append
  rw [(add?_eq_some_iff hname (once_concat.mp hnoted).1).mpr ⟨hnoted, rfl⟩, Option.bind_some]
  exact ih hall

theorem dashes_ne (hne : name ≠ "") : "--" ++ name ≠ "--" := by
  intro heq
  rw [← String.toList_inj, String.toList_append] at heq
  exact hne (String.toList_eq_nil_iff.mp (List.append_right_eq_self.mp heq))

theorem startsWith_dashes (body : String) : ("--" ++ body).startsWith "--" := by
  rw [String.startsWith_string_iff, String.toList_append]
  exact List.prefix_append _ _

theorem not_startsWith_of_not_looksLikeOption (h : ¬ looksLikeOption argument) :
    argument ≠ "--" ∧ ¬ argument.startsWith "--" := by
  have hnot : ¬ argument.startsWith "--" := by
    intro hdashes
    obtain ⟨body, hbody⟩ := String.startsWith_string_iff.mp hdashes
    refine h (Bool.and_eq_true_iff.mpr ⟨?_, ?_⟩)
    · rw [String.startsWith_string_iff, ← hbody]
      exact ⟨'-' :: body, rfl⟩
    · refine decide_eq_true fun heq => ?_
      rw [heq] at hbody
      cases hbody
  refine ⟨?_, hnot⟩
  rintro rfl
  exact hnot (startsWith_dashes "")

/-- Arguments that can be taken apart are accepted. -/
theorem sort_of_given (h : Given signature arguments options positional)
    (honce : Once signature (s.options ++ options)) :
    sort signature s arguments = some ⟨s.options ++ options, s.positional ++ positional⟩ := by
  induction h generalizing s with
  | nil =>
    rw [sort, List.append_nil, List.append_nil]
  | separator positional =>
    rw [sort, if_pos rfl, List.append_nil]
  | positional argument hargument hgiven ih =>
    obtain ⟨hdash, hdashes⟩ := not_startsWith_of_not_looksLikeOption hargument
    rw [sort, if_neg hdash, if_neg hdashes, if_neg hargument, ih (by exact honce),
      List.append_assoc, List.singleton_append]
  | flag name hequals hne hname hgiven ih =>
    rw [sort, if_neg (dashes_ne hne), if_pos (startsWith_dashes name), splitOption_name hequals]
    simp only [hname, Option.bind_eq_bind]
    exact bind_add? hname honce ih
  | joined name value arity hequals hname harity hgiven ih =>
    have hargument : "--" ++ name ++ "=" ++ value = "--" ++ (name ++ "=" ++ value) := by
      simp only [String.append_assoc]
    have hdash : "--" ++ name ++ "=" ++ value ≠ "--" := by
      rw [hargument]
      exact dashes_ne fun heq => by simpa using congrArg String.toList heq
    have hdashes : ("--" ++ name ++ "=" ++ value).startsWith "--" := by
      rw [hargument]
      exact startsWith_dashes _
    rw [sort, if_neg hdash, if_pos hdashes, splitOption_joined hequals]
    simp only [hname, Option.bind_eq_bind]
    exact bind_add? hname honce ih
  | apart name value arity hequals hne hname harity hvalue hgiven ih =>
    rw [sort, if_neg (dashes_ne hne), if_pos (startsWith_dashes name), splitOption_name hequals]
    simp only [hname, Option.bind_eq_bind, if_neg hvalue]
    exact bind_add? hname honce ih

/-! ### The arguments of a compile -/

/-- The values of a flag. -/
def flagValues (b : Bool) : List String :=
  if b then [""] else []

/-- Where the arguments of a compile come from: each option with its values. -/
def CompileArguments.table (a : CompileArguments) : List (String × List String) := [
  ("addressing", (a.addressing.map (·.tag)).toList),
  ("prefix", a.stem.toList),
  ("fallback", a.fallbackKind.toList),
  ("const-type", a.constantKind.toList),
  ("unit", a.units),
  ("config", a.config.toList),
  ("log", flagValues a.log),
  ("json", flagValues a.json)]

/-- An argument list asks for a compile: it has one positional argument, the patch, and the values
given for each option are the ones that the compile has. -/
def Stated (arguments : List String) (a : CompileArguments) : Prop :=
  ∃ rest options, arguments = "compile" :: rest ∧
    Given Command.compileSignature rest options [a.patch] ∧
      (∀ entry ∈ a.table, valuesOf options entry.1 = entry.2) ∧ a.config ≠ some ""

theorem flagValues_inj {b b' : Bool} : flagValues b = flagValues b' ↔ b = b' := by
  cases b <;> cases b' <;> decide

theorem mem_valuesOf : value ∈ valuesOf options name ↔ (name, value) ∈ options := by
  rw [valuesOf, List.mem_map]
  constructor
  · rintro ⟨option, hoption, rfl⟩
    obtain ⟨hmem, heq⟩ := List.mem_filter.mp hoption
    rwa [← of_decide_eq_true heq]
  · intro hmem
    exact ⟨(name, value), List.mem_filter.mpr ⟨hmem, decide_eq_true rfl⟩, rfl⟩

section Values

variable (hname : (valuesOf s.options name).length ≤ 1)

include hname

theorem valuesOf_eq_toList : valuesOf s.options name = (s.value? name).toList := by
  rw [Sorted.value?, Sorted.values, ← valuesOf]
  cases hvalues : valuesOf s.options name with
  | nil => rfl
  | cons value values =>
    rw [hvalues, List.length_cons] at hname
    obtain rfl := List.eq_nil_of_length_eq_zero (Nat.le_zero.mp (Nat.le_of_succ_le_succ hname))
    rfl

theorem valuesOf_eq_flagValues (hflag : ∀ value, (name, value) ∈ s.options → value = "") :
    valuesOf s.options name = flagValues (s.has name) := by
  have hvalues := valuesOf_eq_toList hname
  cases hvalue : s.value? name with
  | none =>
    rw [hvalue, Option.toList_none] at hvalues
    rw [hvalues, flagValues, if_neg fun hhas => has_iff.mp hhas hvalues]
  | some value =>
    rw [hvalue, Option.toList_some] at hvalues
    obtain rfl := hflag value (mem_valuesOf.mp (hvalues ▸ List.mem_singleton_self value))
    rw [hvalues, flagValues, if_pos (has_iff.mpr (hvalues ▸ List.cons_ne_nil _ _))]

end Values

section Compile

variable {a : CompileArguments} {rest : List String}
  (honce : Once Command.compileSignature s.options)
  (hgiven : Given Command.compileSignature rest s.options s.positional)

include honce hgiven

theorem table_iff : (∀ entry ∈ a.table, valuesOf s.options entry.1 = entry.2) ↔
    s.value? "addressing" = a.addressing.map (·.tag) ∧ s.value? "prefix" = a.stem ∧
      s.value? "fallback" = a.fallbackKind ∧ s.value? "const-type" = a.constantKind ∧
      s.values "unit" = a.units ∧ s.value? "config" = a.config ∧ s.has "log" = a.log ∧
      s.has "json" = a.json := by
  have hsingle {name : String} (hname : Command.compileSignature.lookup name ≠ some .list)
      (given : Option String) : valuesOf s.options name = given.toList ↔ s.value? name = given := by
    rw [valuesOf_eq_toList (honce name hname)]
    exact ⟨fun h => by simpa using congrArg List.head? h, congrArg _⟩
  have hflag {name : String} (hname : Command.compileSignature.lookup name = some .flag)
      (b : Bool) : valuesOf s.options name = flagValues b ↔ s.has name = b := by
    rw [valuesOf_eq_flagValues (honce name (by rw [hname]; decide)), flagValues_inj]
    intro value hmem
    obtain ⟨arity, harity, hempty⟩ := hgiven.known _ hmem
    exact hempty (Option.some.inj (harity.symm.trans hname))
  rw [CompileArguments.table]
  simp only [List.forall_mem_cons]
  rw [hsingle (by decide), hsingle (by decide), hsingle (by decide), hsingle (by decide),
    hsingle (by decide), hflag (by decide), hflag (by decide)]
  simp [Sorted.values, valuesOf]

/-- The arguments of a compile are put together by name. -/
theorem parseCompile?_eq_some_iff (hsort : sort Command.compileSignature {} rest = some s) :
    Command.parseCompile? rest = some (.compile a) ↔ s.positional = [a.patch] ∧
      (∀ entry ∈ a.table, valuesOf s.options entry.1 = entry.2) ∧ a.config ≠ some "" := by
  rw [table_iff honce hgiven, Command.parseCompile?, hsort]
  simp only [Option.bind_eq_bind, Option.bind_some, Option.pure_def]
  constructor
  · intro h
    split at h
    · next patch hpositional =>
      split at h
      · next hnone =>
        obtain ⟨_, hconfig, h⟩ := Option.bind_eq_some_iff.mp h
        cases h
        exact ⟨hpositional, ⟨hnone, rfl, rfl, rfl, rfl, rfl, rfl, rfl⟩, by simpa using hconfig⟩
      · next tag htag =>
        obtain ⟨addressing, haddressing, h⟩ := Option.bind_eq_some_iff.mp h
        obtain ⟨x, hx, rfl⟩ := Option.map_eq_some_iff.mp haddressing
        obtain ⟨_, hconfig, h⟩ := Option.bind_eq_some_iff.mp h
        cases h
        rw [← Addressing.ofTag?_eq_some_iff.mp hx] at htag
        exact ⟨hpositional, ⟨htag, rfl, rfl, rfl, rfl, rfl, rfl, rfl⟩, by simpa using hconfig⟩
    · cases h
  · rintro ⟨hpositional, ⟨haddressing, hstem, hfallback, hconstant, hunits, hconfig, hlog, hjson⟩,
      hne⟩
    have hguard : (guard (a.config ≠ some "") : Option Unit) = some () := by simp [hne]
    rw [hpositional, haddressing, hstem, hfallback, hconstant, hunits, hconfig, hlog, hjson, hguard]
    obtain ⟨patch, addressing, _⟩ := a
    cases addressing with
    | none => rfl
    | some x =>
      have htag : Addressing.ofTag? x.tag = some x := Addressing.ofTag?_eq_some_iff.mpr rfl
      simp only [Option.map_some, htag, Option.bind_some]

end Compile

theorem table_map_fst (a : CompileArguments) :
    a.table.map Prod.fst = Command.compileSignature.map Prod.fst := rfl

/-- The values of an option are as many and of the form that its arity asks for. -/
theorem fits_of_mem_table {a : CompileArguments} {entry : String × List String}
    (h : entry ∈ a.table) :
    (Command.compileSignature.lookup entry.1 ≠ some .list → entry.2.length ≤ 1) ∧
      (Command.compileSignature.lookup entry.1 = some .flag → ∀ value ∈ entry.2, value = "") := by
  have hsingle (name : String) (given : Option String)
      (hname : Command.compileSignature.lookup name = some .single) :
      (Command.compileSignature.lookup name ≠ some .list → given.toList.length ≤ 1) ∧
        (Command.compileSignature.lookup name = some .flag →
          ∀ value ∈ given.toList, value = "") := by
    rw [hname]
    exact ⟨fun _ => Option.length_toList_le, nofun⟩
  have hflag (b : Bool) : (flagValues b).length ≤ 1 ∧ ∀ value ∈ flagValues b, value = "" := by
    cases b <;> decide
  simp only [CompileArguments.table, List.mem_cons, List.not_mem_nil, or_false] at h
  obtain rfl | rfl | rfl | rfl | rfl | rfl | rfl | rfl := h
  · exact hsingle _ _ rfl
  · exact hsingle _ _ rfl
  · exact hsingle _ _ rfl
  · exact hsingle _ _ rfl
  · exact ⟨fun hlist => absurd rfl hlist, nofun⟩
  · exact hsingle _ _ rfl
  · exact ⟨fun _ => (hflag a.log).1, fun _ => (hflag a.log).2⟩
  · exact ⟨fun _ => (hflag a.json).1, fun _ => (hflag a.json).2⟩

theorem once_of_table {a : CompileArguments} {rest : List String}
    (hgiven : Given Command.compileSignature rest options positional)
    (htable : ∀ entry ∈ a.table, valuesOf options entry.1 = entry.2) :
    Once Command.compileSignature options := by
  intro name hname
  cases hvalues : valuesOf options name with
  | nil => exact Nat.zero_le 1
  | cons value values =>
    obtain ⟨arity, harity, -⟩ :=
      hgiven.known _ (mem_valuesOf.mp (hvalues ▸ List.mem_cons_self (a := value)))
    have hmem : name ∈ Command.compileSignature.map Prod.fst := by
      obtain ⟨before, after, heq, -⟩ := List.lookup_eq_some_iff.mp harity
      exact List.mem_map.mpr ⟨(name, arity), by simp [heq], rfl⟩
    rw [← table_map_fst a] at hmem
    obtain ⟨entry, hentry, rfl⟩ := List.mem_map.mp hmem
    rw [← hvalues, htable entry hentry]
    exact (fits_of_mem_table hentry).1 hname

/-- An argument list is accepted as that of a compile just if it asks for one. -/
theorem parse?_eq_compile_iff {a : CompileArguments} :
    Command.parse? arguments = some (.compile a) ↔ Stated arguments a := by
  constructor
  · intro h
    have hnone : Once Command.compileSignature ({} : Sorted).options := fun _ _ => Nat.zero_le 1
    rw [Command.parse?.eq_def] at h
    split at h
    · next rest =>
      obtain ⟨s, hsort, -⟩ := Option.bind_eq_some_iff.mp h
      obtain ⟨options, positional, hgiven, honce, rfl⟩ := given_of_sort hnone hsort
      obtain ⟨hpatch, htable, hconfig⟩ := (parseCompile?_eq_some_iff honce hgiven hsort).mp h
      exact ⟨rest, options, rfl, hpatch ▸ hgiven, htable, hconfig⟩
    · next rest =>
      obtain ⟨s, -, h⟩ := Option.bind_eq_some_iff.mp h
      obtain ⟨_, -, h⟩ := Option.bind_eq_some_iff.mp h
      cases h
    · next rest =>
      obtain ⟨s, -, h⟩ := Option.bind_eq_some_iff.mp h
      obtain ⟨_, -, h⟩ := Option.bind_eq_some_iff.mp h
      cases h
    · split at h <;> cases h
    · cases h
  · rintro ⟨rest, options, rfl, hgiven, htable, hconfig⟩
    have honce := once_of_table hgiven htable
    have hsort := sort_of_given (s := {}) hgiven honce
    exact (parseCompile?_eq_some_iff honce hgiven hsort).mpr ⟨rfl, htable, hconfig⟩

/-- Known options can be given in any order, before any positional arguments. -/
theorem exists_given (positional : List String)
    (h : ∀ option ∈ options, '=' ∉ option.1.toList ∧ option.1 ≠ "" ∧
      ∃ arity, signature.lookup option.1 = some arity ∧ (arity = .flag → option.2 = "")) :
    ∃ arguments, Given signature arguments options positional := by
  induction options with
  | nil => exact ⟨_, .separator positional⟩
  | cons option options ih =>
    obtain ⟨⟨hequals, hne, arity, harity, hempty⟩, hrest⟩ := List.forall_mem_cons.mp h
    obtain ⟨rest, hgiven⟩ := ih hrest
    obtain ⟨name, value⟩ := option
    by_cases hflag : arity = .flag
    · obtain rfl : value = "" := hempty hflag
      exact ⟨_, .flag name hequals hne (hflag ▸ harity) hgiven⟩
    · exact ⟨_, .joined name value arity hequals harity hflag hgiven⟩

/-- A table with no name twice is what it gives. -/
theorem valuesOf_flatMap {table : List (String × List String)} (h : (table.map Prod.fst).Nodup) :
    ∀ entry ∈ table, valuesOf (table.flatMap fun entry =>
      entry.2.map fun value => (entry.1, value)) entry.1 = entry.2 := by
  induction table with
  | nil => exact List.forall_mem_nil _
  | cons first table ih =>
    obtain ⟨hfirst, hnodup⟩ := List.nodup_cons.mp h
    simp only [List.flatMap_cons, valuesOf_append, valuesOf_map]
    refine List.forall_mem_cons.mpr ⟨?_, fun entry hentry => ?_⟩
    · have hnone : valuesOf (table.flatMap fun entry =>
          entry.2.map fun value => (entry.1, value)) first.1 = [] := by
        refine List.eq_nil_iff_forall_not_mem.mpr fun value hvalue => ?_
        obtain ⟨entry, hentry, hmem⟩ := List.mem_flatMap.mp (mem_valuesOf.mp hvalue)
        obtain ⟨_, -, heq⟩ := List.mem_map.mp hmem
        exact hfirst (congrArg Prod.fst heq ▸ List.mem_map_of_mem hentry)
      rw [if_pos rfl, hnone, List.append_nil]
    · have hne : first.1 ≠ entry.1 := fun heq =>
        hfirst (heq ▸ List.mem_map_of_mem hentry)
      rw [if_neg hne, List.nil_append, ih hnodup entry hentry]

/-- Every compile can be asked for, unless its options are to come from a file without a name. -/
theorem exists_stated {a : CompileArguments} (h : a.config ≠ some "") :
    ∃ arguments, Stated arguments a := by
  have hsignature : ∀ option ∈ Command.compileSignature, '=' ∉ option.1.toList ∧ option.1 ≠ "" ∧
      Command.compileSignature.lookup option.1 = some option.2 := by decide
  have hknown : ∀ option ∈ a.table.flatMap fun entry => entry.2.map fun value => (entry.1, value),
      '=' ∉ option.1.toList ∧ option.1 ≠ "" ∧
        ∃ arity, Command.compileSignature.lookup option.1 = some arity ∧
          (arity = .flag → option.2 = "") := by
    intro option hoption
    obtain ⟨entry, hentry, hmem⟩ := List.mem_flatMap.mp hoption
    obtain ⟨value, hvalue, rfl⟩ := List.mem_map.mp hmem
    have hname : entry.1 ∈ Command.compileSignature.map Prod.fst :=
      table_map_fst a ▸ List.mem_map_of_mem hentry
    obtain ⟨⟨name, arity⟩, hoption, hfst⟩ := List.mem_map.mp hname
    obtain ⟨hequals, hne, hlookup⟩ := hsignature _ hoption
    rw [hfst] at hequals hne hlookup
    refine ⟨hequals, hne, arity, hlookup, ?_⟩
    rintro rfl
    exact (fits_of_mem_table hentry).2 hlookup value hvalue
  obtain ⟨rest, hgiven⟩ := exists_given [a.patch] hknown
  refine ⟨_, rest, _, rfl, hgiven, valuesOf_flatMap ?_, h⟩
  rw [table_map_fst]
  decide

end Patchbay.Cli
