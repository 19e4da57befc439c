import Patchbay.Cli.Run
import Patchbay.Proofs.Cli.Arguments
import Patchbay.Proofs.Options.Load
import Patchbay.Proofs.Text.Blank

/-!
# A compile from the command line

A run that compiles a patch needs four things, one after the other: a patch of the given name, units
of the form `KIND=TAG`, options that can be loaded, and a compile that succeeds. What each of them
asks for is said here without regard to how it is found out: names are compared letter by letter
(`SameButCase`), units are taken apart around their first equals sign (`UnitText`), options are
found in the bytes of a file (`Options.InFile`), and they are put together key by key
(`CompileArguments.given?`).

Either all four are there, and the run prints what the compile gives, or the run prints nothing and
reports the first that is missing (`run_allOrNothing`). The report comes after what the subscriber
of the run writes about the events of the compile; of that nothing is said.
-/

namespace Patchbay.Cli

/-! ### Patches by name -/

/-- Two characters are the same, or the two cases of a letter from `A` to `Z`. -/
def SameLetter (c d : Char) : Prop :=
  c = d ∨ ('A' ≤ c ∧ c ≤ 'Z' ∧ d.toNat = c.toNat + 32) ∨
    ('A' ≤ d ∧ d ≤ 'Z' ∧ c.toNat = d.toNat + 32)

/-- Two texts differ in nothing but the case of letters. -/
def SameButCase (s t : String) : Prop :=
  List.Forall₂ SameLetter s.toList t.toList

theorem upper_iff {c : Char} : ('A' ≤ c ∧ c ≤ 'Z') ↔ 65 ≤ c.toNat ∧ c.toNat ≤ 90 := by
  rw [Char.le_def, Char.le_def, UInt32.le_iff_toNat_le, UInt32.le_iff_toNat_le]
  rfl

theorem toNat_toLower (c : Char) :
    c.toLower.toNat = if 65 ≤ c.toNat ∧ c.toNat ≤ 90 then c.toNat + 32 else c.toNat := by
  by_cases h : 'A' ≤ c ∧ c ≤ 'Z'
  · have hupper := upper_iff.mp h
    have hlower : c.toLower.val = c.val + 32 := congrArg Char.val (dif_pos h)
    have hsum : (c.val + 32).toNat = c.val.toNat + 32 := by
      rw [UInt32.toNat_add]
      exact Nat.mod_eq_of_lt (Nat.lt_of_le_of_lt (Nat.add_le_add_right hupper.2 32) (by decide))
    rw [if_pos hupper, Char.toNat, hlower, hsum]
    rfl
  · have hlower : c.toLower = c := dif_neg h
    rw [if_neg (mt upper_iff.mpr h), hlower]

theorem toLower_eq_iff {c d : Char} : c.toLower = d.toLower ↔ SameLetter c d := by
  rw [← Char.toNat_inj, toNat_toLower, toNat_toLower, SameLetter, ← Char.toNat_inj, ← and_assoc,
    ← and_assoc, upper_iff, upper_iff]
  split <;> split <;> omega

theorem sameButCase_iff {s t : String} : SameButCase s t ↔ s.toLower = t.toLower := by
  have htoList (s : String) : s.toLower.toList = s.toList.map Char.toLower := String.toList_map
  rw [SameButCase, ← String.toList_inj, htoList, htoList, ← List.forall₂_eq_eq_eq,
    List.forall₂_map_left_iff, List.forall₂_map_right_iff]
  simp only [toLower_eq_iff]

end Patchbay.Cli

namespace Patchbay.Patch

/-- A demo patch has a name, in upper or lower case. -/
structure Named (patch : Patch) (name : String) : Prop where
  mem_all : patch ∈ all
  same : Cli.SameButCase patch.name name

variable {patch : Patch} {name : String}

theorem find?_eq_none_iff : find? name = none ↔ ∀ patch : Patch, ¬ patch.Named name := by
  rw [find?, List.find?_eq_none]
  simp only [decide_eq_true_eq, ← Cli.sameButCase_iff]
  exact ⟨fun h patch hnamed => h patch hnamed.mem_all hnamed.same,
    fun h patch hmem hsame => h patch ⟨hmem, hsame⟩⟩

/-- No two patches have names that differ in case only. -/
theorem Named.unique {other : Patch} (h : patch.Named name) (hother : other.Named name) :
    patch = other := by
  have hnodup : (all.map fun patch => patch.name.toLower).Nodup := by decide +kernel
  refine List.inj_on_of_nodup_map hnodup h.mem_all hother.mem_all ?_
  rw [Cli.sameButCase_iff.mp h.same, Cli.sameButCase_iff.mp hother.same]

theorem find?_eq_some_iff : find? name = some patch ↔ patch.Named name := by
  have hnamed {found : Patch} (h : find? name = some found) : found.Named name :=
    ⟨List.mem_of_find?_eq_some h, Cli.sameButCase_iff.mpr (by simpa using List.find?_some h)⟩
  refine ⟨hnamed, fun h => ?_⟩
  cases hfind : find? name with
  | none => exact absurd h (find?_eq_none_iff.mp hfind patch)
  | some found => rw [(hnamed hfind).unique h]

end Patchbay.Patch

namespace Patchbay.Cli

/-! ### Units -/

/-- A kind and a tag as a text: the two sides of its first equals sign, trimmed. Neither is
blank. -/
structure UnitText (text kind tag : String) : Prop where
  sides : ∃ left right, text = left ++ "=" ++ right ∧ '=' ∉ left.toList ∧
    Text.TrimsTo left kind ∧ Text.TrimsTo right tag
  kind_ne : kind ≠ ""
  tag_ne : tag ≠ ""

theorem parseUnit?_append {left right : String} (h : '=' ∉ left.toList) :
    parseUnit? (left ++ "=" ++ right) =
      if Text.trim left = "" ∨ Text.trim right = "" then none
      else some (Text.trim left, Text.trim right) := by
  rw [parseUnit?, toList_joined, (cut_append h right.toList).1, (cut_append h right.toList).2]
  simp only [String.ofList_toList]

theorem parseUnit?_eq_some_iff {text kind tag : String} :
    parseUnit? text = some (kind, tag) ↔ UnitText text kind tag := by
  constructor
  · intro h
    by_cases hmem : '=' ∈ text.toList
    · obtain ⟨left, right, rfl, hleft⟩ := exists_cut hmem
      rw [parseUnit?_append hleft] at h
      split at h
      · cases h
      · next hblank =>
        cases h
        obtain ⟨hkind, htag⟩ := not_or.mp hblank
        refine ⟨⟨left, right, rfl, hleft, ?_, ?_⟩, hkind, htag⟩
        · exact Text.trimsTo_trim left
        · exact Text.trimsTo_trim right
    · rw [parseUnit?, (cut_of_notMem hmem).2] at h
      cases h
  · rintro ⟨⟨left, right, rfl, hleft, hkind, htag⟩, hkind_ne, htag_ne⟩
    rw [parseUnit?_append hleft, hkind.trim_eq, htag.trim_eq,
      if_neg (not_or.mpr ⟨hkind_ne, htag_ne⟩)]

/-- A text names a unit. -/
def IsUnit (text : String) : Prop :=
  ∃ kind tag, UnitText text kind tag

theorem parseUnit?_eq_none_iff {text : String} : parseUnit? text = none ↔ ¬ IsUnit text := by
  rw [Option.eq_none_iff_forall_ne_some, IsUnit]
  simp only [← parseUnit?_eq_some_iff, not_exists, Prod.forall, ne_eq]

theorem forall_isUnit_iff {texts : List String} : (∀ text ∈ texts, IsUnit text) ↔
    ∃ units : List (String × String),
      List.Forall₂ (fun text unit => UnitText text unit.1 unit.2) texts units := by
  induction texts with
  | nil => exact iff_of_true (List.forall_mem_nil _) ⟨[], .nil⟩
  | cons text texts ih =>
    rw [List.forall_mem_cons, ih]
    constructor
    · rintro ⟨⟨kind, tag, htext⟩, units, hall⟩
      exact ⟨(kind, tag) :: units, .cons htext hall⟩
    · rintro ⟨_, hall⟩
      cases hall with
      | cons htext hall => exact ⟨⟨_, _, htext⟩, _, hall⟩

/-- Units are registered one after the other. -/
def registerUnits (registry : Registry) (units : List (String × String)) : Registry :=
  units.foldl (fun registry unit => registry.registerUnit unit.1 unit.2) registry

theorem addUnits_eq_ok_iff {registry result : Registry} {texts : List String} :
    addUnits registry texts = .ok result ↔ ∃ units,
      List.Forall₂ (fun text unit => UnitText text unit.1 unit.2) texts units ∧
        result = registerUnits registry units := by
  induction texts generalizing registry with
  | nil =>
    simp only [addUnits, List.forall₂_nil_left_iff, Except.ok.injEq, exists_eq_left]
    exact eq_comm
  | cons text texts ih =>
    rw [addUnits]
    cases hparse : parseUnit? text with
    | none =>
      refine iff_of_false nofun ?_
      rintro ⟨_ | ⟨unit, units⟩, hall, -⟩
      · cases hall
      · exact parseUnit?_eq_none_iff.mp hparse ⟨_, _, (List.forall₂_cons.mp hall).1⟩
    | some unit =>
      have hunit := parseUnit?_eq_some_iff.mp hparse
      refine ih.trans ⟨fun ⟨units, hall, hresult⟩ => ⟨unit :: units, .cons hunit hall, hresult⟩, ?_⟩
      rintro ⟨_ | ⟨other, units⟩, hall, hresult⟩
      · cases hall
      · obtain ⟨hother, hrest⟩ := List.forall₂_cons.mp hall
        obtain rfl : unit = other :=
          Option.some.inj (hparse.symm.trans (parseUnit?_eq_some_iff.mpr hother))
        exact ⟨units, hrest, hresult⟩

/-- Units fail at the leftmost text that is none. -/
theorem addUnits_eq_error_iff {registry : Registry} {texts : List String} {failure : Failure} :
    addUnits registry texts = .error failure ↔ ∃ before text after,
      texts = before ++ text :: after ∧ (∀ earlier ∈ before, IsUnit earlier) ∧ ¬ IsUnit text ∧
        failure = .invalidUnit text := by
  induction texts generalizing registry with
  | nil =>
    refine iff_of_false nofun ?_
    rintro ⟨before, text, after, heq, -⟩
    simp at heq
  | cons first texts ih =>
    rw [addUnits]
    cases hparse : parseUnit? first with
    | none =>
      have hfirst := parseUnit?_eq_none_iff.mp hparse
      constructor
      · intro h
        cases h
        exact ⟨[], first, texts, rfl, List.forall_mem_nil _, hfirst, rfl⟩
      · rintro ⟨_ | ⟨other, before⟩, text, after, heq, hbefore, htext, rfl⟩
        · rw [(List.cons.inj heq).1]
        · rw [(List.cons.inj heq).1] at hfirst
          exact absurd (hbefore other List.mem_cons_self) hfirst
    | some unit =>
      have hfirst : IsUnit first := ⟨_, _, parseUnit?_eq_some_iff.mp hparse⟩
      refine ih.trans ⟨?_, ?_⟩
      · rintro ⟨before, text, after, rfl, hbefore, htext, hfailure⟩
        exact ⟨first :: before, text, after, rfl,
          List.forall_mem_cons.mpr ⟨hfirst, hbefore⟩, htext, hfailure⟩
      · rintro ⟨_ | ⟨other, before⟩, text, after, heq, hbefore, htext, hfailure⟩
        · rw [(List.cons.inj heq).1] at hfirst
          exact absurd hfirst htext
        · exact ⟨before, text, after, (List.cons.inj heq).2, (List.forall_mem_cons.mp hbefore).2,
            htext, hfailure⟩

/-! ### Options -/

/-- What the arguments say of an option. The log can only be switched on. -/
def CompileArguments.given? (a : CompileArguments) : (key : Options.Key) → Option key.Field
  | .log => if a.log then some true else none
  | .addressing => a.addressing
  | .fallbackKind => a.fallbackKind
  | .constantKind => a.constantKind
  | .stem => a.stem

/-- The options that a compile starts from: the defaults, or those of a file. -/
inductive Base (files : Files) : Option String → Options → Prop where
  | default : Base files none {}
  | file {path : String} {base : Options} : Options.InFile files path base →
    Base files (some path) base

theorem get_overrideOptions (base : Options) (a : CompileArguments) (key : Options.Key) :
    (overrideOptions base a).get key = (a.given? key).getD (base.get key) := by
  cases key with
  | log =>
    change (base.log || a.log) = (if a.log then some true else none).getD base.log
    cases a.log <;> simp
  | _ => rfl

theorem baseOptions_of_base {environment : Environment} {config : Option String} {base : Options}
    (h : Base environment.files config base) : baseOptions environment config = .ok base := by
  cases h with
  | default => rfl
  | file hfile =>
    rw [baseOptions, Options.load_of_inFile hfile]
    rfl

theorem baseOptions_of_notInFile {environment : Environment} {path : String} {cause : LoadError}
    (h : Options.NotInFile environment.files environment.complaint path cause) :
    baseOptions environment (some path) = .error (.options cause) := by
  rw [baseOptions, Options.load_of_notInFile h]
  rfl

/-- There are options to start from, or a file that should give them does not. -/
theorem base_or_notInFile (environment : Environment) (config : Option String) :
    (∃ base, Base environment.files config base) ∨ ∃ path cause, config = some path ∧
      Options.NotInFile environment.files environment.complaint path cause := by
  cases config with
  | none => exact .inl ⟨{}, .default⟩
  | some path =>
    obtain ⟨base, hfile⟩ | ⟨cause, hfile⟩ :=
      Options.inFile_or_notInFile environment.files environment.complaint path
    · exact .inl ⟨base, .file hfile⟩
    · exact .inr ⟨path, cause, rfl, hfile⟩

/-! ### Everything before the compile -/

/-- Everything is there that a compile needs. -/
structure Ready (environment : Environment) (a : CompileArguments) (patch : Patch)
    (compiler : Compiler) : Prop where
  named : patch.Named a.patch
  /-- The units come after the built-in operations, in order. -/
  units : ∃ units, List.Forall₂ (fun text unit => UnitText text unit.1 unit.2) a.units units ∧
    compiler.registry = registerUnits .standard units
  /-- What the arguments give counts, and for the rest what the compile starts from. -/
  options : ∃ base, Base environment.files a.config base ∧
    ∀ key, compiler.options.get key = (a.given? key).getD (base.get key)

/-- What is the first thing that is missing. -/
inductive Missing (environment : Environment) (a : CompileArguments) : Failure → Prop where
  | patch : (∀ patch : Patch, ¬ patch.Named a.patch) → Missing environment a (.unknownPatch a.patch)
  /-- Of several texts that are no units, the leftmost counts. -/
  | unit {patch : Patch} {before after : List String} {text : String} : patch.Named a.patch →
    a.units = before ++ text :: after → (∀ earlier ∈ before, IsUnit earlier) → ¬ IsUnit text →
      Missing environment a (.invalidUnit text)
  | options {patch : Patch} {path : String} {cause : LoadError} : patch.Named a.patch →
    (∀ text ∈ a.units, IsUnit text) → a.config = some path →
    Options.NotInFile environment.files environment.complaint path cause →
      Missing environment a (.options cause)

section Prepare

variable {environment : Environment} {a : CompileArguments} {patch : Patch} {compiler : Compiler}
  {failure : Failure}

theorem prepare_of_named (h : patch.Named a.patch) :
    prepare environment a = (addUnits .standard a.units).bind fun registry =>
      (baseOptions environment a.config).bind fun base =>
        .ok (patch, ⟨registry, overrideOptions base a⟩) := by
  rw [prepare, Patch.find?_eq_some_iff.mpr h]
  rfl

theorem prepare_of_ready (h : Ready environment a patch compiler) :
    prepare environment a = .ok (patch, compiler) := by
  obtain ⟨hnamed, ⟨units, hunits, hregistry⟩, base, hbase, hoptions⟩ := h
  have hcompiler : compiler = ⟨registerUnits .standard units, overrideOptions base a⟩ := by
    obtain ⟨registry, options⟩ := compiler
    rw [Compiler.mk.injEq]
    refine ⟨hregistry, Options.ext_get fun key => ?_⟩
    rw [get_overrideOptions, ← hoptions]
  rw [prepare_of_named hnamed, addUnits_eq_ok_iff.mpr ⟨units, hunits, rfl⟩, Except.bind,
    baseOptions_of_base hbase, hcompiler]
  rfl

theorem prepare_of_missing (h : Missing environment a failure) :
    prepare environment a = .error failure := by
  cases h with
  | patch hnone =>
    rw [prepare, Patch.find?_eq_none_iff.mpr hnone]
    rfl
  | unit hnamed hunits hbefore htext =>
    rw [prepare_of_named hnamed, addUnits_eq_error_iff.mpr ⟨_, _, _, hunits, hbefore, htext, rfl⟩]
    rfl
  | options hnamed hunits hconfig hfile =>
    obtain ⟨units, hall⟩ := forall_isUnit_iff.mp hunits
    rw [prepare_of_named hnamed, addUnits_eq_ok_iff.mpr ⟨units, hall, rfl⟩, Except.bind, hconfig,
      baseOptions_of_notInFile hfile]
    rfl

/-- Nothing is missing, or there is a first thing that is. -/
theorem ready_or_missing (environment : Environment) (a : CompileArguments) :
    (∃ patch compiler, Ready environment a patch compiler) ∨
      ∃ failure, Missing environment a failure := by
  cases hfind : Patch.find? a.patch with
  | none => exact .inr ⟨_, .patch (Patch.find?_eq_none_iff.mp hfind)⟩
  | some patch =>
    have hnamed := Patch.find?_eq_some_iff.mp hfind
    cases hunits : addUnits .standard a.units with
    | error failure =>
      obtain ⟨before, text, after, heq, hbefore, htext, -⟩ := addUnits_eq_error_iff.mp hunits
      exact .inr ⟨_, .unit hnamed heq hbefore htext⟩
    | ok registry =>
      have hregistry := addUnits_eq_ok_iff.mp hunits
      obtain ⟨base, hbase⟩ | ⟨path, cause, hconfig, hfile⟩ :=
        base_or_notInFile environment a.config
      · exact .inl ⟨patch, ⟨registry, overrideOptions base a⟩, hnamed, hregistry, base, hbase,
          get_overrideOptions base a⟩
      · obtain ⟨units, hall, -⟩ := hregistry
        exact .inr ⟨_, .options hnamed (forall_isUnit_iff.mpr ⟨units, hall⟩) hconfig hfile⟩

end Prepare

/-! ### Runs -/

/-- How a run fails: something is missing, or the compile fails and leaves events behind. -/
inductive Fails (environment : Environment) (a : CompileArguments) :
    List Event → Failure → Prop where
  | missing {failure : Failure} : Missing environment a failure → Fails environment a [] failure
  | compile {patch : Patch} {compiler : Compiler} {cause : CompileError} :
    Ready environment a patch compiler →
    (compiler.compile patch.graph.2 patch.graph.1).outcome = .error cause →
      Fails environment a (compiler.compile patch.graph.2 patch.graph.1).events
        (.compile patch.name cause)

/-- What the subscriber of a run writes about some events. -/
def logText (environment : Environment) (a : CompileArguments) (events : List Event) : String :=
  environment.subscriber.log (if a.log then .info else .warn) events

/-- What a run prints on success. -/
def printed (a : CompileArguments) (compiled : Compiled) : String :=
  if a.json then (compiledJson compiled).pretty 0 ++ "\n" else compiledText compiled

/-- A run gives all or nothing. -/
structure AllOrNothing (environment : Environment) (a : CompileArguments) (outcome : Outcome) :
    Prop where
  /-- A run succeeds just if nothing is missing and the patch compiles. -/
  succeeds : outcome.exitCode = 0 ↔ ∃ patch compiler compiled,
    Ready environment a patch compiler ∧
      (compiler.compile patch.graph.2 patch.graph.1).outcome = .ok compiled
  /-- Then it prints what the compile gives. -/
  prints : ∀ {patch compiler compiled}, Ready environment a patch compiler →
    (compiler.compile patch.graph.2 patch.graph.1).outcome = .ok compiled →
      outcome.stdout = printed a compiled
  /-- Otherwise it prints nothing, and fails at the first thing that is wrong. -/
  fails : outcome.exitCode ≠ 0 → outcome.exitCode = 1 ∧ outcome.stdout = "" ∧
    ∃ events failure, Fails environment a events failure
  /-- What is wrong is reported, after what the subscriber writes. -/
  reports : ∀ {events failure}, Fails environment a events failure →
    outcome.exitCode = 1 ∧
      outcome.stderr = logText environment a events ++ errorText failure.message failure.cause?

section Run

variable {environment : Environment} {a : CompileArguments} {patch : Patch} {compiler : Compiler}
  {compiled : Compiled} {events : List Event} {failure : Failure}

theorem runCompile_of_ok (hready : Ready environment a patch compiler)
    (hok : (compiler.compile patch.graph.2 patch.graph.1).outcome = .ok compiled) :
    runCompile environment a =
      ⟨0, printed a compiled,
        logText environment a (compiler.compile patch.graph.2 patch.graph.1).events⟩ := by
  rw [runCompile, prepare_of_ready hready]
  simp only [hok]
  rfl

theorem runCompile_of_fails (h : Fails environment a events failure) :
    runCompile environment a = .failed (logText environment a events) failure := by
  cases h with
  | missing hmissing =>
    rw [runCompile, prepare_of_missing hmissing]
    rfl
  | compile hready herror =>
    rw [runCompile, prepare_of_ready hready]
    simp only [herror]
    rfl

theorem succeeds_or_fails (environment : Environment) (a : CompileArguments) :
    (∃ patch compiler compiled, Ready environment a patch compiler ∧
      (compiler.compile patch.graph.2 patch.graph.1).outcome = .ok compiled) ∨
        ∃ events failure, Fails environment a events failure := by
  obtain ⟨patch, compiler, hready⟩ | ⟨failure, hmissing⟩ := ready_or_missing environment a
  · cases houtcome : (compiler.compile patch.graph.2 patch.graph.1).outcome with
    | ok compiled => exact .inl ⟨patch, compiler, compiled, hready, houtcome⟩
    | error cause => exact .inr ⟨_, _, .compile hready houtcome⟩
  · exact .inr ⟨[], failure, .missing hmissing⟩

theorem allOrNothing_runCompile (environment : Environment) (a : CompileArguments) :
    AllOrNothing environment a (runCompile environment a) where
  succeeds := by
    constructor
    · intro hcode
      refine (succeeds_or_fails environment a).resolve_right ?_
      rintro ⟨events, failure, hfails⟩
      rw [runCompile_of_fails hfails] at hcode
      cases hcode
    · rintro ⟨patch, compiler, compiled, hready, hok⟩
      rw [runCompile_of_ok hready hok]
  prints hready hok := by rw [runCompile_of_ok hready hok]
  fails hcode := by
    obtain ⟨patch, compiler, compiled, hready, hok⟩ | ⟨events, failure, hfails⟩ :=
      succeeds_or_fails environment a
    · rw [runCompile_of_ok hready hok] at hcode
      exact absurd rfl hcode
    · rw [runCompile_of_fails hfails]
      exact ⟨rfl, rfl, events, failure, hfails⟩
  reports hfails := by
    rw [runCompile_of_fails hfails]
    exact ⟨rfl, rfl⟩

end Run

/-- A run that is asked to compile a patch fails at the first thing that is wrong and prints
nothing, or nothing is wrong and it prints what the compile gives. -/
theorem run_allOrNothing (environment : Environment) {arguments : List String}
    {a : CompileArguments} (h : Command.parse? arguments = some (.compile a)) :
    Stated arguments a ∧ AllOrNothing environment a (run environment arguments) := by
  rw [run, h]
  exact ⟨parse?_eq_compile_iff.mp h, allOrNothing_runCompile environment a⟩

/-- Arguments with two faults: no file can be read, and the second unit has no tag. -/
def twoFaults : List String :=
  ["compile", "Sine", "--config=absent", "--unit", "gain = Gain", "--unit=pan"]

/-- Surroundings without files, in which nobody listens. -/
def Environment.bare : Environment where
  files := fun _ => .error .notFound
  complaint := id
  subscriber := ⟨fun _ _ => false, fun _ _ => ""⟩

theorem twoFaults_allOrNothing : ∃ a, Command.parse? twoFaults = some (.compile a) ∧
    AllOrNothing .bare a (run .bare twoFaults) ∧
    (run .bare twoFaults).stderr = "Error: Invalid unit 'pan', expected KIND=TAG\n" := by
  have hparse : Command.parse? twoFaults = some (.compile
      { patch := "Sine", units := ["gain = Gain", "pan"], config := some "absent" }) := by
    decide +kernel
  have hall := (run_allOrNothing .bare hparse).2
  have hnamed : Patch.sine.Named "Sine" := by
    refine ⟨List.mem_cons_self, .cons (.inr (.inr ⟨?_, ?_, rfl⟩)) ?_⟩
    · decide
    · decide
    · exact .cons (.inl rfl) (.cons (.inl rfl) (.cons (.inl rfl) .nil))
  have hgain : IsUnit "gain = Gain" :=
    ⟨"gain", "Gain", parseUnit?_eq_some_iff.mp (by decide +kernel)⟩
  have hpan : ¬ IsUnit "pan" := parseUnit?_eq_none_iff.mp (by decide +kernel)
  refine ⟨_, hparse, hall, ?_⟩
  have hunits : ["gain = Gain", "pan"] = ["gain = Gain"] ++ "pan" :: [] := rfl
  rw [(hall.reports (.missing (.unit hnamed hunits (List.forall_mem_singleton.mpr hgain) hpan))).2]
  decide +kernel

end Patchbay.Cli
