import Patchbay.Compile.Basic
import Patchbay.Proofs.Registry.Registration

/-!
# Roles

The role of a node is what it is for in a patch, told by its kind alone. `Role.table` lists the
kinds that have a role of their own; a node of any other kind copies its first input.

`Registry.standard_resolve?` says that the compiler takes the same view: whatever the kind, the
schema that the standard registry finds for it, by its own entry or by the fallback, is the schema
of the role.
-/

namespace Patchbay

/-! ### Roles -/

/-- What a node is for. -/
inductive Role where
  /-- A literal. -/
  | constant
  /-- Has a stateful unit of its own, with this tag, and gives what advancing it gives. -/
  | unit (tag : String)
  /-- Writes its first input to the cell of its second. -/
  | write
  /-- Combines its first two inputs; `missing` stands in for one that is not there. -/
  | arithmetic (operator : Operator) (missing : String)
  /-- Copies its first input. -/
  | copy
  /-- Stands for the one or two channels of an output. -/
  | out
  /-- Mixes the outputs among its inputs. -/
  | exit
  deriving DecidableEq

namespace Role

/-- The kinds with a role of their own. -/
def table : List (String × Role) := [
  (Kind.constant, constant),
  (Kind.sine, unit "SineOsc"),
  (Kind.saw, unit "SawOsc"),
  (Kind.tri, unit "TriOsc"),
  (Kind.pulse, unit "PulseOsc"),
  (Kind.noise, unit "Noise"),
  (Kind.lpf, unit "Lowpass"),
  (Kind.hpf, unit "Highpass"),
  (Kind.delay, unit "Delay"),
  (Kind.add, arithmetic .add "0"),
  (Kind.sub, arithmetic .sub "0"),
  (Kind.mul, arithmetic .mul "1"),
  (Kind.div, arithmetic .div "1"),
  (Kind.feedbackRead, unit "Feedback"),
  (Kind.feedbackWrite, write),
  (Kind.thru, copy),
  (Kind.out, out),
  (Kind.exit, exit)]

/-- The role of the nodes of a kind. -/
def ofKind (kind : String) : Role :=
  (table.lookup kind).getD copy

/-- The tag of the stateful unit of a node, if it has one. -/
def tag? : Role → Option String
  | unit tag => some tag
  | _ => none

/-- Whether a node leaves a value in a slot. -/
def hasSlot : Role → Bool
  | constant | out | exit => false
  | _ => true

/-- How a node is compiled. -/
def schema : Role → Schema
  | constant | out => .silent
  | unit tag => .stateful tag (.builtin .unitUpdate)
  | write => .stateless (.builtin .feedbackWrite)
  | arithmetic operator _ => .stateless (.builtin (.arithmetic operator))
  | copy => .stateless (.builtin .thru)
  | exit => .stateless (.builtin .exit)

theorem tag?_eq_some_iff {role : Role} {tag : String} : role.tag? = some tag ↔ role = unit tag := by
  cases role <;> simp [tag?]

theorem schema_tag (role : Role) : role.schema.tag = role.tag? := by
  cases role <;> rfl

/-- A node leaves a value in a slot by a statement that does not return. -/
theorem exists_builtin_of_hasSlot {role : Role} (h : role.hasSlot = true) :
    ∃ b ≠ Builtin.exit, role.schema.generator = some (.builtin b) := by
  cases role with
  | constant | out | exit => cases h
  | unit tag => exact ⟨.unitUpdate, by decide, rfl⟩
  | write => exact ⟨.feedbackWrite, by decide, rfl⟩
  | arithmetic operator missing => exact ⟨.arithmetic operator, by simp, rfl⟩
  | copy => exact ⟨.thru, by decide, rfl⟩

/-- Only the kinds in the table have a role other than copying. -/
theorem mem_table_of_ofKind {kind : String} {role : Role} (h : ofKind kind = role)
    (hrole : role ≠ copy) : (kind, role) ∈ table := by
  rw [ofKind] at h
  cases hlookup : table.lookup kind with
  | none => exact absurd (by rw [← h, hlookup]; rfl) hrole
  | some found =>
    rw [hlookup, Option.getD_some] at h
    obtain ⟨before, after, htable, -⟩ := List.lookup_eq_some_iff.mp hlookup
    rw [htable, ← h]
    simp

/-- A role that one kind alone has in the table. -/
private theorem ofKind_eq_iff {kind : String} {role : Role} (hrole : role ≠ copy)
    (hkind : ofKind kind = role) (hunique : ∀ e ∈ table, e.2 = role → e.1 = kind) {other : String} :
    ofKind other = role ↔ other = kind :=
  ⟨fun h => hunique _ (mem_table_of_ofKind h hrole) rfl, fun h => h ▸ hkind⟩

theorem ofKind_eq_constant {kind : String} : ofKind kind = constant ↔ kind = Kind.constant :=
  ofKind_eq_iff (by decide) (by decide) (by decide)

theorem ofKind_eq_write {kind : String} : ofKind kind = write ↔ kind = Kind.feedbackWrite :=
  ofKind_eq_iff (by decide) (by decide) (by decide)

theorem ofKind_eq_feedback {kind : String} :
    ofKind kind = unit "Feedback" ↔ kind = Kind.feedbackRead :=
  ofKind_eq_iff (by decide) (by decide) (by decide)

theorem ofKind_eq_out {kind : String} : ofKind kind = out ↔ kind = Kind.out :=
  ofKind_eq_iff (by decide) (by decide) (by decide)

theorem ofKind_eq_exit {kind : String} : ofKind kind = exit ↔ kind = Kind.exit :=
  ofKind_eq_iff (by decide) (by decide) (by decide)

/-- Every kind but three leaves a value in a slot. -/
theorem hasSlot_ofKind {kind : String} : (ofKind kind).hasSlot = true ↔
    kind ≠ Kind.constant ∧ kind ≠ Kind.out ∧ kind ≠ Kind.exit := by
  rw [ne_eq, ne_eq, ne_eq, ← ofKind_eq_constant, ← ofKind_eq_out, ← ofKind_eq_exit]
  cases ofKind kind <;> simp [hasSlot]

/-- What stands in for a missing operand is what the program holds in its place. -/
theorem missing_eq_identity {kind missing : String} {operator : Operator}
    (h : ofKind kind = arithmetic operator missing) : missing = operator.identity := by
  have hall : ∀ e ∈ table, ∀ o ∈ [Operator.add, .sub, .mul, .div],
      e.2 = arithmetic o missing → missing = o.identity := by
    simp [table, Operator.identity, eq_comm]
  exact hall _ (mem_table_of_ofKind h (by simp)) operator (by cases operator <;> simp) rfl

end Role

/-! ### The standard registry -/

namespace Registry

private theorem find?_schema (operations : List Operation) (roles : List (String × Role))
    (h : operations.map (fun o => (o.kind, o.schema)) = roles.map fun e => (e.1, e.2.schema))
    (kind : String) :
    (operations.find? (·.kind = kind)).map (·.schema) = (roles.lookup kind).map Role.schema := by
  induction operations generalizing roles with
  | nil =>
    obtain rfl : roles = [] := by simpa using h.symm
    rfl
  | cons operation rest ih =>
    cases roles with
    | nil => simp at h
    | cons e roles =>
      rw [List.map_cons, List.map_cons, List.cons.injEq, Prod.mk.injEq] at h
      obtain ⟨⟨hkind, hschema⟩, hrest⟩ := h
      by_cases heq : operation.kind = kind
      · have hbeq : (kind == e.1) = true := beq_iff_eq.mpr (heq.symm.trans hkind)
        rw [List.find?_cons_of_pos (by simpa using heq), List.lookup_cons, hbeq]
        exact congrArg some hschema
      · have hne : (kind == e.1) = false := by
          rw [beq_eq_false_iff_ne, ← hkind]
          exact Ne.symm heq
        rw [List.find?_cons_of_neg (by simpa using heq), List.lookup_cons, hne]
        exact ih roles hrest

/-- The standard registry has a schema for exactly the kinds with a role of their own. -/
theorem standard_schema? (kind : String) :
    standard.schema? kind = (Role.table.lookup kind).map Role.schema := by
  rw [schema?, get?_eq_find?, standard_operations]
  exact find?_schema _ _ rfl kind

/-- Whatever the kind of a node, it is compiled as its role says. -/
theorem standard_resolve? (kind : String) : ∃ viaFallback,
    standard.resolve? Kind.thru kind = some ((Role.ofKind kind).schema, viaFallback) := by
  rw [resolve?, standard_schema? kind, Role.ofKind]
  cases Role.table.lookup kind with
  | some role => exact ⟨false, rfl⟩
  | none =>
    have hthru : standard.schema? Kind.thru = some Role.copy.schema := by
      rw [standard_schema?]
      rfl
    exact ⟨true, by rw [hthru]; rfl⟩

end Registry

end Patchbay
