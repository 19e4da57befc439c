import Mathlib.Logic.Function.Basic
import Patchbay.Proofs.Compile.Naming
import Patchbay.Proofs.Meaning.Instruction

/-!
# Hosts

A host runs a program, one block at a time. What it makes of the program is left open: a `Host` is
any choice of values, of what literals and signs mean, of an output level, of what each stateful
unit does when it is advanced, and of what writing to a feedback cell does.

All that a host has is a compiled patch: the lines of its program, and the tags of its units
(`Host.play`). Each line is read as an instruction, and the instructions are run one by one. An
operand that is the name of a slot is looked up and anything else is taken for a literal. A block
gets stuck at a line that cannot be read, at a slot that has not been assigned, at a unit that is
not there, and at a write to a unit that is not a cell, so playing to the end is part of what there
is to prove.
-/

namespace Patchbay

/-! ### Hosts and their memory -/

/-- What a host makes of a program, over values `V` and states `S` of its units. -/
structure Host (V S : Type) where
  /-- What the text of a literal means. -/
  literal : String → V
  /-- What the signs of arithmetic do. -/
  operate : (sign : Char) → V → V → V
  /-- The output level. -/
  level : V
  /-- What advancing a unit gives, and the state it leaves the unit in. The unit is known by its
  index and its tag. -/
  update : (k : Nat) → (tag : String) → S → List V → V × S
  /-- What writing to a feedback cell gives, and the state it leaves the cell in. -/
  write : (k : Nat) → S → V → V × S

/-- The tag of the units that can be written to. -/
def Host.cellTag : String := "Feedback"

/-- A stateful unit of a host. -/
structure HostUnit (S : Type) where
  tag : String
  state : S

/-- What a host keeps while it runs a block: the slots assigned so far, its units, and the two
channels once they have been returned. -/
structure Memory (V S : Type) where
  slots : String → Option V
  units : List (HostUnit S)
  returned : Option (V × V) := none

namespace Memory

variable {V S : Type}

/-- The memory at the beginning of a block: no slots, and units with given tags and states. -/
def start (states : Nat → S) (tags : List String) : Memory V S where
  slots := fun _ => none
  units := tags.mapIdx fun k tag => ⟨tag, states k⟩

/-- Assigns a slot. -/
def assign (m : Memory V S) (slot : String) (value : V) : Memory V S :=
  { m with slots := Function.update m.slots slot (some value) }

/-- Replaces a unit. -/
def setUnit (m : Memory V S) (k : Nat) (unit : HostUnit S) : Memory V S :=
  { m with units := m.units.set k unit }

variable (m : Memory V S) (slot : String) (value : V) (k : Nat) (unit : HostUnit S)

@[simp] theorem assign_units : (m.assign slot value).units = m.units := rfl

@[simp] theorem assign_returned : (m.assign slot value).returned = m.returned := rfl

@[simp] theorem setUnit_units : (m.setUnit k unit).units = m.units.set k unit := rfl

end Memory

/-! ### Running -/

namespace Host

variable {V S : Type} (host : Host V S) (a : Addressing) (stem : String)

/-- The value of an operand: that of a slot, if the text is the name of one. -/
def read (m : Memory V S) (text : String) : Option V :=
  if a.IsSlot stem text then m.slots text else some (host.literal text)

/-- The sum of the values of a channel, from the left. -/
def sum : List V → Option V
  | [] => none
  | first :: rest => some (rest.foldl (host.operate '+') first)

/-- The value of a channel of the mix. -/
def channel (values : List V) : Option V :=
  (host.sum values).map fun total => host.operate '*' total host.level

/-- Executes an instruction. -/
def exec (m : Memory V S) : Instruction → Option (Memory V S)
  | .update target k arguments => do
    let values ← arguments.mapM (host.read a stem m)
    let unit ← m.units[k]?
    let (value, state) := host.update k unit.tag unit.state values
    return (m.setUnit k ⟨unit.tag, state⟩).assign target value
  | .write target k operand => do
    let value ← host.read a stem m operand
    let unit ← m.units[k]?
    guard (unit.tag = cellTag)
    let (value, state) := host.write k unit.state value
    return (m.setUnit k ⟨unit.tag, state⟩).assign target value
  | .arithmetic target sign left right => do
    let left ← host.read a stem m left
    let right ← host.read a stem m right
    return m.assign target (host.operate sign left right)
  | .copy target operand => do
    return m.assign target (← host.read a stem m operand)
  | .mix left right => do
    let left ← host.channel (← left.mapM (host.read a stem m))
    let right ← host.channel (← right.mapM (host.read a stem m))
    return { m with returned := some (left, right) }

/-- Executes instructions until one of them returns. -/
def run : List Instruction → Memory V S → Option (Memory V S)
  | [], m => some m
  | i :: rest, m => if m.returned.isSome then some m else (host.exec a stem m i).bind (run rest)

/-- Plays a block of a compiled patch, with its units in given states. -/
def play (compiled : Compiled) (states : Nat → S) : Option (Memory V S) := do
  let instructions ← compiled.statements.mapM (Instruction.read? a)
  host.run a stem instructions (Memory.start states compiled.unitTags)

variable {host a stem}

theorem run_of_returned {m : Memory V S} (h : m.returned.isSome) (instructions : List Instruction) :
    host.run a stem instructions m = some m := by
  cases instructions with
  | nil => rfl
  | cons i rest => rw [run, if_pos h]

/-- A program can be run in two parts. -/
theorem run_append (is is' : List Instruction) (m : Memory V S) :
    host.run a stem (is ++ is') m = (host.run a stem is m).bind (host.run a stem is') := by
  induction is generalizing m with
  | nil => rfl
  | cons i rest ih =>
    rw [List.cons_append, run, run]
    by_cases h : m.returned.isSome
    -- a block that has returned ignores both parts
    · rw [if_pos h, if_pos h, Option.bind_some, run_of_returned h]
    · rw [if_neg h, if_neg h, Option.bind_assoc]
      exact congrArg _ (funext ih)

theorem run_singleton {i : Instruction} {m : Memory V S} (h : m.returned = none) :
    host.run a stem [i] m = host.exec a stem m i := by
  rw [run, h, if_neg (by simp)]
  exact Option.bind_fun_some _

theorem read_literal {m : Memory V S} {text : String} (h : ¬ a.IsSlot stem text) :
    host.read a stem m text = some (host.literal text) := by
  rw [read, if_neg h]

theorem read_slot {m : Memory V S} {text : String} (h : a.IsSlot stem text) :
    host.read a stem m text = m.slots text := by
  rw [read, if_pos h]

end Host

end Patchbay
