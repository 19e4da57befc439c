/-!
# Addressing

A program keeps the value of each node in a *slot*. There are two conventions for naming slots:
one identifier per node, declared where it is assigned, or one register file shared by all nodes.
-/

namespace Patchbay

/-- How a program refers to the value of a node. -/
inductive Addressing where
  /-- An identifier per node, such as `n3`, declared with `const n3 = …;`. -/
  | identifiers
  /-- A register file, assigned with `r[3] = …;`. -/
  | registers
  deriving DecidableEq

namespace Addressing

/-- The name of a convention. -/
def tag : Addressing → String
  | identifiers => "identifiers"
  | registers => "registers"

/-- The convention with a given name. -/
def ofTag? (name : String) : Option Addressing :=
  if name = identifiers.tag then some identifiers
  else if name = registers.tag then some registers
  else none

theorem ofTag?_eq_some_iff {name : String} {a : Addressing} :
    ofTag? name = some a ↔ a.tag = name := by
  constructor
  · intro h
    rw [ofTag?] at h
    split at h
    · next heq => exact Option.some.inj h ▸ heq.symm
    · split at h
      · next heq => exact Option.some.inj h ▸ heq.symm
      · cases h
  · rintro rfl
    cases a <;> rfl

/-- The text of the slot with a given index. Identifiers begin with `stem`; registers ignore it. -/
def slot (a : Addressing) (stem : String) (index : Nat) : String :=
  match a with
  | identifiers => stem ++ toString index
  | registers => "r[" ++ toString index ++ "]"

/-- What stands before the name of a slot where it is assigned. -/
def declaration : Addressing → String
  | identifiers => "const "
  | registers => ""

/-- The statement that stores an expression in the slot called `name`. -/
def assign (a : Addressing) (name expression : String) : String :=
  a.declaration ++ name ++ " = " ++ expression ++ ";"

end Addressing

end Patchbay
