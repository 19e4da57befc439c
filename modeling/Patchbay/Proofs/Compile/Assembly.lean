import Mathlib.Data.List.Basic
import Patchbay.Proofs.Compile.Layout

/-!
# Assemblies, position by position

`Assembler.run_invariant` is the induction over an assembly, done once: what holds before the first
node and is kept both by going past a constant and by compiling any other node holds at the end, or
at the node where the assembly fails.

`Assembler.Aligned` is the first use of it. The tables of an assembly under way have one entry for
each position passed, constants and silent nodes included, and each entry is about the node at its
own position.
-/

namespace Patchbay.Assembler

variable {a : Assembler} {n i : Nat} {p : Progress} {node : Node}

/-! ### Induction over an assembly -/

/-- What an assembly of `nodes` keeps, step by step. -/
structure Keeps (a : Assembler) (nodes : List Node) (P : Nat → Progress → Prop) : Prop where
  /-- Going past a constant. -/
  skip : ∀ {i node p}, nodes[i]? = some node → a.layout.isConstant node = true → P i p →
    P (i + 1) p.skip
  /-- Compiling any other node. -/
  extend : ∀ {i node p schema viaFallback}, nodes[i]? = some node →
    a.layout.isConstant node = false →
    a.registry.resolve? a.fallbackKind node.kind = some (schema, viaFallback) → P i p →
    P (i + 1) (p.extend (a.entry p i node schema viaFallback))

/-- How an assembly of `nodes` ends: with all of them passed, or at a node without a schema. -/
def Ends (a : Assembler) (nodes : List Node) (P : Nat → Progress → Prop) :
    Progress × Option String → Prop
  | (p, none) => P nodes.length p
  | (p, some kind) => ∃ i node, nodes[i]? = some node ∧ a.layout.isConstant node = false ∧
    a.registry.resolve? a.fallbackKind node.kind = none ∧ node.kind = kind ∧ P i p

/-- What is kept by every step holds at the end. -/
theorem run_invariant {nodes : List Node} {P : Nat → Progress → Prop} (hkeeps : a.Keeps nodes P)
    (hzero : P 0 {}) : a.Ends nodes P (a.run nodes 0 {}) := by
  -- the induction is over the nodes ahead; those passed only count
  have hrun : ∀ (rest passed : List Node) (p : Progress), nodes = passed ++ rest →
      P passed.length p → a.Ends nodes P (a.run rest passed.length p) := by
    intro rest
    induction rest with
    | nil =>
      rintro passed p rfl hp
      simpa [run, Ends] using hp
    | cons node rest ih =>
      rintro passed p hnodes hp
      have hnode : nodes[passed.length]? = some node := by simp [hnodes]
      have hnext : nodes = (passed ++ [node]) ++ rest := by simp [hnodes]
      rw [run]
      by_cases hconst : a.layout.isConstant node
      · rw [if_pos hconst]
        simpa using ih (passed ++ [node]) p.skip hnext (by simpa using hkeeps.skip hnode hconst hp)
      rw [if_neg hconst]
      rw [Bool.not_eq_true] at hconst
      cases hschema : a.registry.resolve? a.fallbackKind node.kind with
      | none => exact ⟨passed.length, node, hnode, hconst, hschema, rfl, hp⟩
      | some resolved =>
        obtain ⟨schema, viaFallback⟩ := resolved
        simpa using ih (passed ++ [node]) _ hnext
          (by simpa using hkeeps.extend hnode hconst hschema hp)
  exact hrun nodes [] {} rfl hzero

/-- If every kind has a schema, the assembly passes all nodes. -/
theorem run_of_resolves {nodes : List Node} {P : Nat → Progress → Prop} (hkeeps : a.Keeps nodes P)
    (hzero : P 0 {})
    (hresolves : ∀ node ∈ nodes, (a.registry.resolve? a.fallbackKind node.kind).isSome) :
    ∃ p, a.run nodes 0 {} = (p, none) ∧ P nodes.length p := by
  have hends := run_invariant hkeeps hzero
  match hrun : a.run nodes 0 {} with
  | (p, none) => rw [hrun] at hends; exact ⟨p, rfl, hends⟩
  | (p, some kind) =>
    rw [hrun] at hends
    obtain ⟨i, node, hnode, -, hnone, -⟩ := hends
    have hsome := hresolves node (List.mem_of_getElem? hnode)
    rw [hnone] at hsome
    simp at hsome

/-! ### Tables -/

/-- The tag of the stateful unit of a node, if it has one. -/
def tag? (a : Assembler) (node : Node) : Option String :=
  if a.layout.isConstant node then none
  else (a.registry.resolve? a.fallbackKind node.kind).bind (·.1.tag)

/-- The number of stateful units before a position. -/
def unitsBefore (a : Assembler) (i : Nat) : Nat :=
  (a.layout.nodes.toList.take i).countP fun node => (a.tag? node).isSome

/-- The stateful unit of the node at a position, if it has one. -/
def unit? (a : Assembler) (i : Nat) (node : Node) : Option Nat :=
  if (a.tag? node).isSome then some (a.unitsBefore i) else none

/-- The operands of a node; none for a constant. -/
def operands (a : Assembler) (node : Node) : List Operand :=
  if a.layout.isConstant node then [] else node.inputs.map a.layout.operand

theorem tag?_of_resolve? {schema : Schema} {viaFallback : Bool}
    (hconst : a.layout.isConstant node = false)
    (hschema : a.registry.resolve? a.fallbackKind node.kind = some (schema, viaFallback)) :
    a.tag? node = schema.tag := by
  simp [tag?, hconst, hschema]

theorem unitsBefore_succ (h : a.layout.nodes[i]? = some node) :
    a.unitsBefore (i + 1) = a.unitsBefore i + if (a.tag? node).isSome then 1 else 0 := by
  rw [unitsBefore, List.take_add_one, Array.getElem?_toList, h, List.countP_append, ← unitsBefore]
  simp [List.countP_cons]

/-- The tables of an assembly that has passed `n` positions. -/
structure Aligned (a : Assembler) (n : Nat) (p : Progress) : Prop where
  unitAt_size : p.unitAt.size = n
  operandsAt_size : p.operandsAt.size = n
  units : p.units = a.unitsBefore n
  tags : p.entries.toList.filterMap (·.tag) = (a.layout.nodes.toList.take n).filterMap a.tag?
  unitAt : ∀ {i node}, i < n → a.layout.nodes[i]? = some node → p.unitAt[i]? = some (a.unit? i node)
  operandsAt : ∀ {i node}, i < n → a.layout.nodes[i]? = some node →
    p.operandsAt[i]? = some (a.operands node)

namespace Aligned

theorem zero (a : Assembler) : a.Aligned 0 {} where
  unitAt_size := rfl
  operandsAt_size := rfl
  units := by simp [unitsBefore]
  tags := rfl
  unitAt h := absurd h (Nat.not_lt_zero _)
  operandsAt h := absurd h (Nat.not_lt_zero _)

/-- One more position, with its own entries. -/
theorem push {p' : Progress} (h : a.Aligned n p) (hnode : a.layout.nodes[n]? = some node)
    (hunits : p'.units = p.units + if (a.tag? node).isSome then 1 else 0)
    (htags : p'.entries.toList.filterMap (·.tag) =
      p.entries.toList.filterMap (·.tag) ++ (a.tag? node).toList)
    (hunitAt : p'.unitAt = p.unitAt.push (a.unit? n node))
    (hoperandsAt : p'.operandsAt = p.operandsAt.push (a.operands node)) : a.Aligned (n + 1) p' where
  unitAt_size := by rw [hunitAt, Array.size_push, h.unitAt_size]
  operandsAt_size := by rw [hoperandsAt, Array.size_push, h.operandsAt_size]
  units := by rw [hunits, h.units, unitsBefore_succ hnode]
  tags := by
    rw [htags, h.tags, List.take_add_one, Array.getElem?_toList, hnode, List.filterMap_append]
    cases hnone : a.tag? node <;> simp [hnone]
  unitAt := by
    intro i node' hi hnode'
    rw [hunitAt, Array.getElem?_push, h.unitAt_size]
    split
    · next heq =>
      subst heq
      rw [Option.some.inj (hnode'.symm.trans hnode)]
    · exact h.unitAt (by omega) hnode'
  operandsAt := by
    intro i node' hi hnode'
    rw [hoperandsAt, Array.getElem?_push, h.operandsAt_size]
    split
    · next heq =>
      subst heq
      rw [Option.some.inj (hnode'.symm.trans hnode)]
    · exact h.operandsAt (by omega) hnode'

theorem skip (h : a.Aligned n p) (hnode : a.layout.nodes[n]? = some node)
    (hconst : a.layout.isConstant node = true) : a.Aligned (n + 1) p.skip := by
  have htag : a.tag? node = none := by simp [tag?, hconst]
  refine h.push hnode ?_ ?_ ?_ ?_
  · simp [Progress.skip, htag]
  · simp [Progress.skip, htag]
  · simp [Progress.skip, unit?, htag]
  · simp [Progress.skip, operands, hconst]

theorem extend {schema : Schema} {viaFallback : Bool} (h : a.Aligned n p)
    (hnode : a.layout.nodes[n]? = some node) (hconst : a.layout.isConstant node = false)
    (hschema : a.registry.resolve? a.fallbackKind node.kind = some (schema, viaFallback)) :
    a.Aligned (n + 1) (p.extend (a.entry p n node schema viaFallback)) := by
  have htag : (a.entry p n node schema viaFallback).tag = a.tag? node :=
    (tag?_of_resolve? hconst hschema).symm
  refine h.push hnode ?_ ?_ ?_ ?_
  · rw [Progress.extend, htag]
    split <;> rfl
  · rw [Progress.extend, Array.toList_push, List.filterMap_append, ← htag]
    cases hnone : (a.entry p n node schema viaFallback).tag <;> simp [hnone]
  · rw [Progress.extend, htag, unit?, h.units]
  · simp [Progress.extend, entry, context, operands, hconst]

/-- The unit that a node is told of for an earlier position. -/
theorem context_unitAt {node' : Node} {tag : Option String} (h : a.Aligned n p) (hi : i < n)
    (hnode : a.layout.nodes[i]? = some node) :
    (a.context p n node' tag).unitAt i = a.unit? i node := by
  simp [context, h.unitAt hi hnode]

/-- The operands that a node is told of for an earlier position. -/
theorem context_operandsAt {node' : Node} {tag : Option String} (h : a.Aligned n p) (hi : i < n)
    (hnode : a.layout.nodes[i]? = some node) :
    (a.context p n node' tag).operandsAt i = a.operands node := by
  simp [context, h.operandsAt hi hnode]

end Aligned

end Patchbay.Assembler
