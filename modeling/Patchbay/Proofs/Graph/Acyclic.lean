import Mathlib.Data.Fintype.EquivFin
import Mathlib.Data.Fintype.Card
import Mathlib.Logic.Relation
import Patchbay.Graph.Basic

/-!
# Acyclic graphs

A graph is *acyclic* when its references stay inside the table and no node depends on itself. This
says nothing about the order of the table: an input may well stand after the node that it feeds.
Appending gives a `WellFormed` table, which is acyclic (`WellFormed.acyclic`), but the facts about
walks and programs need no more than `Acyclic`.

`Feeds` is well-founded on an acyclic graph (`Acyclic.wellFounded`). Recursion and induction over
the inputs of a node rest on this one fact.
-/

namespace Patchbay

/-- The nodes among some inputs. -/
theorem Input.mem_filterMap_node? {inputs : List Input} {id : NodeId} :
    id ∈ inputs.filterMap node? ↔ node id ∈ inputs := by
  rw [List.mem_filterMap]
  constructor
  · rintro ⟨input, hmem, hnode⟩
    cases input with
    | node _ =>
      rw [node?, Option.some.injEq] at hnode
      exact hnode ▸ hmem
    | immediate _ => cases hnode
  · intro h
    exact ⟨_, h, rfl⟩

namespace Graph

variable {g : Graph} {root id producer : NodeId}

/-! ### References -/

/-- The nodes that a node takes its inputs from, in order and with repeats. -/
def producers (g : Graph) (id : NodeId) : List NodeId :=
  (g.inputs id).filterMap Input.node?

theorem mem_producers : producer ∈ g.producers id ↔ g.Feeds producer id :=
  Input.mem_filterMap_node?

theorem node?_eq_some_iff {node : Node} :
    g.node? id = some node ↔ ∃ h : id < g.size, g.nodes[id] = node :=
  Array.getElem?_eq_some_iff

theorem node?_isSome : (g.node? id).isSome ↔ id < g.size := by
  simp [node?, size]

theorem inputs_of_node? {node : Node} (h : g.node? id = some node) : g.inputs id = node.inputs := by
  simp [inputs, h]

/-- Only a node of the graph has inputs. -/
theorem Feeds.consumer_lt_size (h : g.Feeds producer id) : id < g.size := by
  by_contra hid
  have hnone : g.node? id = none := by
    rw [← Option.not_isSome_iff_eq_none, node?_isSome]
    exact hid
  simp [Feeds, inputs, hnone] at h

instance (g : Graph) (producer id : NodeId) : Decidable (g.Feeds producer id) :=
  inferInstanceAs (Decidable (Input.node producer ∈ g.inputs id))

/-! ### Dependence -/

theorem reachable_iff_reflTransGen :
    g.Reachable root id ↔ Relation.ReflTransGen g.Feeds id root := by
  constructor
  · intro h
    induction h with
    | root => exact .refl
    | feeds _ hfeeds ih => exact ih.head hfeeds
  · intro h
    induction h using Relation.ReflTransGen.head_induction_on with
    | refl => exact .root
    | head hfeeds _ ih => exact ih.feeds hfeeds

theorem Reachable.trans {middle : NodeId} (h₁ : g.Reachable root middle)
    (h₂ : g.Reachable middle id) : g.Reachable root id := by
  rw [reachable_iff_reflTransGen] at *
  exact Relation.ReflTransGen.trans h₂ h₁

theorem Feeds.reachable (h : g.Feeds producer id) : g.Reachable id producer :=
  Reachable.root.feeds h

/-! ### Acyclicity -/

/-- Every reference is to a node of the graph, and no node depends on itself. -/
structure Acyclic (g : Graph) : Prop where
  lt_size : ∀ {producer id : NodeId}, g.Feeds producer id → producer < g.size
  irrefl : ∀ id, ¬ Relation.TransGen g.Feeds id id

namespace Acyclic

theorem reachable_lt_size (hg : g.Acyclic) (hroot : root < g.size) (h : g.Reachable root id) :
    id < g.size := by
  cases h with
  | root => exact hroot
  | feeds _ hfeeds => exact hg.lt_size hfeeds

/-- A node is not reachable from its inputs. -/
theorem not_reachable_of_feeds (hg : g.Acyclic) (h : g.Feeds producer id) :
    ¬ g.Reachable producer id := fun hreach =>
  hg.irrefl id (Relation.TransGen.tail' (reachable_iff_reflTransGen.mp hreach) h)

/-- Going from a node to its inputs comes to an end: the graph is finite and nothing repeats. -/
theorem wellFounded (hg : g.Acyclic) : WellFounded g.Feeds := by
  let below (i j : Fin g.size) : Prop := Relation.TransGen g.Feeds i j
  have : IsTrans (Fin g.size) below := ⟨fun _ _ _ h₁ h₂ => h₁.trans h₂⟩
  have : Std.Irrefl below := ⟨fun i => hg.irrefl i⟩
  have hwf : WellFounded below := Finite.wellFounded_of_trans_of_irrefl below
  have hacc : ∀ i : Fin g.size, Acc g.Feeds i := by
    intro i
    induction i using hwf.induction with
    | _ i ih =>
      exact ⟨_, fun producer hfeeds => ih ⟨producer, hg.lt_size hfeeds⟩ (.single hfeeds)⟩
  exact ⟨fun _ => ⟨_, fun producer hfeeds => hacc ⟨producer, hg.lt_size hfeeds⟩⟩⟩

end Acyclic

/-! ### Tables in order of construction -/

theorem WellFormed.lt_of_feeds (hg : g.WellFormed) (h : g.Feeds producer id) : producer < id := by
  obtain ⟨node, hnode⟩ := Option.isSome_iff_exists.mp (node?_isSome.mpr h.consumer_lt_size)
  refine hg id node hnode producer ?_
  rw [← mem_producers, producers, inputs_of_node? hnode] at h
  exact h

/-- A table in which references point back has no cycle. -/
theorem WellFormed.acyclic (hg : g.WellFormed) : g.Acyclic where
  lt_size h := (hg.lt_of_feeds h).trans h.consumer_lt_size
  irrefl id h := by
    have hlt : ∀ {a b : NodeId}, Relation.TransGen g.Feeds a b → a < b := by
      intro a b h
      induction h with
      | single h => exact hg.lt_of_feeds h
      | tail _ h ih => exact ih.trans (hg.lt_of_feeds h)
    exact Nat.lt_irrefl id (hlt h)

theorem wellFormed_iff : g.WellFormed ↔
    ∀ id : Fin g.size, ∀ producer ∈ (g.nodes[id]).producers, producer < id.val := by
  constructor
  · intro h id
    exact h id _ (node?_eq_some_iff.mpr ⟨id.isLt, rfl⟩)
  · intro h id node hnode
    obtain ⟨hid, rfl⟩ := node?_eq_some_iff.mp hnode
    exact h ⟨id, hid⟩

instance (g : Graph) : Decidable g.WellFormed :=
  decidable_of_iff' _ wellFormed_iff

end Graph

end Patchbay
