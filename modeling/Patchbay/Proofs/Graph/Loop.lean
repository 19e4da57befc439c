import Patchbay.Compile.Basic
import Patchbay.Proofs.Graph.Acyclic

/-!
# Feedback loops in a growing table

A feedback loop is a read, which starts it, and a write, which closes it and has the read as its
second input. While a patch is built, the loops around the current place are still *open*: their
reads stand in the table and their writes do not.

`Graph.Covered` says which loops a node depends on, open ones and closed ones. Appending changes
nothing of what an earlier node depends on (`Grows.reachable_iff`), so it keeps this.

`Graph.Wired` says that the loops of a table are in order, some of them being open. Three things can
be appended without spoiling this: a node of another kind, which may not use a write
(`Wired.add_node`); a read, which opens a loop (`Wired.add_read`); and the write of a loop that is
open (`Wired.add_write`).
-/

namespace Patchbay.Graph

variable {g g' g'' : Graph} {root id producer read write : NodeId} {node : Node}

/-- A feedback write that a root depends on, and the feedback read that it is paired with. -/
structure Loop (g : Graph) (root read write : NodeId) : Prop where
  reachable : g.Reachable root write
  write_kind : g.kind write = Kind.feedbackWrite
  read_kind : g.kind read = Kind.feedbackRead
  paired : (g.inputs write)[1]? = some (.node read)

/-! ### Appending a node -/

theorem size_add (g : Graph) (node : Node) : (g.add node).2.size = g.size + 1 :=
  Array.size_push node

theorem node?_add (g : Graph) (node : Node) (id : NodeId) :
    (g.add node).2.node? id = if id = g.size then some node else g.node? id :=
  Array.getElem?_push

theorem kind_add (g : Graph) (node : Node) (id : NodeId) :
    (g.add node).2.kind id = if id = g.size then node.kind else g.kind id := by
  rw [kind, node?_add, kind]
  by_cases hid : id = g.size <;> simp [hid]

theorem inputs_add (g : Graph) (node : Node) (id : NodeId) :
    (g.add node).2.inputs id = if id = g.size then node.inputs else g.inputs id := by
  rw [inputs, node?_add, inputs]
  by_cases hid : id = g.size <;> simp [hid]

theorem lt_size_of_kind {kind : String} (h : g.kind id = kind) (hkind : kind ≠ "") :
    id < g.size := by
  by_contra hid
  have hnone : g.node? id = none := Array.getElem?_eq_none (by exact Nat.le_of_not_lt hid)
  rw [Graph.kind, hnone] at h
  exact hkind h.symm

theorem WellFormed.add (hg : g.WellFormed)
    (hinputs : ∀ producer, .node producer ∈ node.inputs → producer < g.size) :
    (g.add node).2.WellFormed := by
  intro id other hother producer hproducer
  rw [node?_add] at hother
  split at hother
  · next hid =>
    obtain rfl := Option.some.inj hother
    obtain ⟨input, hmem, hinput⟩ := List.mem_filterMap.mp hproducer
    cases input with
    | immediate value => cases hinput
    | node id' =>
      obtain rfl := Option.some.inj hinput
      exact hid ▸ hinputs _ hmem
  · exact hg id other hother producer hproducer

/-- What a node depends on: itself, and what its inputs depend on. -/
theorem reachable_iff : g.Reachable root id ↔
    id = root ∨ ∃ producer, g.Feeds producer root ∧ g.Reachable producer id := by
  simp only [reachable_iff_reflTransGen]
  rw [Relation.ReflTransGen.cases_tail_iff, eq_comm]
  simp only [and_comm]

/-! ### Growth -/

/-- A table has been appended to. -/
structure Grows (g g' : Graph) : Prop where
  size_le : g.size ≤ g'.size
  node?_eq : ∀ {id}, id < g.size → g'.node? id = g.node? id

namespace Grows

theorem refl (g : Graph) : g.Grows g :=
  ⟨Nat.le_refl _, fun _ => rfl⟩

theorem trans (h : g.Grows g') (h' : g'.Grows g'') : g.Grows g'' where
  size_le := h.size_le.trans h'.size_le
  node?_eq hid := (h'.node?_eq (hid.trans_le h.size_le)).trans (h.node?_eq hid)

theorem add (g : Graph) (node : Node) : g.Grows (g.add node).2 where
  size_le := by rw [size_add]; omega
  node?_eq hid := by rw [node?_add, if_neg hid.ne]

theorem kind_eq (h : g.Grows g') (hid : id < g.size) : g'.kind id = g.kind id := by
  rw [kind, kind, h.node?_eq hid]

theorem inputs_eq (h : g.Grows g') (hid : id < g.size) : g'.inputs id = g.inputs id := by
  rw [inputs, inputs, h.node?_eq hid]

/-- An old node depends on what it depended on before. -/
theorem reachable_iff (h : g.Grows g') (hg : g.WellFormed) (hroot : root < g.size) :
    g'.Reachable root id ↔ g.Reachable root id := by
  constructor
  · intro hid
    induction hid with
    | root => exact .root
    | feeds _ hfeeds ih =>
      refine ih.feeds ?_
      rwa [Feeds, ← h.inputs_eq (hg.acyclic.reachable_lt_size hroot ih)]
  · intro hid
    induction hid with
    | root => exact .root
    | feeds hconsumer hfeeds ih =>
      refine ih.feeds ?_
      rwa [Feeds, h.inputs_eq (hg.acyclic.reachable_lt_size hroot hconsumer)]

end Grows

/-! ### Wiring -/

/-- A write closes the loop of a read. -/
def Closes (g : Graph) (write read : NodeId) : Prop :=
  g.kind write = Kind.feedbackWrite ∧ (g.inputs write)[1]? = some (.node read)

theorem Closes.write_lt (h : g.Closes write read) : write < g.size :=
  lt_size_of_kind h.1 (by decide)

theorem Grows.closes_iff (h : g.Grows g') (hwrite : write < g.size) :
    g'.Closes write read ↔ g.Closes write read := by
  rw [Closes, Closes, h.kind_eq hwrite, h.inputs_eq hwrite]

/-- A new node closes a loop if it is a write; otherwise loops are closed by the same writes. -/
theorem closes_add : (g.add node).2.Closes write read ↔ g.Closes write read ∨
    write = g.size ∧ node.kind = Kind.feedbackWrite ∧ node.inputs[1]? = some (.node read) := by
  rw [Closes, kind_add, inputs_add]
  split
  · next hwrite =>
    have hold : ¬ g.Closes write read := fun hcloses => hcloses.write_lt.ne hwrite
    subst hwrite
    simp [hold]
  · next hwrite => simp [Closes, hwrite]

/-- Of the loops that a node depends on, those in `opens` are open, and all others are closed by the
writes in `pending`. -/
def Covered (g : Graph) (opens pending : List NodeId) (start : NodeId) : Prop :=
  ∀ read, g.Reachable start read → g.kind read = Kind.feedbackRead →
    read ∈ opens ∨ ∃ write ∈ pending, g.Closes write read

namespace Covered

variable {opens opens' pending pending' : List NodeId} {start : NodeId}

/-- More writes may be pending, and a loop need not be open if it is closed. -/
theorem mono (h : g.Covered opens pending start) (hpending : pending ⊆ pending')
    (hopens : ∀ read ∈ opens, read ∈ opens' ∨ ∃ write ∈ pending', g.Closes write read) :
    g.Covered opens' pending' start := by
  intro read hread hkind
  rcases h read hread hkind with hopen | ⟨write, hwrite, hcloses⟩
  · exact hopens read hopen
  · exact .inr ⟨write, hpending hwrite, hcloses⟩

/-- A node that is not a read depends on the loops that its inputs depend on. -/
theorem of_feeds (hkind : g.kind start ≠ Kind.feedbackRead)
    (h : ∀ producer, g.Feeds producer start → g.Covered opens pending producer) :
    g.Covered opens pending start := by
  intro read hread hreadKind
  rcases reachable_iff.mp hread with rfl | ⟨producer, hfeeds, hread⟩
  · exact absurd hreadKind hkind
  · exact h producer hfeeds read hread hreadKind

/-- A read without inputs depends on its own loop alone. -/
theorem of_read (hinputs : g.inputs start = [])
    (h : start ∈ opens ∨ ∃ write ∈ pending, g.Closes write start) :
    g.Covered opens pending start := by
  intro read hread _
  rcases reachable_iff.mp hread with rfl | ⟨producer, hfeeds, -⟩
  · exact h
  · rw [Feeds, hinputs] at hfeeds
    cases hfeeds

/-- Appending nodes changes nothing behind an old node. -/
theorem grow (h : g.Covered opens pending start) (hg : g.WellFormed) (hgrows : g.Grows g')
    (hstart : start < g.size) (hpending : ∀ write ∈ pending, write < g.size) :
    g'.Covered opens pending start := by
  intro read hread hkind
  rw [hgrows.reachable_iff hg hstart] at hread
  rw [hgrows.kind_eq (hg.acyclic.reachable_lt_size hstart hread)] at hkind
  refine (h read hread hkind).imp_right ?_
  rintro ⟨write, hwrite, hcloses⟩
  exact ⟨write, hwrite, (hgrows.closes_iff (hpending write hwrite)).mpr hcloses⟩

end Covered

/-- The loops of a table are in order; those of the reads in `opens` are open. -/
structure Wired (g : Graph) (opens : List NodeId) : Prop where
  wellFormed : g.WellFormed
  read_inputs : ∀ {read}, g.kind read = Kind.feedbackRead → g.inputs read = []
  write_inputs : ∀ {write}, g.kind write = Kind.feedbackWrite →
    ∃ value read, g.inputs write = [.node value, .node read] ∧ g.kind read = Kind.feedbackRead
  /-- No node uses a write. -/
  write_unused : ∀ {write id}, g.kind write = Kind.feedbackWrite → ¬ g.Feeds write id
  /-- A loop is closed once. -/
  closes_unique : ∀ {read write write'}, g.Closes write read → g.Closes write' read →
    write = write'
  opens_nodup : opens.Nodup
  opens_kind : ∀ {read}, read ∈ opens → g.kind read = Kind.feedbackRead
  /-- An open loop is not closed. -/
  not_closes : ∀ {read write}, read ∈ opens → ¬ g.Closes write read

namespace Wired

variable {opens : List NodeId}

theorem empty : Wired {} [] := by
  have hkind : ∀ {kind id}, kind ≠ "" → Graph.kind {} id ≠ kind := fun hkind h =>
    Nat.not_lt_zero _ (lt_size_of_kind h hkind)
  exact {
    wellFormed := fun _ _ h => by cases h
    read_inputs := fun h => absurd h (hkind (by decide))
    write_inputs := fun h => absurd h (hkind (by decide))
    write_unused := fun h => absurd h (hkind (by decide))
    closes_unique := fun h => absurd h.1 (hkind (by decide))
    opens_nodup := List.nodup_nil
    opens_kind := fun h => by cases h
    not_closes := fun h => by cases h }

/-- A node is appended that does not use a write. If it is a write itself, it closes a loop that is
open before and not after. -/
private theorem add (h : g.Wired opens) {opens' : List NodeId} (hopens : opens'.Sublist opens)
    (hinputs : ∀ producer, .node producer ∈ node.inputs →
      producer < g.size ∧ g.kind producer ≠ Kind.feedbackWrite)
    (hread : node.kind = Kind.feedbackRead → node.inputs = [])
    (hwrite : node.kind = Kind.feedbackWrite → ∃ value read,
      node.inputs = [.node value, .node read] ∧ read ∈ opens ∧ read ∉ opens') :
    (g.add node).2.Wired opens' := by
  have hkind : ∀ {id}, id < g.size → (g.add node).2.kind id = g.kind id := fun hid =>
    (Grows.add g node).kind_eq hid
  have hreadLt : ∀ {read}, read ∈ opens → read < g.size := fun hmem =>
    lt_size_of_kind (h.opens_kind hmem) (by decide)
  -- a loop that the new node closes is open before
  have hnew : ∀ {read}, node.kind = Kind.feedbackWrite → node.inputs[1]? = some (.node read) →
      read ∈ opens ∧ read ∉ opens' := by
    intro read hnode hpaired
    obtain ⟨value, read', hinputs, hmem⟩ := hwrite hnode
    obtain rfl : read' = read := by simpa [hinputs] using hpaired
    exact hmem
  refine ⟨h.wellFormed.add fun producer hmem => (hinputs producer hmem).1, ?_, ?_, ?_, ?_,
    hopens.nodup h.opens_nodup, ?_, ?_⟩
  · intro read hreadKind
    rw [kind_add] at hreadKind
    rw [inputs_add]
    split at hreadKind
    · next hid => rw [if_pos hid, hread hreadKind]
    · next hid => rw [if_neg hid, h.read_inputs hreadKind]
  · intro write hwriteKind
    rw [kind_add] at hwriteKind
    rw [inputs_add]
    split at hwriteKind
    · next hid =>
      obtain ⟨value, read, hinputs, hmem, -⟩ := hwrite hwriteKind
      exact ⟨value, read, by rw [if_pos hid, hinputs],
        by rw [hkind (hreadLt hmem), h.opens_kind hmem]⟩
    · next hid =>
      obtain ⟨value, read, hinputs, hreadKind⟩ := h.write_inputs hwriteKind
      exact ⟨value, read, by rw [if_neg hid, hinputs],
        by rw [hkind (lt_size_of_kind hreadKind (by decide)), hreadKind]⟩
  · intro write id hwriteKind hfeeds
    rw [Feeds, inputs_add] at hfeeds
    split at hfeeds
    · obtain ⟨hlt, hne⟩ := hinputs write hfeeds
      exact hne ((hkind hlt).symm.trans hwriteKind)
    · have hlt := h.wellFormed.acyclic.lt_size hfeeds
      exact h.write_unused ((hkind hlt).symm.trans hwriteKind) hfeeds
  · intro read write write' hcloses hcloses'
    rcases closes_add.mp hcloses with hold | ⟨rfl, hnode, hpaired⟩ <;>
      rcases closes_add.mp hcloses' with hold' | ⟨rfl, hnode', hpaired'⟩
    · exact h.closes_unique hold hold'
    · exact absurd hold (h.not_closes (hnew hnode' hpaired').1)
    · exact absurd hold' (h.not_closes (hnew hnode hpaired).1)
    · rfl
  · intro read hmem
    rw [hkind (hreadLt (hopens.subset hmem)), h.opens_kind (hopens.subset hmem)]
  · intro read write hmem hcloses
    rcases closes_add.mp hcloses with hold | ⟨-, hnode, hpaired⟩
    · exact h.not_closes (hopens.subset hmem) hold
    · exact (hnew hnode hpaired).2 hmem

/-- A node of another kind is appended. -/
theorem add_node (h : g.Wired opens) (hread : node.kind ≠ Kind.feedbackRead)
    (hwrite : node.kind ≠ Kind.feedbackWrite)
    (hinputs : ∀ producer, .node producer ∈ node.inputs →
      producer < g.size ∧ g.kind producer ≠ Kind.feedbackWrite) :
    (g.add node).2.Wired opens :=
  h.add (List.Sublist.refl _) hinputs (fun hkind => absurd hkind hread)
    (fun hkind => absurd hkind hwrite)

/-- A read is appended, which opens a loop. -/
theorem add_read (h : g.Wired opens) :
    (g.add { kind := Kind.feedbackRead }).2.Wired (g.size :: opens) := by
  have hadd : (g.add { kind := Kind.feedbackRead }).2.Wired opens :=
    h.add (List.Sublist.refl _) (fun _ hmem => by cases hmem) (fun _ => rfl)
      (fun hkind => absurd hkind (by decide))
  refine { hadd with opens_nodup := ?_, opens_kind := ?_, not_closes := ?_ }
  · refine List.nodup_cons.mpr ⟨fun hmem => ?_, h.opens_nodup⟩
    exact Nat.lt_irrefl _ (lt_size_of_kind (h.opens_kind hmem) (by decide))
  · intro read hmem
    rcases List.mem_cons.mp hmem with rfl | hmem
    · rw [kind_add, if_pos rfl]
    · exact hadd.opens_kind hmem
  · intro read write hmem hcloses
    rcases List.mem_cons.mp hmem with rfl | hmem
    · -- the inputs of old nodes are old nodes
      rcases closes_add.mp hcloses with hold | ⟨-, hnode, -⟩
      · exact Nat.lt_irrefl _ (h.wellFormed.acyclic.lt_size (List.mem_of_getElem? hold.2))
      · exact absurd hnode (by decide)
    · exact hadd.not_closes hmem hcloses

/-- The write of an open loop is appended, which closes the loop. -/
theorem add_write {value : NodeId} (h : g.Wired (read :: opens)) (hvalue : value < g.size)
    (hkind : g.kind value ≠ Kind.feedbackWrite) :
    (g.add { kind := Kind.feedbackWrite, inputs := [.node value, .node read] }).2.Wired opens := by
  have hread := h.opens_kind List.mem_cons_self
  have hne : Kind.feedbackWrite ≠ Kind.feedbackRead := by decide
  refine h.add (List.sublist_cons_self _ _) ?_ (fun hkind => absurd hkind hne) fun _ =>
    ⟨value, read, rfl, List.mem_cons_self, (List.nodup_cons.mp h.opens_nodup).1⟩
  intro producer hmem
  rcases List.mem_pair.mp hmem with heq | heq
  · obtain rfl := Input.node.inj heq
    exact ⟨hvalue, hkind⟩
  · obtain rfl := Input.node.inj heq
    exact ⟨lt_size_of_kind hread (by decide), hread ▸ hne.symm⟩

end Wired

end Patchbay.Graph
