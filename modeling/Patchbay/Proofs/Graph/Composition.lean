import Mathlib.Data.Finset.Dedup
import Mathlib.Data.Finset.Lattice.Basic
import Patchbay.Proofs.Graph.Traversal

/-!
# Postorders compose

The order of a node comes from the orders of its inputs, each taken on its own: put them one after
the other, keep the first occurrence of each node, and append the node
(`Graph.postorder_eq_eraseDups`).

The point is what a visit does that starts with nodes visited already. If these are closed under
inputs as far as the visit can see, it appends the postorder of its node with the visited nodes
left out, and changes nothing else (`Graph.visit_eq_extend`). Without closure this fails: a visited
node hides inputs that are still to be appended. The node whose inputs are being visited is marked
and not yet closed, but an acyclic graph keeps it out of sight of its own inputs.
-/

namespace Patchbay

variable {g : Graph} {id producer : NodeId}

/-! ### First occurrences -/

section FirstOccurrences

variable {α : Type} [BEq α] [LawfulBEq α]

theorem filter_eraseDups (p : α → Bool) (l : List α) :
    l.eraseDups.filter p = (l.filter p).eraseDups := by
  induction hn : l.length using Nat.strong_induction_on generalizing l with
  | _ n ih =>
    cases l with
    | nil => rfl
    | cons a l =>
      subst hn
      have hshort : (l.filter fun b => !b == a).length < (a :: l).length :=
        Nat.lt_succ_of_le (List.length_filter_le _ _)
      rw [List.eraseDups_cons, List.filter_cons, List.filter_cons, ih _ hshort _ rfl]
      by_cases ha : p a
      · rw [if_pos ha, if_pos ha, List.eraseDups_cons, List.filter_comm]
      · -- `a` itself is left out, and so are its later occurrences
        rw [if_neg ha, if_neg ha, List.filter_filter]
        congr 1
        refine List.filter_congr fun b _ => ?_
        by_cases hb : b = a
        · simp [hb, ha]
        · simp [hb]

theorem eraseDups_of_nodup {l : List α} (h : l.Nodup) : l.eraseDups = l := by
  induction l with
  | nil => rfl
  | cons a l ih =>
    rw [List.nodup_cons] at h
    have hkeep : (l.filter fun b => !b == a) = l := by
      refine List.filter_eq_self.mpr fun b hb => ?_
      have hne : b ≠ a := fun heq => h.1 (heq ▸ hb)
      simp [hne]
    rw [List.eraseDups_cons, hkeep, ih h.2]

end FirstOccurrences

/-! ### Extending a traversal by a list -/

namespace Traversal

/-- The traversal that has also visited the nodes of a list, and has appended those that were new,
each where it first occurs. -/
def extend (t : Traversal) (ids : List NodeId) : Traversal where
  visited := t.visited ∪ ids.toFinset
  order := t.order ++ ids.eraseDups.filter (· ∉ t.visited)

theorem extend_nil (t : Traversal) : t.extend [] = t := by
  simp [extend]

/-- Extending by one list and then by another is extending by both. -/
theorem extend_extend (t : Traversal) (ids ids' : List NodeId) :
    (t.extend ids).extend ids' = t.extend (ids ++ ids') := by
  have hnew : ids'.eraseDups.filter (· ∉ (t.extend ids).visited) =
      (ids'.removeAll ids).eraseDups.filter (· ∉ t.visited) := by
    rw [List.removeAll, filter_eraseDups, filter_eraseDups, List.filter_filter]
    congr 1
    refine List.filter_congr fun id _ => ?_
    by_cases hvisited : id ∈ t.visited <;> simp [extend, hvisited]
  rw [extend, hnew, extend, extend, List.eraseDups_append, List.filter_append, List.append_assoc,
    List.toFinset_append, Finset.union_assoc]

theorem mem_extend_visited {t : Traversal} {ids : List NodeId} :
    id ∈ (t.extend ids).visited ↔ id ∈ t.visited ∨ id ∈ ids := by
  simp [extend]

/-- Marking a node that is not in a list takes nothing from the list. -/
theorem filter_notMem_insert {ids : List NodeId} (h : id ∉ ids) (visited : Finset NodeId) :
    ids.filter (· ∉ insert id visited) = ids.filter (· ∉ visited) := by
  refine List.filter_congr fun other hother => ?_
  have hne : other ≠ id := fun heq => h (heq ▸ hother)
  simp [hne]

/-- Marking a new node, extending by a list and then appending the node is extending by both. -/
theorem append_extend_mark {t : Traversal} {ids : List NodeId}
    (hnodup : (ids.eraseDups ++ [id]).Nodup) (hid : id ∉ t.visited) :
    ((t.mark id).extend ids).append id = t.extend (ids.eraseDups ++ [id]) := by
  have hids : id ∉ ids.eraseDups := fun hmem => List.disjoint_of_nodup_append hnodup hmem (by simp)
  have hvisited : insert id t.visited ∪ ids.toFinset =
      t.visited ∪ (ids.eraseDups ++ [id]).toFinset := by
    ext other
    simp only [Finset.mem_union, Finset.mem_insert, List.mem_toFinset, List.mem_append,
      List.mem_eraseDups, List.mem_singleton]
    tauto
  have hlast : [id].filter (· ∉ t.visited) = [id] := by simp [hid]
  rw [extend, extend, append, mark_visited, mark_order, hvisited, filter_notMem_insert hids,
    eraseDups_of_nodup hnodup, List.filter_append, hlast, List.append_assoc]

/-- Nodes that have been visited add nothing. -/
theorem extend_of_subset {t : Traversal} {ids : List NodeId} (h : ∀ id ∈ ids, id ∈ t.visited) :
    t.extend ids = t := by
  have hnone : ids.eraseDups.filter (· ∉ t.visited) = [] := by
    refine List.filter_eq_nil_iff.mpr fun id hid => ?_
    simpa using h id (List.mem_eraseDups.mp hid)
  have hvisited : t.visited ∪ ids.toFinset = t.visited := by
    refine Finset.union_eq_left.mpr fun id hid => ?_
    exact h id (List.mem_toFinset.mp hid)
  rw [extend, hnone, hvisited, List.append_nil]

end Traversal

namespace Graph

/-- Among the nodes that `id` depends on, those of a set have their inputs in the set. -/
def ClosedBelow (g : Graph) (visited : Finset NodeId) (id : NodeId) : Prop :=
  ∀ below, g.Reachable id below → below ∈ visited →
    ∀ producer, g.Feeds producer below → producer ∈ visited

namespace ClosedBelow

variable {visited : Finset NodeId}

theorem mem_of_reachable (h : g.ClosedBelow visited id) (hid : id ∈ visited) {below : NodeId}
    (hbelow : g.Reachable id below) : below ∈ visited := by
  induction hbelow with
  | root => exact hid
  | feeds hreach hfeeds ih => exact h _ hreach ih _ hfeeds

/-- An input of a node does not see the node. -/
theorem insert (hg : g.Acyclic) (h : g.ClosedBelow visited id) (hfeeds : g.Feeds producer id) :
    g.ClosedBelow (insert id visited) producer := by
  intro below hbelow hmem p hp
  rw [Finset.mem_insert] at hmem ⊢
  rcases hmem with rfl | hmem
  · exact absurd hbelow (hg.not_reachable_of_feeds hfeeds)
  · exact .inr (h below (hfeeds.reachable.trans hbelow) hmem p hp)

/-- A postorder is closed, so visiting it keeps what is closed. -/
theorem extend (hg : g.Acyclic) {t : Traversal} {other : NodeId} (hother : other < g.size)
    (h : g.ClosedBelow t.visited id) :
    g.ClosedBelow (t.extend (g.postorder other).toList).visited id := by
  intro below hbelow hmem p hp
  rw [Traversal.mem_extend_visited, mem_postorder hg hother] at hmem ⊢
  exact hmem.imp (fun hmem => h below hbelow hmem p hp) (fun hmem => hmem.feeds hp)

end ClosedBelow

/-! ### Visits over closed sets -/

/-- Visits to several nodes, once it is known what each of them does. -/
theorem foldl_visit_eq_extend (hg : g.Acyclic) {ids : List NodeId} {t : Traversal}
    (hids : ∀ id ∈ ids, id < g.size)
    (hvisit : ∀ id ∈ ids, ∀ t : Traversal, g.ClosedBelow t.visited id →
      g.visit hg t id = t.extend (g.postorder id).toList)
    (hclosed : ∀ id ∈ ids, g.ClosedBelow t.visited id) :
    ids.foldl (g.visit hg) t = t.extend (ids.flatMap fun id => (g.postorder id).toList) := by
  induction ids generalizing t with
  | nil => exact t.extend_nil.symm
  | cons first ids ih =>
    have hfirst : g.visit hg t first = t.extend (g.postorder first).toList :=
      hvisit first List.mem_cons_self t (hclosed first List.mem_cons_self)
    rw [List.foldl_cons, hfirst, ih (fun id hid => hids id (List.mem_cons_of_mem _ hid))
        (fun id hid => hvisit id (List.mem_cons_of_mem _ hid)), Traversal.extend_extend,
      List.flatMap_cons]
    intro id hid
    exact (hclosed id (List.mem_cons_of_mem _ hid)).extend hg (hids first List.mem_cons_self)

/-- The postorders of the inputs of a node, one after the other. -/
def inputOrders (g : Graph) (id : NodeId) : List NodeId :=
  (g.producers id).flatMap fun producer => (g.postorder producer).toList

theorem notMem_inputOrders (hg : g.Acyclic) (id : NodeId) : id ∉ g.inputOrders id := by
  intro hmem
  obtain ⟨producer, hproducer, hid⟩ := List.mem_flatMap.mp hmem
  have hfeeds : g.Feeds producer id := mem_producers.mp hproducer
  exact hg.not_reachable_of_feeds hfeeds ((mem_postorder hg (hg.lt_size hfeeds)).mp hid)

/-- The recursion of postorders, once it is known what visits to the inputs do. -/
theorem postorder_eq_of_visit (hg : g.Acyclic)
    (hvisit : ∀ producer, g.Feeds producer id → ∀ t : Traversal,
      g.ClosedBelow t.visited producer →
      g.visit hg t producer = t.extend (g.postorder producer).toList) :
    (g.postorder id).toList = (g.inputOrders id).eraseDups ++ [id] := by
  have hclosed : ∀ producer ∈ g.producers id,
      g.ClosedBelow (({} : Traversal).mark id).visited producer := fun producer hproducer =>
    ClosedBelow.insert hg (by simp [ClosedBelow]) (mem_producers.mp hproducer)
  have hfold := foldl_visit_eq_extend hg (fun p hp => hg.lt_size (mem_producers.mp hp))
    (fun p hp => hvisit p (mem_producers.mp hp)) hclosed
  have hid : id ∉ (g.inputOrders id).eraseDups := fun hmem =>
    notMem_inputOrders hg id (List.mem_eraseDups.mp hmem)
  have hall : (g.inputOrders id).eraseDups.filter (· ∉ (∅ : Finset NodeId)) =
      (g.inputOrders id).eraseDups :=
    List.filter_eq_self.mpr fun _ _ => by simp
  rw [postorder_eq_foldl_visit hg, hfold]
  change [] ++ (g.inputOrders id).eraseDups.filter (· ∉ (insert id ∅ : Finset NodeId)) ++ [id] = _
  rw [Traversal.filter_notMem_insert hid, hall, List.nil_append]

/-- A visit appends the postorder of its node, less what has been visited, if that is closed as
far as the node can see. -/
theorem visit_eq_extend (hg : g.Acyclic) {t : Traversal} (hid : id < g.size)
    (hclosed : g.ClosedBelow t.visited id) :
    g.visit hg t id = t.extend (g.postorder id).toList := by
  induction id using hg.wellFounded.induction generalizing t with
  | _ id ih =>
  by_cases hmem : id ∈ t.visited
  · rw [visit_of_mem hg hmem, Traversal.extend_of_subset]
    intro below hbelow
    exact hclosed.mem_of_reachable hmem ((mem_postorder hg hid).mp hbelow)
  · have hvisit : ∀ producer, g.Feeds producer id → ∀ t : Traversal,
        g.ClosedBelow t.visited producer →
          g.visit hg t producer = t.extend (g.postorder producer).toList :=
      fun producer hfeeds _ => ih producer hfeeds (hg.lt_size hfeeds)
    have hfold : (g.producers id).foldl (g.visit hg) (t.mark id) =
        (t.mark id).extend (g.inputOrders id) :=
      foldl_visit_eq_extend hg (fun p hp => hg.lt_size (mem_producers.mp hp))
        (fun p hp => hvisit p (mem_producers.mp hp))
        (fun p hp => hclosed.insert hg (mem_producers.mp hp))
    have horder : (g.postorder id).toList = (g.inputOrders id).eraseDups ++ [id] :=
      postorder_eq_of_visit hg hvisit
    have hnodup : ((g.inputOrders id).eraseDups ++ [id]).Nodup := horder ▸ postorder_nodup hg hid
    rw [visit_of_notMem hg hmem, hfold, horder, Traversal.append_extend_mark hnodup hmem]

theorem postorder_eq_inputOrders (hg : g.Acyclic) (id : NodeId) :
    (g.postorder id).toList = (g.inputOrders id).eraseDups ++ [id] :=
  postorder_eq_of_visit hg fun _ hfeeds _ => visit_eq_extend hg (hg.lt_size hfeeds)

/-- The order of a node begins with that of its first input. -/
theorem postorder_isPrefix (hg : g.Acyclic) (hfirst : (g.producers id).head? = some producer) :
    (g.postorder producer).toList <+: (g.postorder id).toList := by
  obtain ⟨others, hproducers⟩ := List.head?_eq_some_iff.mp hfirst
  have hfeeds : g.Feeds producer id := mem_producers.mp (hproducers ▸ List.mem_cons_self)
  have hnodup : (g.postorder producer).toList.Nodup := postorder_nodup hg (hg.lt_size hfeeds)
  rw [postorder_eq_inputOrders hg id, inputOrders, hproducers, List.flatMap_cons,
    List.eraseDups_append, eraseDups_of_nodup hnodup, List.append_assoc]
  exact List.prefix_append _ _

/-- Postorders compose. The order of a node is that of its inputs, each computed on its own and
put one after the other, with every node kept where it first occurs, and then the node itself. -/
theorem postorder_eq_eraseDups (hg : g.Acyclic) (id : NodeId) :
    (g.postorder id).toList =
      ((g.producers id).flatMap fun producer => (g.postorder producer).toList).eraseDups ++ [id] :=
  postorder_eq_inputOrders hg id

theorem diamond_postorder_eq_eraseDups :
    diamond.Acyclic ∧ (diamond.postorder 5).toList =
      ((diamond.producers 5).flatMap fun producer => (diamond.postorder producer).toList).eraseDups
        ++ [5] :=
  ⟨diamond_wellFormed.acyclic, postorder_eq_eraseDups diamond_wellFormed.acyclic 5⟩

end Graph

end Patchbay
