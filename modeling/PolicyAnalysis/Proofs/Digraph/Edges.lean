import Mathlib.Data.List.Induction
import PolicyAnalysis.Digraph.Basic

/-!
# Edges and nodes of a changed graph

What each change of a graph does to its nodes, to its edges and to the sources that are kept for each node.
The sources are read from a table of their own, so nothing here says that they agree with the edges.
-/

namespace PolicyAnalysis.Digraph

variable {ε : Type} (g : Digraph ε)

theorem hasNode_addNode (n k : Nat) : (g.addNode n).hasNode k ↔ n = k ∨ g.hasNode k := by
  simp [addNode, hasNode, Std.ExtTreeMap.contains_insertIfNew]

@[simp] theorem edge?_addNode (n s t : Nat) : (g.addNode n).edge? s t = g.edge? s t := by
  rw [edge?, edge?, addNode, Std.ExtTreeMap.getElem?_insertIfNew]
  by_cases h : n = s ∧ ¬ n ∈ g.out
  · obtain ⟨rfl, hn⟩ := h
    simp [hn]
  · simp [h]

theorem mem_into_addNode (n k : Nat) : k ∈ (g.addNode n).into ↔ n = k ∨ k ∈ g.into := by
  simp [addNode, Std.ExtTreeMap.mem_insertIfNew]

theorem mem_predecessors_addNode (n s t : Nat) :
    s ∈ (g.addNode n).predecessors t ↔ s ∈ g.predecessors t := by
  rw [mem_predecessors, mem_predecessors, addNode, Std.ExtTreeMap.getElem?_insertIfNew]
  by_cases h : n = t ∧ ¬ n ∈ g.into
  · obtain ⟨rfl, hn⟩ := h
    simp [hn]
  · simp [h]

theorem hasNode_putEdge (s t : Nat) (data : Option ε → ε) (k : Nat) :
    (g.putEdge s t data).hasNode k ↔ s = k ∨ t = k ∨ g.hasNode k := by
  rw [putEdge, hasNode, Std.ExtTreeMap.contains_alter, ← hasNode]
  by_cases h : s = k
  · simp [h]
  · simp [h, hasNode_addNode]

theorem edge?_putEdge (s t : Nat) (data : Option ε → ε) (a b : Nat) :
    (g.putEdge s t data).edge? a b =
      if s = a ∧ t = b then some (data (g.edge? a b)) else g.edge? a b := by
  have hrow (n : Nat) : ((((g.addNode s).addNode t).out[n]?).getD ∅)[b]? = g.edge? n b := by
    rw [← edge?_addNode g s n b, ← edge?_addNode (g.addNode s) t n b, edge?]
    cases ((g.addNode s).addNode t).out[n]? <;> simp
  rw [putEdge, edge?, Std.ExtTreeMap.getElem?_alter]
  by_cases hs : s = a
  · subst hs
    by_cases ht : t = b
    · subst ht
      simp [hrow]
    · simp [ht, Std.ExtTreeMap.getElem?_alter, hrow]
  · rw [if_neg (by simpa using hs), if_neg (by simp [hs]), ← edge?, edge?_addNode, edge?_addNode]

theorem mem_into_putEdge (s t : Nat) (data : Option ε → ε) (k : Nat) :
    k ∈ (g.putEdge s t data).into ↔ s = k ∨ t = k ∨ k ∈ g.into := by
  rw [putEdge, Std.ExtTreeMap.mem_alter, mem_into_addNode, mem_into_addNode]
  by_cases h : t = k
  · simp [h]
  · simp [h]

theorem mem_predecessors_putEdge (s t : Nat) (data : Option ε → ε) (a b : Nat) :
    a ∈ (g.putEdge s t data).predecessors b ↔ s = a ∧ t = b ∨ a ∈ g.predecessors b := by
  rw [← mem_predecessors_addNode g s, ← mem_predecessors_addNode (g.addNode s) t, predecessors,
    predecessors, putEdge, Std.ExtTreeSet.mem_toList, Std.ExtTreeSet.mem_toList,
    Std.ExtTreeMap.getElem?_alter]
  by_cases h : t = b
  · subst h
    simp [Std.ExtTreeSet.mem_insert]
  · simp [h]

theorem hasNode_updateEdge (s t : Nat) (change : ε → ε) (k : Nat) :
    (g.updateEdge s t change).hasNode k ↔ g.hasNode k := by
  rw [updateEdge, hasNode, Std.ExtTreeMap.contains_modify, ← hasNode]

theorem edge?_updateEdge (s t : Nat) (change : ε → ε) (a b : Nat) :
    (g.updateEdge s t change).edge? a b =
      if s = a ∧ t = b then (g.edge? a b).map change else g.edge? a b := by
  rw [updateEdge, edge?, edge?, Std.ExtTreeMap.getElem?_modify]
  by_cases hs : s = a
  · subst hs
    cases g.out[s]? with
    | none => simp
    | some row => by_cases ht : t = b <;> simp [ht, Std.ExtTreeMap.getElem?_modify]
  · simp [hs]

theorem edge?_filterEdges (keep : Nat → Nat → ε → Option ε) (s t : Nat) :
    (g.filterEdges keep).edge? s t = (g.edge? s t).bind (keep s t) := by
  rw [filterEdges, edge?, edge?, Std.ExtTreeMap.getElem?_map]
  cases g.out[s]? with
  | none => rfl
  | some row => simp

theorem nodes_filterEdges (keep : Nat → Nat → ε → Option ε) : (g.filterEdges keep).nodes = g.nodes := by
  rw [filterEdges, nodes, nodes, Std.ExtTreeMap.keys_map]

theorem hasNode_filterEdges (keep : Nat → Nat → ε → Option ε) (k : Nat) :
    (g.filterEdges keep).hasNode k ↔ g.hasNode k := by
  rw [← mem_nodes, ← mem_nodes, nodes_filterEdges]

theorem getElem?_foldl_erase (pairs : List (Nat × Nat)) (into : Std.ExtTreeMap Nat (Std.ExtTreeSet Nat))
    (k : Nat) :
    (pairs.foldl (fun into e => into.modify e.2 (·.erase e.1)) into)[k]? =
      (into[k]?).map (Std.ExtTreeSet.filter fun s => (s, k) ∉ pairs) := by
  induction pairs generalizing into with
  | nil =>
    cases hk : into[k]? with
    | none => rw [List.foldl_nil, hk, Option.map_none]
    | some sources =>
      rw [List.foldl_nil, hk, Option.map_some, Option.some.injEq]
      ext s
      simp [Std.ExtTreeSet.mem_filter]
  | cons e pairs ih =>
    obtain ⟨s, t⟩ := e
    rw [List.foldl_cons, ih, Std.ExtTreeMap.getElem?_modify]
    by_cases ht : t = k
    · subst ht
      cases into[t]? with
      | none => simp
      | some sources =>
        rw [if_pos (by simp), Option.map_some, Option.map_some, Option.map_some, Option.some.injEq]
        ext a
        simp [Std.ExtTreeSet.mem_filter, Std.ExtTreeSet.mem_erase, eq_comm (a := s), and_assoc]
    · simp [ht, Ne.symm ht]

theorem mem_into_filterEdges (keep : Nat → Nat → ε → Option ε) (k : Nat) :
    k ∈ (g.filterEdges keep).into ↔ k ∈ g.into := by
  rw [filterEdges, Std.ExtTreeMap.mem_iff_isSome_getElem?, getElem?_foldl_erase, Option.isSome_map,
    Std.ExtTreeMap.mem_iff_isSome_getElem?]

theorem mem_droppedEdges (keep : Nat → Nat → ε → Option ε) (s t : Nat) :
    (s, t) ∈ g.droppedEdges keep ↔ g.hasEdge s t ∧ ¬ (g.filterEdges keep).hasEdge s t := by
  have hmem : (s, t) ∈ g.droppedEdges keep ↔ ∃ e, g.edge? s t = some e ∧ keep s t e = none := by
    simp [droppedEdges, mem_edges]
  rw [hmem, hasEdge, hasEdge, edge?_filterEdges]
  cases g.edge? s t with
  | none => simp
  | some e => simp

theorem mem_predecessors_filterEdges (keep : Nat → Nat → ε → Option ε) (s t : Nat) :
    s ∈ (g.filterEdges keep).predecessors t ↔ s ∈ g.predecessors t ∧ (s, t) ∉ g.droppedEdges keep := by
  rw [mem_predecessors, mem_predecessors, filterEdges, getElem?_foldl_erase]
  cases g.into[t]? with
  | none => simp
  | some sources => simp [Std.ExtTreeSet.mem_filter]

theorem hasNode_removeEdge (s t k : Nat) : (g.removeEdge s t).hasNode k ↔ g.hasNode k := by
  rw [removeEdge]
  split
  · rw [hasNode, Std.ExtTreeMap.contains_modify, ← hasNode]
  · rfl

theorem edge?_removeEdge (s t a b : Nat) :
    (g.removeEdge s t).edge? a b = if s = a ∧ t = b then none else g.edge? a b := by
  rw [removeEdge]
  split
  next h =>
    rw [edge?, edge?, Std.ExtTreeMap.getElem?_modify]
    by_cases hs : s = a
    · subst hs
      cases g.out[s]? with
      | none => simp
      | some row => by_cases ht : t = b <;> simp [ht, Std.ExtTreeMap.getElem?_erase]
    · simp [hs]
  next h =>
    split
    next hab =>
      obtain ⟨rfl, rfl⟩ := hab
      simpa [hasEdge] using h
    next => rfl

theorem mem_into_removeEdge (s t k : Nat) : k ∈ (g.removeEdge s t).into ↔ k ∈ g.into := by
  rw [removeEdge]
  split
  · rw [Std.ExtTreeMap.mem_modify]
  · rfl

theorem mem_predecessors_removeEdge (s t a b : Nat) (h : g.hasEdge s t) :
    a ∈ (g.removeEdge s t).predecessors b ↔ a ∈ g.predecessors b ∧ ¬ (s = a ∧ t = b) := by
  rw [removeEdge, if_pos h, mem_predecessors, mem_predecessors, Std.ExtTreeMap.getElem?_modify]
  by_cases ht : t = b
  · subst ht
    cases g.into[t]? with
    | none => simp
    | some sources => simp [Std.ExtTreeSet.mem_erase, and_comm]
  · simp [ht]

/-- Changing an entry a second time makes no difference when the change does not. -/
theorem getElem?_foldl_modify {β : Type} (change : β → β) (twice : ∀ b, change (change b) = change b)
    (keys : List Nat) (table : Std.ExtTreeMap Nat β) (k : Nat) :
    (keys.foldl (fun table key => table.modify key change) table)[k]? =
      if k ∈ keys then (table[k]?).map change else table[k]? := by
  induction keys generalizing table with
  | nil => simp
  | cons key keys ih =>
    rw [List.foldl_cons, ih, Std.ExtTreeMap.getElem?_modify]
    by_cases hk : key = k
    · subst hk
      cases table[key]? <;> simp [twice]
    · simp [hk, Ne.symm hk]

theorem out_removeNode (n k : Nat) :
    (g.removeNode n).out[k]? =
      if n = k then none
      else if k ∈ g.predecessors n then (g.out[k]?).map (·.erase n) else g.out[k]? := by
  have twice (row : Std.ExtTreeMap Nat ε) : (row.erase n).erase n = row.erase n := by
    ext t e
    simp only [Std.ExtTreeMap.getElem?_erase]
    split <;> rfl
  rw [removeNode, getElem?_foldl_modify _ twice, Std.ExtTreeMap.getElem?_erase]
  by_cases h : n = k
  · simp [h]
  · simp [h, Ne.symm h]

theorem hasNode_removeNode (n k : Nat) : (g.removeNode n).hasNode k ↔ n ≠ k ∧ g.hasNode k := by
  rw [hasNode, hasNode, Std.ExtTreeMap.contains_eq_isSome_getElem?,
    Std.ExtTreeMap.contains_eq_isSome_getElem?, out_removeNode]
  by_cases hk : n = k
  · simp [hk]
  · rw [if_neg hk]
    split <;> simp [hk]

theorem hasNode_foldl_removeNode (l : List Nat) (k : Nat) :
    (l.foldl removeNode g).hasNode k ↔ k ∉ l ∧ g.hasNode k := by
  induction l generalizing g with
  | nil => simp
  | cons n l ih =>
    rw [List.foldl_cons, ih, hasNode_removeNode, List.mem_cons, not_or, ne_comm, and_assoc, and_left_comm]

theorem into_removeNode (n k : Nat) :
    (g.removeNode n).into[k]? =
      if n = k then none
      else if k ∈ g.successors n then (g.into[k]?).map (·.erase n) else g.into[k]? := by
  have twice (sources : Std.ExtTreeSet Nat) : (sources.erase n).erase n = sources.erase n := by
    ext s
    simp only [Std.ExtTreeSet.mem_erase, and_self_left]
  rw [removeNode, getElem?_foldl_modify _ twice, Std.ExtTreeMap.getElem?_erase]
  by_cases h : n = k
  · simp [h]
  · simp [h]

theorem edge?_foldl_addNode (l : List Nat) (s t : Nat) : (l.foldl addNode g).edge? s t = g.edge? s t := by
  induction l generalizing g with
  | nil => rfl
  | cons n l ih => rw [List.foldl_cons, ih, edge?_addNode]

theorem hasNode_foldl_addNode (l : List Nat) (n : Nat) :
    (l.foldl addNode g).hasNode n ↔ n ∈ l ∨ g.hasNode n := by
  induction l generalizing g with
  | nil => simp
  | cons k l ih =>
    rw [List.foldl_cons, ih, hasNode_addNode, List.mem_cons, eq_comm (a := n), or_left_comm, or_assoc]

theorem hasNode_foldl_putEdge (l : List ((Nat × Nat) × ε)) (n : Nat) :
    (l.foldl (fun r e => r.putEdge e.1.2 e.1.1 fun _ => e.2) g).hasNode n ↔
      (∃ e ∈ l, e.1.1 = n ∨ e.1.2 = n) ∨ g.hasNode n := by
  induction l generalizing g with
  | nil => simp
  | cons e l ih =>
    rw [List.foldl_cons, ih, hasNode_putEdge]
    grind

theorem edge?_foldl_putEdge {l : List ((Nat × Nat) × ε)}
    (hl : ∀ a ∈ l, ∀ b ∈ l, a.1 = b.1 → a.2 = b.2) {s t : Nat} {e : ε} (hg : g.edge? s t = none) :
    (l.foldl (fun r e => r.putEdge e.1.2 e.1.1 fun _ => e.2) g).edge? s t = some e ↔ ((t, s), e) ∈ l := by
  induction l using List.reverseRecOn with
  | nil => simp [hg]
  | append_singleton l x ih =>
    have ih := ih fun a ha b hb => hl a (List.mem_append_left _ ha) b (List.mem_append_left _ hb)
    obtain ⟨⟨t', s'⟩, e'⟩ := x
    rw [List.foldl_append, List.foldl_cons, List.foldl_nil, edge?_putEdge, List.mem_append, List.mem_singleton]
    by_cases hends : s' = s ∧ t' = t
    · obtain ⟨rfl, rfl⟩ := hends
      have hlast {e : ε} (he : ((t', s'), e) ∈ l) : e = e' :=
        hl _ (List.mem_append_left _ he) _ (List.mem_append_right _ (List.mem_singleton.mpr rfl)) rfl
      rw [if_pos ⟨rfl, rfl⟩, Option.some.injEq]
      constructor
      · rintro rfl
        exact Or.inr rfl
      · rintro (he | he)
        · exact (hlast he).symm
        · cases he
          rfl
    · rw [if_neg hends, ih]
      constructor
      · exact Or.inl
      · rintro (he | he)
        · exact he
        · cases he
          exact absurd ⟨rfl, rfl⟩ hends

theorem edge?_reversed (s t : Nat) : g.reversed.edge? s t = g.edge? t s := by
  have hedges : ∀ a ∈ g.edges, ∀ b ∈ g.edges, a.1 = b.1 → a.2 = b.2 := by
    rintro ⟨⟨s, t⟩, e⟩ ha ⟨⟨s', t'⟩, e'⟩ hb heq
    cases heq
    exact Option.some.inj ((g.mem_edges.mp ha).symm.trans (g.mem_edges.mp hb))
  have hnodes : (g.nodes.foldl addNode (empty : Digraph ε)).edge? s t = none := by
    rw [edge?_foldl_addNode, edge?_empty]
  apply Option.ext
  intro e
  rw [reversed, edge?_foldl_putEdge _ hedges hnodes, mem_edges]

end PolicyAnalysis.Digraph
