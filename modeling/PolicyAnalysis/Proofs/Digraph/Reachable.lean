import PolicyAnalysis.Proofs.Digraph.Edges

/-!
# Reachable graphs

A graph is reachable if the operations on graphs lead to it from the empty one. In a reachable graph the
sources that are kept for each node are those of the edges to it. So both ends of an edge are nodes.
-/

namespace PolicyAnalysis.Digraph

variable {ε : Type} {g : Digraph ε}

/-- The sources are kept for the nodes, and they are those of the edges. -/
structure Consistent (g : Digraph ε) : Prop where
  mem_into_iff : ∀ n, n ∈ g.into ↔ g.hasNode n
  mem_predecessors_iff : ∀ s t, s ∈ g.predecessors t ↔ g.hasEdge s t

inductive Reachable : Digraph ε → Prop
  | empty : Reachable empty
  | addNode {g : Digraph ε} (n : Nat) : Reachable g → Reachable (g.addNode n)
  | putEdge {g : Digraph ε} (s t : Nat) (data : Option ε → ε) :
      Reachable g → Reachable (g.putEdge s t data)
  | updateEdge {g : Digraph ε} (s t : Nat) (change : ε → ε) :
      Reachable g → Reachable (g.updateEdge s t change)
  | removeEdge {g : Digraph ε} (s t : Nat) : Reachable g → Reachable (g.removeEdge s t)
  | removeNode {g : Digraph ε} (n : Nat) : Reachable g → Reachable (g.removeNode n)
  | filterEdges {g : Digraph ε} (keep : Nat → Nat → ε → Option ε) :
      Reachable g → Reachable (g.filterEdges keep)
  | reversed {g : Digraph ε} : Reachable g → Reachable g.reversed

namespace Consistent

theorem hasNode_target (h : g.Consistent) {s t : Nat} (edge : g.hasEdge s t) : g.hasNode t := by
  obtain ⟨sources, hsources, -⟩ := (g.mem_predecessors s t).mp ((h.mem_predecessors_iff s t).mpr edge)
  rw [← h.mem_into_iff, Std.ExtTreeMap.mem_iff_isSome_getElem?, hsources]
  rfl

theorem empty : (empty : Digraph ε).Consistent where
  mem_into_iff n := by simp [Digraph.empty, hasNode]
  mem_predecessors_iff s t := by simp [Digraph.empty, predecessors, hasEdge, edge?]

theorem addNode (h : g.Consistent) (n : Nat) : (g.addNode n).Consistent where
  mem_into_iff k := by rw [mem_into_addNode, hasNode_addNode, h.mem_into_iff]
  mem_predecessors_iff s t := by
    rw [mem_predecessors_addNode, h.mem_predecessors_iff, hasEdge, hasEdge, edge?_addNode]

theorem putEdge (h : g.Consistent) (s t : Nat) (data : Option ε → ε) : (g.putEdge s t data).Consistent where
  mem_into_iff k := by rw [mem_into_putEdge, hasNode_putEdge, h.mem_into_iff]
  mem_predecessors_iff a b := by
    rw [mem_predecessors_putEdge, h.mem_predecessors_iff, hasEdge, hasEdge, edge?_putEdge]
    split
    next hab => simp [hab]
    next hab => simp [hab]

theorem updateEdge (h : g.Consistent) (s t : Nat) (change : ε → ε) :
    (g.updateEdge s t change).Consistent where
  mem_into_iff k := by rw [hasNode_updateEdge, ← h.mem_into_iff]; rfl
  mem_predecessors_iff a b := by
    have hsources : (g.updateEdge s t change).predecessors b = g.predecessors b := rfl
    rw [hsources, h.mem_predecessors_iff, hasEdge, hasEdge, edge?_updateEdge]
    split
    · rw [Option.isSome_map]
    · rfl

theorem removeEdge (h : g.Consistent) (s t : Nat) : (g.removeEdge s t).Consistent where
  mem_into_iff k := by rw [mem_into_removeEdge, hasNode_removeEdge, h.mem_into_iff]
  mem_predecessors_iff a b := by
    by_cases hst : g.hasEdge s t
    · rw [mem_predecessors_removeEdge g s t a b hst, h.mem_predecessors_iff, hasEdge, hasEdge,
        edge?_removeEdge]
      split
      next hab => simp [hab]
      next hab => simp [hab]
    · rw [Digraph.removeEdge, if_neg hst]
      exact h.mem_predecessors_iff a b

theorem edge?_removeNode (h : g.Consistent) (n s t : Nat) :
    (g.removeNode n).edge? s t = if n = s ∨ n = t then none else g.edge? s t := by
  rw [edge?, out_removeNode]
  by_cases hs : n = s
  · simp [hs]
  have hsn := h.mem_predecessors_iff s n
  by_cases hmem : s ∈ g.predecessors n
  · rw [if_neg hs, if_pos hmem, edge?]
    cases g.out[s]? with
    | none => simp
    | some row => simp [hs, Std.ExtTreeMap.getElem?_erase]
  · rw [if_neg hs, if_neg hmem, ← edge?]
    by_cases ht : n = t
    · subst ht
      simpa [hsn, hasEdge] using hmem
    · simp [hs, ht]

theorem removeNode (h : g.Consistent) (n : Nat) : (g.removeNode n).Consistent where
  mem_into_iff k := by
    rw [hasNode_removeNode, ← h.mem_into_iff, Std.ExtTreeMap.mem_iff_isSome_getElem?,
      Std.ExtTreeMap.mem_iff_isSome_getElem?, into_removeNode]
    by_cases hk : n = k
    · simp [hk]
    · rw [if_neg hk]
      split <;> simp [hk]
  mem_predecessors_iff s t := by
    rw [hasEdge, h.edge?_removeNode, mem_predecessors, into_removeNode]
    by_cases ht : n = t
    · simp [ht]
    have hst := h.mem_predecessors_iff s t
    rw [mem_predecessors, hasEdge] at hst
    by_cases hmem : t ∈ g.successors n
    · rw [if_neg ht, if_pos hmem]
      by_cases hs : n = s
      · cases g.into[t]? <;> simp [hs, Std.ExtTreeSet.mem_erase]
      · rw [if_neg (not_or.mpr ⟨hs, ht⟩), ← hst]
        cases g.into[t]? <;> simp [hs, Std.ExtTreeSet.mem_erase]
    · rw [if_neg ht, if_neg hmem, hst]
      by_cases hs : n = s
      · subst hs
        simpa [mem_successors, hasEdge] using hmem
      · simp [hs, ht]

theorem edge?_foldl_removeNode (h : g.Consistent) (l : List Nat) (s t : Nat) :
    (l.foldl Digraph.removeNode g).edge? s t = if s ∈ l ∨ t ∈ l then none else g.edge? s t := by
  induction l generalizing g with
  | nil => simp
  | cons n l ih =>
    rw [List.foldl_cons, ih (h.removeNode n), h.edge?_removeNode]
    by_cases hl : s ∈ l ∨ t ∈ l
    · rw [if_pos hl, if_pos]
      exact hl.imp (List.mem_cons_of_mem n) (List.mem_cons_of_mem n)
    · rw [if_neg hl]
      have hcons : (s ∈ n :: l ∨ t ∈ n :: l) ↔ n = s ∨ n = t := by
        rw [not_or] at hl
        simp [hl.1, hl.2, eq_comm]
      simp only [hcons]

theorem filterEdges (h : g.Consistent) (keep : Nat → Nat → ε → Option ε) :
    (g.filterEdges keep).Consistent where
  mem_into_iff k := by rw [mem_into_filterEdges, hasNode_filterEdges, h.mem_into_iff]
  mem_predecessors_iff s t := by
    have hkept : (g.filterEdges keep).hasEdge s t → g.hasEdge s t := by
      rw [hasEdge, hasEdge, edge?_filterEdges]
      exact Option.isSome_of_isSome_bind
    rw [mem_predecessors_filterEdges, mem_droppedEdges, h.mem_predecessors_iff, not_and, not_not]
    constructor
    · rintro ⟨edge, kept⟩
      exact kept edge
    · intro kept
      exact ⟨hkept kept, fun _ => kept⟩

theorem reversed (g : Digraph ε) : g.reversed.Consistent := by
  refine List.foldlRecOn g.edges _ ?_ fun r h e _ => h.putEdge e.1.2 e.1.1 _
  exact List.foldlRecOn g.nodes _ empty fun r h n _ => h.addNode n

theorem hasNode_reversed (h : g.Consistent) (n : Nat) : g.reversed.hasNode n ↔ g.hasNode n := by
  rw [Digraph.reversed, hasNode_foldl_putEdge, hasNode_foldl_addNode, mem_nodes]
  simp only [hasNode_empty, Bool.false_eq_true, or_false, or_iff_right_iff_imp]
  rintro ⟨⟨⟨s, t⟩, e⟩, hmem, hend⟩
  have edge : g.hasEdge s t := (g.hasEdge_iff s t).mpr ⟨e, g.mem_edges.mp hmem⟩
  rcases hend with rfl | rfl
  · exact g.hasNode_of_hasEdge edge
  · exact h.hasNode_target edge

end Consistent

theorem Reachable.consistent (h : g.Reachable) : g.Consistent := by
  induction h with
  | empty => exact .empty
  | addNode n _ ih => exact ih.addNode n
  | putEdge s t data _ ih => exact ih.putEdge s t data
  | updateEdge s t change _ ih => exact ih.updateEdge s t change
  | removeEdge s t _ ih => exact ih.removeEdge s t
  | removeNode n _ ih => exact ih.removeNode n
  | filterEdges keep _ ih => exact ih.filterEdges keep
  | reversed _ _ => exact .reversed _

theorem Reachable.hasNode_target (h : g.Reachable) {s t : Nat} (edge : g.hasEdge s t) : g.hasNode t :=
  h.consistent.hasNode_target edge

/-- Two ways from 0 to 3 with an edge between them, an edge back, and a loop. -/
def loopedDiamond : Digraph Unit :=
  [(0, 1), (0, 2), (1, 3), (2, 3), (1, 2), (3, 0), (2, 2)].foldl
    (fun g e => g.putEdge e.1 e.2 fun _ => ()) empty

theorem reachable_loopedDiamond : loopedDiamond.Reachable :=
  List.foldlRecOn _ _ .empty fun _ h e _ => h.putEdge e.1 e.2 _

end PolicyAnalysis.Digraph
