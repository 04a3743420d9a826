import PolicyAnalysis.Proofs.Digraph.Diagram
import PolicyAnalysis.Proofs.Digraph.Reachable

/-!
# Graphs as diagrams

A graph keeps its edges twice, from either end, and counts them besides. Every operation changes the three in
step, so a graph that operations lead to from the empty one draws a diagram, and the same operations lead to
that diagram. The diagram tells the whole graph.
-/

namespace PolicyAnalysis

variable {ε : Type} {g : Digraph ε} {d : Diagram ε}

namespace Digraph

structure Draws (g : Digraph ε) (d : Diagram ε) : Prop where
  consistent : g.Consistent
  hasNode_iff : ∀ n, g.hasNode n ↔ n ∈ d.nodes
  edge?_eq : ∀ s t, g.edge? s t = d.data s t
  edgeCount_eq : g.edgeCount = d.arrows.card

theorem nodes_sorted (g : Digraph ε) : g.nodes.Pairwise (· < ·) :=
  Std.ExtTreeMap.ordered_keys.imp fun h => Nat.compare_eq_lt.mp h

theorem predecessors_sorted (g : Digraph ε) (n : Nat) : (g.predecessors n).Pairwise (· < ·) :=
  Std.ExtTreeSet.ordered_toList.imp fun h => Nat.compare_eq_lt.mp h

theorem edges_sorted (g : Digraph ε) : g.edges.Pairwise Diagram.Precedes := by
  rw [edges, List.pairwise_flatMap]
  constructor
  · intro row _
    rw [List.pairwise_map]
    refine row.2.ordered_keys_toList.imp ?_
    intro e e' h
    exact Prod.Lex.right _ (Nat.compare_eq_lt.mp h)
  · refine g.out.ordered_keys_toList.imp ?_
    intro row row' h e he e' he'
    obtain ⟨_, -, rfl⟩ := List.mem_map.mp he
    obtain ⟨_, -, rfl⟩ := List.mem_map.mp he'
    exact Prod.Lex.left _ _ (Nat.compare_eq_lt.mp h)

theorem nodup_map_edges (g : Digraph ε) : (g.edges.map (·.1)).Nodup := by
  refine List.Pairwise.map _ ?_ g.edges_sorted
  intro a b hab heq
  rw [Diagram.Precedes, heq] at hab
  exact irrefl_of _ _ hab

theorem eq_of_isSome_eq {α : Type} {a b : Option α} (hsome : a.isSome = b.isSome)
    (heq : ∀ x y, a = some x → b = some y → x = y) : a = b := by
  cases a with
  | none => exact (Option.isNone_iff_eq_none.mp (Option.isSome_eq_false_iff.mp hsome.symm)).symm
  | some x =>
    obtain ⟨y, rfl⟩ := Option.isSome_iff_exists.mp hsome.symm
    rw [heq x y rfl rfl]

namespace Draws

theorem hasEdge_iff (h : g.Draws d) (s t : Nat) : g.hasEdge s t ↔ (s, t) ∈ d.arrows := by
  rw [hasEdge, h.edge?_eq, d.mem_arrows]

theorem nodes_eq (h : g.Draws d) : g.nodes = d.nodeList := by
  apply g.nodes_sorted.eq_of_mem_iff d.nodeList_sorted
  intro n
  rw [mem_nodes, h.hasNode_iff, d.mem_nodeList]

theorem nodeCount_eq (h : g.Draws d) : g.nodeCount = d.nodes.card := by
  rw [← length_nodes, h.nodes_eq, Diagram.nodeList, Finset.length_sort]

theorem successors_eq (h : g.Draws d) (n : Nat) : g.successors n = d.successors n := by
  apply (g.successors_sorted n).eq_of_mem_iff (d.nodeList_sorted.filter _)
  intro t
  rw [mem_successors, h.hasEdge_iff, ← d.mem_successors]
  rfl

theorem predecessors_eq (h : g.Draws d) (n : Nat) : g.predecessors n = d.predecessors n := by
  apply (g.predecessors_sorted n).eq_of_mem_iff (d.nodeList_sorted.filter _)
  intro s
  rw [h.consistent.mem_predecessors_iff, h.hasEdge_iff, ← d.mem_predecessors]
  rfl

theorem adjacent_eq (h : g.Draws d) (n : Nat) (side : Side) : g.adjacent n side = d.adjacent n side := by
  cases side with
  | into => rw [adjacent, h.predecessors_eq]; rfl
  | out => rw [adjacent, h.successors_eq]; rfl

theorem edges_eq (h : g.Draws d) : g.edges = d.edges := by
  apply g.edges_sorted.eq_of_mem_iff d.edges_sorted
  intro ⟨⟨s, t⟩, e⟩
  rw [mem_edges, h.edge?_eq, d.mem_edges]

theorem edgeCount_eq_length (h : g.Draws d) : g.edgeCount = g.edges.length := by
  have harrows : (g.edges.map (·.1)).toFinset = d.arrows := by
    ext ⟨s, t⟩
    simp [mem_edges, h.edge?_eq, d.mem_arrows, Option.isSome_iff_exists]
  rw [h.edgeCount_eq, ← harrows, List.toFinset_card_of_nodup g.nodup_map_edges, List.length_map]

/-- Only one graph draws a diagram. -/
theorem unique {g' : Digraph ε} (h : g.Draws d) (h' : g'.Draws d) : g = g' := by
  have hnode (n : Nat) : g.hasNode n = g'.hasNode n := by
    rw [Bool.eq_iff_iff, h.hasNode_iff, h'.hasNode_iff]
  have hedge (s t : Nat) : g.edge? s t = g'.edge? s t := (h.edge?_eq s t).trans (h'.edge?_eq s t).symm
  have hout : g.out = g'.out := by
    refine Std.ExtTreeMap.ext_getElem? fun {s} => ?_
    apply eq_of_isSome_eq
    · rw [← Std.ExtTreeMap.contains_eq_isSome_getElem?, ← Std.ExtTreeMap.contains_eq_isSome_getElem?]
      exact hnode s
    · intro row row' hrow hrow'
      refine Std.ExtTreeMap.ext_getElem? fun {t} => ?_
      have hst := hedge s t
      rwa [edge?, edge?, hrow, hrow'] at hst
  have hinto : g.into = g'.into := by
    refine Std.ExtTreeMap.ext_getElem? fun {t} => ?_
    apply eq_of_isSome_eq
    · rw [Bool.eq_iff_iff, ← Std.ExtTreeMap.mem_iff_isSome_getElem?, ← Std.ExtTreeMap.mem_iff_isSome_getElem?,
        h.consistent.mem_into_iff, h'.consistent.mem_into_iff, hnode]
    · intro sources sources' hs hs'
      refine Std.ExtTreeSet.ext_mem fun s => ?_
      have hst : s ∈ g.predecessors t ↔ s ∈ g'.predecessors t := by
        rw [h.consistent.mem_predecessors_iff, h'.consistent.mem_predecessors_iff, hasEdge, hasEdge, hedge]
      simpa [mem_predecessors, hs, hs'] using hst
  have hcount : g.edgeCount = g'.edgeCount := h.edgeCount_eq.trans h'.edgeCount_eq.symm
  cases g
  cases g'
  congr

theorem empty : (empty : Digraph ε).Draws Diagram.empty where
  consistent := .empty
  hasNode_iff n := by simp [Diagram.empty]
  edge?_eq s t := by rw [edge?_empty]; rfl
  edgeCount_eq := rfl

theorem addNode (h : g.Draws d) (n : Nat) : (g.addNode n).Draws (d.addNode n) where
  consistent := h.consistent.addNode n
  hasNode_iff k := by rw [hasNode_addNode, h.hasNode_iff, Diagram.addNode, Finset.mem_insert, eq_comm]
  edge?_eq s t := by rw [edge?_addNode, h.edge?_eq]; rfl
  edgeCount_eq := by rw [d.arrows_addNode, ← h.edgeCount_eq]; rfl

theorem putEdge (h : g.Draws d) (s t : Nat) (data : Option ε → ε) :
    (g.putEdge s t data).Draws (d.putEdge s t data) where
  consistent := h.consistent.putEdge s t data
  hasNode_iff k := by
    rw [hasNode_putEdge, h.hasNode_iff, Diagram.putEdge, Finset.mem_insert, Finset.mem_insert, eq_comm (a := k),
      eq_comm (a := k)]
  edge?_eq a b := by rw [edge?_putEdge, h.edge?_eq]; rfl
  edgeCount_eq := by
    -- The counter looks for the source among those of the target, not for the edge.
    have hsource : ((g.into[t]?).getD ∅).contains s ↔ (s, t) ∈ d.arrows := by
      rw [← h.hasEdge_iff, ← h.consistent.mem_predecessors_iff, predecessors, Std.ExtTreeSet.mem_toList,
        Std.ExtTreeSet.mem_iff_contains]
    rw [d.arrows_putEdge, Finset.card_insert_eq_ite, ← h.edgeCount_eq]
    exact if_congr hsource rfl rfl

theorem updateEdge (h : g.Draws d) (s t : Nat) (change : ε → ε) :
    (g.updateEdge s t change).Draws (d.updateEdge s t change) where
  consistent := h.consistent.updateEdge s t change
  hasNode_iff k := by rw [hasNode_updateEdge, h.hasNode_iff]; rfl
  edge?_eq a b := by rw [edge?_updateEdge, h.edge?_eq]; rfl
  edgeCount_eq := by rw [d.arrows_updateEdge, ← h.edgeCount_eq]; rfl

theorem removeEdge_count (h : g.Draws d) {s t : Nat} (edge : g.hasEdge s t) :
    (d.removeEdge s t).arrows.card + 1 = g.edgeCount := by
  have hmem : (s, t) ∈ d.arrows := (h.hasEdge_iff s t).mp edge
  rw [d.arrows_removeEdge, h.edgeCount_eq, Finset.card_erase_add_one hmem]

theorem removeEdge (h : g.Draws d) (s t : Nat) : (g.removeEdge s t).Draws (d.removeEdge s t) where
  consistent := h.consistent.removeEdge s t
  hasNode_iff k := by rw [hasNode_removeEdge, h.hasNode_iff]; rfl
  edge?_eq a b := by rw [edge?_removeEdge, h.edge?_eq]; rfl
  edgeCount_eq := by
    by_cases hst : g.hasEdge s t
    · rw [Digraph.removeEdge, if_pos hst, ← h.removeEdge_count hst, Nat.add_sub_cancel]
    · have hmem : (s, t) ∉ d.arrows := by rwa [← h.hasEdge_iff]
      rw [Digraph.removeEdge, if_neg hst, d.arrows_removeEdge, Finset.erase_eq_of_notMem hmem, h.edgeCount_eq]

/-- A loop at a node counts among the edges that leave it, not among those that come from other nodes. -/
theorem removeNode_count (h : g.Draws d) (n : Nat) :
    (d.removeNode n).arrows.card + ((g.successors n).length + ((g.predecessors n).filter (· != n)).length) =
      g.edgeCount := by
  let leaving := (g.successors n).map fun t => (n, t)
  let coming := ((g.predecessors n).filter (· != n)).map fun s => (s, n)
  have mem_leaving (s t : Nat) : (s, t) ∈ leaving ↔ n = s ∧ (s, t) ∈ d.arrows := by
    simp only [leaving, List.mem_map, mem_successors, h.hasEdge_iff, Prod.mk.injEq]
    constructor
    · rintro ⟨t, edge, rfl, rfl⟩
      exact ⟨rfl, edge⟩
    · rintro ⟨rfl, edge⟩
      exact ⟨t, edge, rfl, rfl⟩
  have mem_coming (s t : Nat) : (s, t) ∈ coming ↔ (n ≠ s ∧ n = t) ∧ (s, t) ∈ d.arrows := by
    simp only [coming, List.mem_map, List.mem_filter, h.consistent.mem_predecessors_iff, h.hasEdge_iff,
      Prod.mk.injEq, bne_iff_ne]
    constructor
    · rintro ⟨s, ⟨edge, hs⟩, rfl, rfl⟩
      exact ⟨⟨Ne.symm hs, rfl⟩, edge⟩
    · rintro ⟨⟨hs, rfl⟩, edge⟩
      exact ⟨s, ⟨edge, Ne.symm hs⟩, rfl, rfl⟩
  have nodup : (leaving ++ coming).Nodup := by
    refine List.Nodup.append ?_ ?_ ?_
    · exact (g.successors_sorted n).nodup.map fun _ _ heq => (Prod.mk.inj heq).2
    · exact ((g.predecessors_sorted n).nodup.filter _).map fun _ _ heq => (Prod.mk.inj heq).1
    · intro ⟨s, t⟩ hleaving hcoming
      exact ((mem_coming s t).mp hcoming).1.1 ((mem_leaving s t).mp hleaving).1
  have hsub : (d.removeNode n).arrows ⊆ d.arrows := by
    rw [d.arrows_removeNode]
    exact Finset.filter_subset _ _
  have hgone (s t : Nat) :
      (s, t) ∈ leaving ++ coming ↔ (s, t) ∈ d.arrows ∧ (s, t) ∉ (d.removeNode n).arrows := by
    rw [List.mem_append, mem_leaving, mem_coming, d.arrows_removeNode, Finset.mem_filter]
    tauto
  have hcount := Diagram.card_arrows_add_length hsub nodup hgone
  rwa [List.length_append, List.length_map, List.length_map, ← h.edgeCount_eq] at hcount

theorem removeNode (h : g.Draws d) (n : Nat) : (g.removeNode n).Draws (d.removeNode n) where
  consistent := h.consistent.removeNode n
  hasNode_iff k := by rw [hasNode_removeNode, h.hasNode_iff, Diagram.removeNode, Finset.mem_erase, ne_comm]
  edge?_eq a b := by rw [h.consistent.edge?_removeNode, h.edge?_eq]; rfl
  edgeCount_eq := by
    have hcount : (g.removeNode n).edgeCount = g.edgeCount - (g.successors n).length -
        (((g.predecessors n).filter (· != n)).filter (g.hasEdge · n)).length := rfl
    have hsources : ((g.predecessors n).filter (· != n)).filter (g.hasEdge · n) =
        (g.predecessors n).filter (· != n) := by
      rw [List.filter_eq_self]
      intro s hs
      exact (h.consistent.mem_predecessors_iff s n).mp (List.mem_filter.mp hs).1
    have hsplit := h.removeNode_count n
    rw [hcount, hsources]
    omega

theorem filterEdges_count (h : g.Draws d) (keep : Nat → Nat → ε → Option ε) :
    (d.filterEdges keep).arrows.card + (g.droppedEdges keep).length = g.edgeCount := by
  have nodup : (g.droppedEdges keep).Nodup := g.nodup_map_edges.sublist (List.filter_sublist.map _)
  have hgone (s t : Nat) :
      (s, t) ∈ g.droppedEdges keep ↔ (s, t) ∈ d.arrows ∧ (s, t) ∉ (d.filterEdges keep).arrows := by
    rw [mem_droppedEdges, h.hasEdge_iff, d.filterEdges keep |>.mem_arrows, hasEdge, edge?_filterEdges, h.edge?_eq]
    rfl
  rw [Diagram.card_arrows_add_length (d.arrows_filterEdges_subset keep) nodup hgone, h.edgeCount_eq]

theorem filterEdges (h : g.Draws d) (keep : Nat → Nat → ε → Option ε) :
    (g.filterEdges keep).Draws (d.filterEdges keep) where
  consistent := h.consistent.filterEdges keep
  hasNode_iff k := by rw [hasNode_filterEdges, h.hasNode_iff]; rfl
  edge?_eq a b := by rw [edge?_filterEdges, h.edge?_eq]; rfl
  edgeCount_eq := by
    have hcount : (g.filterEdges keep).edgeCount = g.edgeCount - (g.droppedEdges keep).length := rfl
    rw [hcount, ← h.filterEdges_count keep, Nat.add_sub_cancel]

/-- Edges that are put in turned round are counted as well, so some diagram is drawn. Which one it is, the
nodes and the data say. -/
theorem reversed (h : g.Draws d) : g.reversed.Draws d.reversed := by
  have hdraws : ∃ r, g.reversed.Draws r := by
    refine List.foldlRecOn (motive := fun r : Digraph ε => ∃ d, r.Draws d) g.edges _ ?_ ?_
    · exact List.foldlRecOn (motive := fun r : Digraph ε => ∃ d, r.Draws d) g.nodes _ ⟨_, empty⟩
        fun r ⟨_, hr⟩ n _ => ⟨_, hr.addNode n⟩
    · exact fun r ⟨_, hr⟩ e _ => ⟨_, hr.putEdge e.1.2 e.1.1 _⟩
  obtain ⟨r, hr⟩ := hdraws
  have heq : r = d.reversed := by
    apply Diagram.ext
    · ext n
      rw [← hr.hasNode_iff, h.consistent.hasNode_reversed, h.hasNode_iff]
      rfl
    · funext s t
      rw [← hr.edge?_eq, edge?_reversed, h.edge?_eq]
      rfl
  rwa [heq] at hr

end Draws

inductive Edit (ε : Type) where
  | addNode (n : Nat)
  | putEdge (s t : Nat) (data : Option ε → ε)
  | updateEdge (s t : Nat) (change : ε → ε)
  | removeEdge (s t : Nat)
  | removeNode (n : Nat)
  | filterEdges (keep : Nat → Nat → ε → Option ε)
  | reversed

def edit (g : Digraph ε) : Edit ε → Digraph ε
  | .addNode n => g.addNode n
  | .putEdge s t data => g.putEdge s t data
  | .updateEdge s t change => g.updateEdge s t change
  | .removeEdge s t => g.removeEdge s t
  | .removeNode n => g.removeNode n
  | .filterEdges keep => g.filterEdges keep
  | .reversed => g.reversed

def drawn (edits : List (Edit ε)) : Digraph ε :=
  edits.foldl edit empty

end Digraph

def Diagram.edit (d : Diagram ε) : Digraph.Edit ε → Diagram ε
  | .addNode n => d.addNode n
  | .putEdge s t data => d.putEdge s t data
  | .updateEdge s t change => d.updateEdge s t change
  | .removeEdge s t => d.removeEdge s t
  | .removeNode n => d.removeNode n
  | .filterEdges keep => d.filterEdges keep
  | .reversed => d.reversed

def Diagram.drawn (edits : List (Digraph.Edit ε)) : Diagram ε :=
  edits.foldl edit empty

namespace Digraph

theorem Draws.edit (h : g.Draws d) (e : Edit ε) : (g.edit e).Draws (d.edit e) := by
  cases e with
  | addNode n => exact h.addNode n
  | putEdge s t data => exact h.putEdge s t data
  | updateEdge s t change => exact h.updateEdge s t change
  | removeEdge s t => exact h.removeEdge s t
  | removeNode n => exact h.removeNode n
  | filterEdges keep => exact h.filterEdges keep
  | reversed => exact h.reversed

theorem Draws.foldl_edit (h : g.Draws d) (edits : List (Edit ε)) :
    (edits.foldl Digraph.edit g).Draws (edits.foldl Diagram.edit d) := by
  induction edits generalizing g d with
  | nil => exact h
  | cons e edits ih => exact ih (h.edit e)

/-- What a graph answers is what a diagram says. -/
structure Answers (g : Digraph ε) (d : Diagram ε) : Prop where
  hasNode_iff : ∀ n, g.hasNode n ↔ n ∈ d.nodes
  nodes_eq : g.nodes = d.nodeList
  nodeCount_eq : g.nodeCount = d.nodes.card
  edge?_eq : ∀ s t, g.edge? s t = d.data s t
  edges_eq : g.edges = d.edges
  edgeCount_eq : g.edgeCount = d.arrows.card
  successors_eq : ∀ n, g.successors n = d.successors n
  predecessors_eq : ∀ n, g.predecessors n = d.predecessors n
  adjacent_eq : ∀ n side, g.adjacent n side = d.adjacent n side

/-- What is taken off the counter with the edges that go is counted by it. -/
structure CountsDown (g : Digraph ε) : Prop where
  removeEdge : ∀ s t, g.hasEdge s t → (g.removeEdge s t).edgeCount + 1 = g.edgeCount
  removeNode : ∀ n, (g.removeNode n).edgeCount +
    ((g.successors n).length + ((g.predecessors n).filter (· != n)).length) = g.edgeCount
  filterEdges : ∀ keep, (g.filterEdges keep).edgeCount + (g.droppedEdges keep).length = g.edgeCount

theorem Draws.answers (h : g.Draws d) : g.Answers d where
  hasNode_iff := h.hasNode_iff
  nodes_eq := h.nodes_eq
  nodeCount_eq := h.nodeCount_eq
  edge?_eq := h.edge?_eq
  edges_eq := h.edges_eq
  edgeCount_eq := h.edgeCount_eq
  successors_eq := h.successors_eq
  predecessors_eq := h.predecessors_eq
  adjacent_eq := h.adjacent_eq

theorem Draws.countsDown (h : g.Draws d) : g.CountsDown where
  removeEdge s t edge := by rw [(h.removeEdge s t).edgeCount_eq, h.removeEdge_count edge]
  removeNode n := by rw [(h.removeNode n).edgeCount_eq, h.removeNode_count]
  filterEdges keep := by rw [(h.filterEdges keep).edgeCount_eq, h.filterEdges_count]

/-- After any sequence of operations a graph answers as the diagram that the same operations make. The sources
at a node are those of its edges, the counter counts the edges and never falls below the number that goes, and
turning a graph round turns every edge with its data and nothing else, so that twice is not at all. -/
theorem drawn_answers_diagram (edits : List (Edit ε)) :
    (drawn edits).Answers (Diagram.drawn edits) ∧
    (∀ s t, s ∈ (drawn edits).predecessors t ↔ (drawn edits).hasEdge s t) ∧
    (drawn edits).edgeCount = (drawn edits).edges.length ∧
    (drawn edits).CountsDown ∧
    (∀ s t, (drawn edits).reversed.edge? s t = (drawn edits).edge? t s) ∧
    (drawn edits).reversed.nodes = (drawn edits).nodes ∧
    (drawn edits).reversed.reversed = drawn edits := by
  have h : (drawn edits).Draws (Diagram.drawn edits) := Draws.empty.foldl_edit edits
  have htwice : (Diagram.drawn edits).reversed.reversed = Diagram.drawn edits := rfl
  refine ⟨h.answers, h.consistent.mem_predecessors_iff, h.edgeCount_eq_length, h.countsDown,
    (drawn edits).edge?_reversed, ?_, ?_⟩
  · rw [h.reversed.nodes_eq, h.nodes_eq]
    rfl
  · apply h.reversed.reversed.unique
    rwa [htwice]

example : (drawn [.putEdge 0 0 fun _ => (), .putEdge 0 1 fun _ => (), .removeNode 0]).size = ⟨1, 0⟩ := by decide

end Digraph

end PolicyAnalysis
