import Mathlib.Data.Finset.Prod
import Mathlib.Data.Finset.Sort
import Mathlib.Data.Prod.Lex
import Mathlib.Order.RelClasses
import PolicyAnalysis.Digraph.Basic

/-!
# Diagrams

A diagram is what a graph is a table of: finitely many nodes, and data for some of the ordered pairs of them.
The operations on graphs have their plain meaning here. Questions are answered from the pair alone, with
listings in the order of the numbers.
-/

namespace PolicyAnalysis

@[ext]
structure Diagram (ε : Type) where
  nodes : Finset Nat
  data : Nat → Nat → Option ε
  ends_mem : ∀ {s t : Nat} {e : ε}, data s t = some e → s ∈ nodes ∧ t ∈ nodes

namespace Diagram

variable {ε : Type}

/-- An edge is listed before another if its source is, or its target among those of one source. -/
def Precedes (a b : (Nat × Nat) × ε) : Prop :=
  Prod.Lex (· < ·) (· < ·) a.1 b.1

instance : Std.Irrefl (Precedes (ε := ε)) :=
  ⟨fun a h => irrefl_of (Prod.Lex (· < ·) (· < ·)) a.1 h⟩

instance : Std.Asymm (Precedes (ε := ε)) :=
  ⟨fun _ _ h h' => asymm_of (Prod.Lex (· < ·) (· < ·)) h h'⟩

def empty : Diagram ε where
  nodes := ∅
  data _ _ := none
  ends_mem h := nomatch h

section
variable (d : Diagram ε)

/-- The pairs that have data. -/
def arrows : Finset (Nat × Nat) :=
  (d.nodes ×ˢ d.nodes).filter fun a => (d.data a.1 a.2).isSome

def nodeList : List Nat :=
  d.nodes.sort (· ≤ ·)

def successors (n : Nat) : List Nat :=
  d.nodeList.filter fun t => (d.data n t).isSome

def predecessors (n : Nat) : List Nat :=
  d.nodeList.filter fun s => (d.data s n).isSome

def adjacent (n : Nat) : Side → List (Nat × Nat)
  | .out => (d.successors n).map fun t => (n, t)
  | .into => (d.predecessors n).map fun s => (s, n)

def edges : List ((Nat × Nat) × ε) :=
  d.nodeList.flatMap fun s => d.nodeList.filterMap fun t => (d.data s t).map fun e => ((s, t), e)

theorem mem_arrows (s t : Nat) : (s, t) ∈ d.arrows ↔ (d.data s t).isSome := by
  rw [arrows, Finset.mem_filter, Finset.mem_product, and_iff_right_iff_imp]
  intro h
  obtain ⟨e, he⟩ := Option.isSome_iff_exists.mp h
  exact d.ends_mem he

theorem mem_nodeList (n : Nat) : n ∈ d.nodeList ↔ n ∈ d.nodes :=
  Finset.mem_sort _

theorem nodeList_sorted : d.nodeList.Pairwise (· < ·) :=
  (Finset.sortedLT_sort d.nodes).pairwise

theorem mem_successors (s t : Nat) : t ∈ d.successors s ↔ (s, t) ∈ d.arrows := by
  rw [successors, List.mem_filter, mem_nodeList, mem_arrows, and_iff_right_iff_imp]
  intro h
  obtain ⟨e, he⟩ := Option.isSome_iff_exists.mp h
  exact (d.ends_mem he).2

theorem mem_predecessors (s t : Nat) : s ∈ d.predecessors t ↔ (s, t) ∈ d.arrows := by
  rw [predecessors, List.mem_filter, mem_nodeList, mem_arrows, and_iff_right_iff_imp]
  intro h
  obtain ⟨e, he⟩ := Option.isSome_iff_exists.mp h
  exact (d.ends_mem he).1

theorem mem_edges (s t : Nat) (e : ε) : ((s, t), e) ∈ d.edges ↔ d.data s t = some e := by
  constructor
  · intro h
    obtain ⟨s', -, h⟩ := List.mem_flatMap.mp h
    obtain ⟨t', -, h⟩ := List.mem_filterMap.mp h
    obtain ⟨e', he, heq⟩ := Option.map_eq_some_iff.mp h
    cases heq
    exact he
  · intro h
    have hmem := d.ends_mem h
    refine List.mem_flatMap.mpr ⟨s, (d.mem_nodeList s).mpr hmem.1, ?_⟩
    exact List.mem_filterMap.mpr ⟨t, (d.mem_nodeList t).mpr hmem.2, by rw [h, Option.map_some]⟩

theorem edges_sorted : d.edges.Pairwise Precedes := by
  rw [edges, List.pairwise_flatMap]
  constructor
  · intro s _
    refine d.nodeList_sorted.filterMap _ ?_
    intro t t' h e he e' he'
    obtain ⟨_, -, rfl⟩ := Option.map_eq_some_iff.mp he
    obtain ⟨_, -, rfl⟩ := Option.map_eq_some_iff.mp he'
    exact Prod.Lex.right _ h
  · refine d.nodeList_sorted.imp ?_
    intro s s' h e he e' he'
    obtain ⟨_, -, he⟩ := List.mem_filterMap.mp he
    obtain ⟨_, -, rfl⟩ := Option.map_eq_some_iff.mp he
    obtain ⟨_, -, he'⟩ := List.mem_filterMap.mp he'
    obtain ⟨_, -, rfl⟩ := Option.map_eq_some_iff.mp he'
    exact Prod.Lex.left _ _ h

def addNode (n : Nat) : Diagram ε where
  nodes := insert n d.nodes
  data := d.data
  ends_mem h := (d.ends_mem h).imp Finset.mem_insert_of_mem Finset.mem_insert_of_mem

def putEdge (s t : Nat) (data : Option ε → ε) : Diagram ε where
  nodes := insert s (insert t d.nodes)
  data a b := if s = a ∧ t = b then some (data (d.data a b)) else d.data a b
  ends_mem {a b e} h := by
    split at h
    next hab => simp [hab]
    next => simp [d.ends_mem h]

def updateEdge (s t : Nat) (change : ε → ε) : Diagram ε where
  nodes := d.nodes
  data a b := if s = a ∧ t = b then (d.data a b).map change else d.data a b
  ends_mem h := by
    split at h
    · obtain ⟨e, he, -⟩ := Option.map_eq_some_iff.mp h
      exact d.ends_mem he
    · exact d.ends_mem h

def removeEdge (s t : Nat) : Diagram ε where
  nodes := d.nodes
  data a b := if s = a ∧ t = b then none else d.data a b
  ends_mem h := by
    split at h
    · cases h
    · exact d.ends_mem h

def removeNode (n : Nat) : Diagram ε where
  nodes := d.nodes.erase n
  data a b := if n = a ∨ n = b then none else d.data a b
  ends_mem h := by
    split at h
    next => cases h
    next hn =>
      rw [not_or] at hn
      exact (d.ends_mem h).imp (Finset.mem_erase_of_ne_of_mem (Ne.symm hn.1))
        (Finset.mem_erase_of_ne_of_mem (Ne.symm hn.2))

def filterEdges (keep : Nat → Nat → ε → Option ε) : Diagram ε where
  nodes := d.nodes
  data a b := (d.data a b).bind (keep a b)
  ends_mem h := by
    obtain ⟨e, he, -⟩ := Option.bind_eq_some_iff.mp h
    exact d.ends_mem he

def reversed : Diagram ε where
  nodes := d.nodes
  data a b := d.data b a
  ends_mem h := (d.ends_mem h).symm

theorem arrows_addNode (n : Nat) : (d.addNode n).arrows = d.arrows := by
  ext ⟨a, b⟩
  rw [mem_arrows, mem_arrows]
  rfl

theorem arrows_putEdge (s t : Nat) (data : Option ε → ε) :
    (d.putEdge s t data).arrows = insert (s, t) d.arrows := by
  ext ⟨a, b⟩
  rw [Finset.mem_insert, mem_arrows, mem_arrows, putEdge, Prod.mk.injEq, eq_comm (a := a), eq_comm (a := b)]
  by_cases hab : s = a ∧ t = b <;> simp [hab]

theorem arrows_updateEdge (s t : Nat) (change : ε → ε) : (d.updateEdge s t change).arrows = d.arrows := by
  ext ⟨a, b⟩
  rw [mem_arrows, mem_arrows, updateEdge]
  by_cases hab : s = a ∧ t = b <;> simp [hab]

theorem arrows_removeEdge (s t : Nat) : (d.removeEdge s t).arrows = d.arrows.erase (s, t) := by
  ext ⟨a, b⟩
  rw [Finset.mem_erase, mem_arrows, mem_arrows, removeEdge, ne_eq, Prod.mk.injEq, eq_comm (a := a),
    eq_comm (a := b)]
  by_cases hab : s = a ∧ t = b <;> simp [hab]

theorem arrows_removeNode (n : Nat) :
    (d.removeNode n).arrows = d.arrows.filter fun a => ¬ (n = a.1 ∨ n = a.2) := by
  ext ⟨a, b⟩
  rw [Finset.mem_filter, mem_arrows, mem_arrows, removeNode]
  by_cases hn : n = a ∨ n = b <;> simp [hn]

theorem arrows_filterEdges_subset (keep : Nat → Nat → ε → Option ε) :
    (d.filterEdges keep).arrows ⊆ d.arrows := by
  intro ⟨a, b⟩
  rw [mem_arrows, mem_arrows]
  exact Option.isSome_of_isSome_bind

variable {d} in
/-- A diagram that has lost the arrows of a list has as many fewer as are listed. -/
theorem card_arrows_add_length {d' : Diagram ε} {gone : List (Nat × Nat)} (hsub : d'.arrows ⊆ d.arrows)
    (nodup : gone.Nodup) (hgone : ∀ s t, (s, t) ∈ gone ↔ (s, t) ∈ d.arrows ∧ (s, t) ∉ d'.arrows) :
    d'.arrows.card + gone.length = d.arrows.card := by
  have hset : gone.toFinset = d.arrows \ d'.arrows := by
    ext ⟨s, t⟩
    rw [List.mem_toFinset, Finset.mem_sdiff, hgone]
  rw [← List.toFinset_card_of_nodup nodup, hset, Nat.add_comm, Finset.card_sdiff_add_card_eq_card hsub]

end

end Diagram

end PolicyAnalysis
