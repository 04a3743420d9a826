import PolicyAnalysis.Proofs.Digraph.Reachable
import Mathlib.Data.List.Chain
import Mathlib.Data.List.Nodup
import Mathlib.Data.List.Perm.Subperm

/-!
# Walks

A walk goes from node to node along edges, and a path is a walk with at least one edge that meets no node
twice. In a reachable graph a path has no more nodes than the graph.
-/

namespace PolicyAnalysis.Digraph

variable {ε : Type} {g : Digraph ε} {s t : Nat} {path : List Nat}

structure Walk (g : Digraph ε) (s t : Nat) (path : List Nat) : Prop where
  head : path.head? = some s
  last : path.getLast? = some t
  edges : path.IsChain fun a b => g.hasEdge a b

structure SimplePath (g : Digraph ε) (s t : Nat) (path : List Nat) : Prop extends Walk g s t path where
  nodup : path.Nodup
  two_le_length : 2 ≤ path.length

namespace Walk

theorem singleton (g : Digraph ε) (s : Nat) : Walk g s s [s] :=
  ⟨rfl, rfl, .singleton s⟩

theorem ne_nil (h : g.Walk s t path) : path ≠ [] := by
  rintro rfl
  cases h.head

theorem concat_iff {u : Nat} {front : List Nat} :
    g.Walk s t (front ++ [u, t]) ↔ g.Walk s u (front ++ [u]) ∧ g.hasEdge u t := by
  have hhead : (front ++ [u, t]).head? = (front ++ [u]).head? := by cases front <;> rfl
  have hchain : (front ++ [u, t]).IsChain (fun a b => g.hasEdge a b) ↔
      (front ++ [u]).IsChain (fun a b => g.hasEdge a b) ∧ g.hasEdge u t := by
    rw [List.isChain_split, List.isChain_pair]
  constructor
  · rintro ⟨head, last, edges⟩
    exact ⟨⟨hhead ▸ head, List.getLast?_concat, (hchain.mp edges).1⟩, (hchain.mp edges).2⟩
  · rintro ⟨⟨head, last, edges⟩, edge⟩
    exact ⟨hhead.trans head, by simp, hchain.mpr ⟨edges, edge⟩⟩

theorem hasNode_of_mem (reachable : g.Reachable) (hs : g.hasNode s) (h : g.Walk s t path) {n : Nat}
    (hn : n ∈ path) : g.hasNode n := by
  obtain ⟨head, -, edges⟩ := h
  induction path generalizing s with
  | nil => cases hn
  | cons a path ih =>
    cases head
    rcases List.mem_cons.mp hn with rfl | hn
    · exact hs
    cases path with
    | nil => cases hn
    | cons b path =>
      rw [List.isChain_cons_cons] at edges
      exact ih (reachable.hasNode_target edges.1) hn rfl edges.2

end Walk

namespace SimplePath

theorem cons_cons (h : g.SimplePath s t path) : ∃ next rest, path = s :: next :: rest := by
  obtain ⟨⟨head, -, -⟩, -, length⟩ := h
  match path, head, length with
  | a :: next :: rest, head, _ =>
    cases head
    exact ⟨next, rest, rfl⟩

theorem hasNode_source (h : g.SimplePath s t path) : g.hasNode s := by
  obtain ⟨next, rest, rfl⟩ := h.cons_cons
  exact g.hasNode_of_hasEdge (List.isChain_cons_cons.mp h.edges).1

theorem hasNode_target (reachable : g.Reachable) (h : g.SimplePath s t path) : g.hasNode t :=
  h.toWalk.hasNode_of_mem reachable h.hasNode_source (List.mem_of_getLast? h.last)

theorem source_ne_target (h : g.SimplePath s t path) : s ≠ t := by
  obtain ⟨next, rest, rfl⟩ := h.cons_cons
  have hlast : t ∈ next :: rest := List.mem_of_getLast? ((List.getLast?_cons_cons).symm.trans h.last)
  rintro rfl
  exact (List.nodup_cons.mp h.nodup).1 hlast

theorem length_le_nodeCount (reachable : g.Reachable) (h : g.SimplePath s t path) :
    path.length ≤ g.nodeCount := by
  rw [← length_nodes]
  refine (h.nodup.subperm fun n hn => ?_).length_le
  exact (g.mem_nodes n).mpr (h.toWalk.hasNode_of_mem reachable h.hasNode_source hn)

end SimplePath

end PolicyAnalysis.Digraph
