import PolicyAnalysis.Name

/-!
# Directed graphs

A graph has numbered nodes and at most one edge, with data, from a node to a node. Every edge is kept with its
source, every source with its target, and the number of edges beside them; listings are in the order of
the numbers.
-/

namespace PolicyAnalysis

structure Digraph (ε : Type) where
  /-- The edges of each node by their targets. -/
  out : Std.ExtTreeMap Nat (Std.ExtTreeMap Nat ε)
  /-- The sources of the edges to each node. -/
  into : Std.ExtTreeMap Nat (Std.ExtTreeSet Nat)
  edgeCount : Nat
deriving DecidableEq

structure GraphSize where
  nodes : Nat
  edges : Nat
deriving DecidableEq

inductive Side where
  | into
  | out
deriving DecidableEq

namespace Digraph

variable {ε : Type}

def empty : Digraph ε :=
  ⟨∅, ∅, 0⟩

def hasNode (g : Digraph ε) (n : Nat) : Bool :=
  g.out.contains n

def nodes (g : Digraph ε) : List Nat :=
  g.out.keys

def nodeCount (g : Digraph ε) : Nat :=
  g.out.size

def size (g : Digraph ε) : GraphSize :=
  ⟨g.nodeCount, g.edgeCount⟩

def edge? (g : Digraph ε) (s t : Nat) : Option ε :=
  (g.out[s]?).bind (·[t]?)

def hasEdge (g : Digraph ε) (s t : Nat) : Bool :=
  (g.edge? s t).isSome

/-- The edges, each with its source and target. -/
def edges (g : Digraph ε) : List ((Nat × Nat) × ε) :=
  g.out.toList.flatMap fun row => row.2.toList.map fun e => ((row.1, e.1), e.2)

def successors (g : Digraph ε) (n : Nat) : List Nat :=
  ((g.out[n]?).getD ∅).keys

def predecessors (g : Digraph ε) (n : Nat) : List Nat :=
  ((g.into[n]?).getD ∅).toList

def adjacent (g : Digraph ε) (n : Nat) : Side → List (Nat × Nat)
  | .out => (g.successors n).map fun t => (n, t)
  | .into => (g.predecessors n).map fun s => (s, n)

section Looking

variable (g : Digraph ε)

theorem mem_nodes (n : Nat) : n ∈ g.nodes ↔ g.hasNode n := by
  rw [nodes, hasNode, Std.ExtTreeMap.mem_keys, Std.ExtTreeMap.mem_iff_contains]

theorem length_nodes : g.nodes.length = g.nodeCount :=
  Std.ExtTreeMap.length_keys

theorem hasNode_iff (n : Nat) : g.hasNode n ↔ ∃ row, g.out[n]? = some row := by
  rw [hasNode, Std.ExtTreeMap.contains_eq_isSome_getElem?, Option.isSome_iff_exists]

theorem hasEdge_iff (s t : Nat) : g.hasEdge s t ↔ ∃ e, g.edge? s t = some e := by
  rw [hasEdge, Option.isSome_iff_exists]

theorem hasNode_of_hasEdge {s t : Nat} (h : g.hasEdge s t) : g.hasNode s := by
  obtain ⟨e, he⟩ := (g.hasEdge_iff s t).mp h
  obtain ⟨row, hrow, -⟩ := Option.bind_eq_some_iff.mp he
  exact (g.hasNode_iff s).mpr ⟨row, hrow⟩

theorem mem_successors (s t : Nat) : t ∈ g.successors s ↔ g.hasEdge s t := by
  rw [successors, Std.ExtTreeMap.mem_keys, hasEdge, edge?]
  cases g.out[s]? with
  | none => simp
  | some row => rw [Option.getD_some, Option.bind_some, Std.ExtTreeMap.mem_iff_isSome_getElem?]

theorem mem_edges {s t : Nat} {e : ε} : ((s, t), e) ∈ g.edges ↔ g.edge? s t = some e := by
  rw [edges, List.mem_flatMap, edge?, Option.bind_eq_some_iff]
  constructor
  · intro ⟨⟨s', row⟩, hrow, he⟩
    obtain ⟨⟨t', e'⟩, hmem, heq⟩ := List.mem_map.mp he
    cases heq
    exact ⟨row, Std.ExtTreeMap.mem_toList_iff_getElem?_eq_some.mp hrow,
      Std.ExtTreeMap.mem_toList_iff_getElem?_eq_some.mp hmem⟩
  · intro ⟨row, hrow, he⟩
    exact ⟨(s, row), Std.ExtTreeMap.mem_toList_iff_getElem?_eq_some.mpr hrow,
      List.mem_map.mpr ⟨(t, e), Std.ExtTreeMap.mem_toList_iff_getElem?_eq_some.mpr he, rfl⟩⟩

theorem successors_sorted (s : Nat) : (g.successors s).Pairwise (· < ·) :=
  Std.ExtTreeMap.ordered_keys.imp fun h => Nat.compare_eq_lt.mp h

theorem length_successors_le (n : Nat) : (g.successors n).length ≤ g.edges.length := by
  rw [successors]
  cases h : g.out[n]? with
  | none => simp
  | some row =>
    have hmem : (n, row) ∈ g.out.toList := Std.ExtTreeMap.mem_toList_iff_getElem?_eq_some.mpr h
    have hrow := List.sublist_flatten_of_mem (List.mem_map_of_mem
      (f := fun row : Nat × Std.ExtTreeMap Nat ε => row.2.toList.map fun e => ((row.1, e.1), e.2)) hmem)
    rw [edges, List.flatMap_def]
    simpa using hrow.length_le

theorem mem_predecessors (s t : Nat) :
    s ∈ g.predecessors t ↔ ∃ sources, g.into[t]? = some sources ∧ s ∈ sources := by
  rw [predecessors, Std.ExtTreeSet.mem_toList]
  cases g.into[t]? with
  | none => simp
  | some sources => simp

@[simp] theorem hasNode_empty (n : Nat) : ¬ (empty : Digraph ε).hasNode n := by
  simp [empty, hasNode]

@[simp] theorem edge?_empty (s t : Nat) : (empty : Digraph ε).edge? s t = none := by
  simp [empty, edge?]

end Looking

def addNode (g : Digraph ε) (n : Nat) : Digraph ε :=
  { g with
    out := g.out.insertIfNew n ∅
    into := g.into.insertIfNew n ∅ }

/-- Gives an edge the data that a function makes of what it has, if there is an edge. The nodes are added
where they are missing. -/
def putEdge (g : Digraph ε) (s t : Nat) (data : Option ε → ε) : Digraph ε :=
  let g' := (g.addNode s).addNode t
  { out := g'.out.alter s fun row => some ((row.getD ∅).alter t fun e => some (data e))
    into := g'.into.alter t fun sources => some ((sources.getD ∅).insert s)
    edgeCount := if ((g.into[t]?).getD ∅).contains s then g.edgeCount else g.edgeCount + 1 }

/-- Changes the data of an edge; without the edge, nothing changes. -/
def updateEdge (g : Digraph ε) (s t : Nat) (change : ε → ε) : Digraph ε :=
  { g with out := g.out.modify s fun row => row.modify t change }

def removeEdge (g : Digraph ε) (s t : Nat) : Digraph ε :=
  if g.hasEdge s t then
    { out := g.out.modify s (·.erase t)
      into := g.into.modify t (·.erase s)
      edgeCount := g.edgeCount - 1 }
  else g

/-- The graph without a node and the edges that touch it. -/
def removeNode (g : Digraph ε) (n : Nat) : Digraph ε :=
  let targets := g.successors n
  let sources := (g.predecessors n).filter (· != n)
  { out := sources.foldl (fun out s => out.modify s (·.erase n)) (g.out.erase n)
    into := targets.foldl (fun into t => into.modify t (·.erase n)) (g.into.erase n)
    edgeCount := g.edgeCount - targets.length - (sources.filter (g.hasEdge · n)).length }

/-- The edges for which a function gives no data. -/
def droppedEdges (g : Digraph ε) (keep : Nat → Nat → ε → Option ε) : List (Nat × Nat) :=
  (g.edges.filter fun e => (keep e.1.1 e.1.2 e.2).isNone).map (·.1)

/-- Keeps the edges for which a function gives data, with that data. -/
def filterEdges (g : Digraph ε) (keep : Nat → Nat → ε → Option ε) : Digraph ε :=
  let dropped := g.droppedEdges keep
  { out := g.out.map fun s row => row.filterMap (keep s)
    into := dropped.foldl (fun into e => into.modify e.2 (·.erase e.1)) g.into
    edgeCount := g.edgeCount - dropped.length }

def reversed (g : Digraph ε) : Digraph ε :=
  g.edges.foldl (fun r e => r.putEdge e.1.2 e.1.1 fun _ => e.2) (g.nodes.foldl addNode empty)

end Digraph

end PolicyAnalysis
