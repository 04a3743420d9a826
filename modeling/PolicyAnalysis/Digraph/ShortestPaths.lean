import PolicyAnalysis.Digraph.Discovery
import PolicyAnalysis.Enumeration

/-!
# Shortest paths

All paths from a node to another with the fewest edges. When the rounds have met the target, the paths are followed
back from it over the nodes from which each node was met, one path after the other as they are asked for. Each step
back leads one edge nearer to the source, so following comes to an end.
-/

namespace PolicyAnalysis

/-- A way back that has been stopped. -/
structure ShortestSearch where
  source : Nat
  depth : Std.ExtTreeMap Nat Nat
  predecessors : Std.ExtTreeMap Nat (List Nat)
  /-- The nodes from where the way back stands on to the target. Each has the number of those of its predecessors
  that have been tried. -/
  stack : List (Nat × Nat)
  /-- The way back does not go round in circles. -/
  descends : ∀ node, ∀ previous ∈ predecessors.getD node [], depth.getD previous 0 + 1 = depth.getD node 0

namespace Digraph

variable {ε : Type} (g : Digraph ε)

def shortestSearch (source target : Nat) : ShortestSearch :=
  if source ≠ target ∧ g.hasNode source ∧ g.hasNode target then
    let reached := g.discover target (.start source)
    { source
      depth := reached.depth
      predecessors := reached.predecessors
      stack := if reached.found then [(target, 0)] else []
      descends := (g.ranked_discover target (Discovery.ranked_start source)).descends }
  else
    { source, depth := ∅, predecessors := ∅, stack := [], descends := by simp }

end Digraph

namespace ShortestSearch

/-- Counts that the last way over a node has been followed. -/
def advance : List (Nat × Nat) → List (Nat × Nat)
  | [] => []
  | (node, tried) :: onward => (node, tried + 1) :: onward

/-- Goes back to the next predecessor of the node where the way back stands, or gives that node up. -/
def step (s : ShortestSearch) : Option (Option (List Nat) × ShortestSearch) :=
  match s.stack with
  | [] => none
  | (node, tried) :: onward =>
    let found := if node = s.source then some (s.stack.map Prod.fst) else none
    match (s.predecessors.getD node [])[tried]? with
    | some previous => some (found, { s with stack := (previous, 0) :: s.stack })
    | none => some (found, { s with stack := advance onward })

def width (s : ShortestSearch) : Nat :=
  (s.predecessors.toList.flatMap Prod.snd).length

/-- More than there is to do at a node of some depth. -/
def workBehind (width : Nat) : Nat → Nat
  | 0 => 1
  | depth + 1 => 2 + width * workBehind width depth

def workAt (s : ShortestSearch) (node tried : Nat) : Nat :=
  1 + ((s.predecessors.getD node []).length - tried) * workBehind s.width (s.depth.getD node 0)

def workOnward (s : ShortestSearch) (onward : List (Nat × Nat)) : Nat :=
  onward.foldr (fun frame work => s.workAt frame.1 (frame.2 + 1) + work) 0

def work (s : ShortestSearch) : Nat :=
  match s.stack with
  | [] => 0
  | (node, tried) :: onward => s.workAt node tried + s.workOnward onward

theorem length_predecessors_le (s : ShortestSearch) (node : Nat) :
    (s.predecessors.getD node []).length ≤ s.width := by
  rw [Std.ExtTreeMap.getD_eq_getD_getElem?]
  cases h : s.predecessors[node]? with
  | none => simp
  | some l =>
    have hmem : (node, l) ∈ s.predecessors.toList := Std.ExtTreeMap.mem_toList_iff_getElem?_eq_some.mpr h
    have hsub := List.sublist_flatten_of_mem (List.mem_map_of_mem hmem (f := Prod.snd))
    rw [width, List.flatMap_def]
    exact hsub.length_le

theorem work_advance (s : ShortestSearch) (onward : List (Nat × Nat)) :
    work { s with stack := advance onward } = s.workOnward onward := by
  cases onward <;> rfl

theorem workAt_back_lt (s : ShortestSearch) {node tried previous : Nat}
    (h : (s.predecessors.getD node [])[tried]? = some previous) :
    s.workAt previous 0 + s.workAt node (tried + 1) < s.workAt node tried := by
  obtain ⟨hlt, hprevious⟩ := List.getElem?_eq_some_iff.mp h
  have hdepth := s.descends node previous (hprevious ▸ List.getElem_mem hlt)
  have hle : (s.predecessors.getD previous []).length * workBehind s.width (s.depth.getD previous 0) ≤
      s.width * workBehind s.width (s.depth.getD previous 0) :=
    Nat.mul_le_mul_right _ (s.length_predecessors_le previous)
  obtain ⟨left, hleft⟩ : ∃ left, (s.predecessors.getD node []).length - tried = left + 1 :=
    ⟨(s.predecessors.getD node []).length - tried - 1, by omega⟩
  have hleft' : (s.predecessors.getD node []).length - (tried + 1) = left := by omega
  rw [workAt, workAt, workAt, hleft, hleft', ← hdepth, Nat.add_one_mul, Nat.sub_zero, workBehind]
  omega

theorem step_work_lt {s s' : ShortestSearch} {out : Option (List Nat)} (h : s.step = some (out, s')) :
    s'.work < s.work := by
  rw [step] at h
  split at h
  next => cases h
  next node tried onward hstack =>
    simp only at h
    split at h
    next previous hprevious =>
      cases h
      have hlt := s.workAt_back_lt hprevious
      rw [work, work, hstack]
      simp only [workOnward, List.foldr_cons]
      change s.workAt previous 0 + (s.workAt node (tried + 1) + s.workOnward onward) <
        s.workAt node tried + s.workOnward onward
      omega
    next =>
      cases h
      rw [work_advance, work, hstack]
      simp only [workAt]
      omega

def ways : Enumeration ShortestSearch (List Nat) :=
  ⟨step, work, step_work_lt⟩

end ShortestSearch

def Digraph.shortestPaths {ε : Type} (g : Digraph ε) (source target : Nat) : LazyList (List Nat) :=
  ShortestSearch.ways.items (g.shortestSearch source target)

end PolicyAnalysis
