import PolicyAnalysis.Digraph.Basic
import PolicyAnalysis.Enumeration

/-!
# Simple paths

All paths from a node to another that pass no node twice, as lists of nodes. Of two paths that part at a node
the one with the lower next node comes first. The search goes deeper from node to node and backs out of those that
have been tried, and it stops at each path, to be taken up again when another one is asked for.
-/

namespace PolicyAnalysis

/-- A search that has been stopped. -/
structure SimpleSearch where
  target : Nat
  /-- The most edges that a path may have. -/
  cutoff : Nat
  /-- The nodes from where the search stands back to the source. -/
  trail : List Nat
  onTrail : Std.ExtTreeSet Nat
  /-- For each node of the trail, the successors that have not been tried. -/
  pending : List (List Nat)

namespace SimpleSearch

def enter (s : SimpleSearch) (node : Nat) (children : List Nat) : SimpleSearch :=
  { s with trail := node :: s.trail, onTrail := s.onTrail.insert node, pending := children :: s.pending }

def leave (s : SimpleSearch) : SimpleSearch :=
  { s with
    trail := s.trail.tail
    onTrail := s.trail.head?.elim s.onTrail s.onTrail.erase
    pending := s.pending.tail }

end SimpleSearch

namespace Digraph

variable {ε : Type} (g : Digraph ε)

/-- The search before its first step. Without a limit, no path has more edges than there are other nodes. -/
def simpleSearch (source target : Nat) (limit : Option Nat) : SimpleSearch :=
  let search : SimpleSearch := ⟨target, limit.getD (g.nodeCount - 1), [], ∅, []⟩
  if source ≠ target ∧ g.hasNode source ∧ g.hasNode target then search.enter source (g.successors source)
  else search

/-- Tries the next successor of the last node of the trail, or backs out of that node. -/
def simpleStep (s : SimpleSearch) : Option (Option (List Nat) × SimpleSearch) :=
  match s.pending with
  | [] => none
  | [] :: _ => some (none, s.leave)
  | (child :: children) :: earlier =>
    let rest := { s with pending := children :: earlier }
    if s.onTrail.contains child then some (none, rest)
    else if child = s.target then
      -- The trail has one node more than edges, so with the target it has as many edges as nodes now.
      if s.trail.length ≤ s.cutoff then some (some (child :: s.trail).reverse, rest) else some (none, rest)
    else if s.trail.length < s.cutoff then some (none, rest.enter child (g.successors child))
    else some (none, rest)

/-- More than there is to do at a node that may be followed by some more edges. -/
def workBelow : Nat → Nat
  | 0 => 1
  | edges + 1 => 2 + g.edges.length * workBelow edges

def pendingWork (cutoff : Nat) : Nat → List (List Nat) → Nat
  | _, [] => 0
  | length, children :: earlier =>
    1 + children.length * g.workBelow (cutoff - length) + pendingWork cutoff (length - 1) earlier

theorem workBelow_pos (edges : Nat) : 0 < g.workBelow edges := by
  cases edges <;> simp only [workBelow] <;> omega

theorem pendingWork_cons (cutoff length child : Nat) (children : List Nat) (earlier : List (List Nat)) :
    g.pendingWork cutoff length ((child :: children) :: earlier) =
      g.pendingWork cutoff length (children :: earlier) + g.workBelow (cutoff - length) := by
  simp only [pendingWork, List.length_cons, Nat.add_one_mul]
  omega

theorem pendingWork_enter_lt {cutoff length : Nat} (h : length < cutoff) (child : Nat)
    (children : List Nat) (earlier : List (List Nat)) :
    g.pendingWork cutoff (length + 1) (g.successors child :: children :: earlier) <
      g.pendingWork cutoff length ((child :: children) :: earlier) := by
  obtain ⟨edges, hedges⟩ : ∃ edges, cutoff - length = edges + 1 := ⟨cutoff - length - 1, by omega⟩
  have hbelow : cutoff - (length + 1) = edges := by omega
  have hle : (g.successors child).length * g.workBelow edges ≤ g.edges.length * g.workBelow edges :=
    Nat.mul_le_mul_right _ (g.length_successors_le child)
  rw [pendingWork_cons, hedges, workBelow, pendingWork, hbelow, Nat.add_sub_cancel]
  omega

theorem simpleStep_work_lt {s s' : SimpleSearch} {out : Option (List Nat)}
    (h : g.simpleStep s = some (out, s')) :
    g.pendingWork s'.cutoff s'.trail.length s'.pending < g.pendingWork s.cutoff s.trail.length s.pending := by
  obtain ⟨target, cutoff, trail, onTrail, pending⟩ := s
  match pending with
  | [] => cases h
  | [] :: earlier =>
    cases h
    simp only [SimpleSearch.leave, pendingWork, List.length_tail, List.tail_cons]
    omega
  | (child :: children) :: earlier =>
    have hpos := g.workBelow_pos (cutoff - trail.length)
    simp only [simpleStep] at h
    split at h
    · cases h
      simp only [pendingWork_cons]
      omega
    · split at h
      · split at h <;>
        · cases h
          simp only [pendingWork_cons]
          omega
      · split at h
        next hshort =>
          cases h
          exact g.pendingWork_enter_lt hshort child children earlier
        next =>
          cases h
          simp only [pendingWork_cons]
          omega

def simpleEnumeration : Enumeration SimpleSearch (List Nat) where
  step := g.simpleStep
  work s := g.pendingWork s.cutoff s.trail.length s.pending
  work_lt := g.simpleStep_work_lt

def simplePaths (source target : Nat) (limit : Option Nat) : LazyList (List Nat) :=
  g.simpleEnumeration.items (g.simpleSearch source target limit)

end Digraph

end PolicyAnalysis
