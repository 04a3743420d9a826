import PolicyAnalysis.Digraph.Basic

/-!
# Routes

A route through a graph, as the list of its steps. A step is an edge with its data and its two ends.
-/

namespace PolicyAnalysis

structure Step (ε : Type) where
  source : Nat
  target : Nat
  edge : ε
deriving DecidableEq

variable {ε : Type}

def Step.turned (s : Step ε) : Step ε :=
  ⟨s.target, s.source, s.edge⟩

namespace Digraph

def step? (g : Digraph ε) (ends : Nat × Nat) : Option (Step ε) :=
  (g.edge? ends.1 ends.2).map fun e => ⟨ends.1, ends.2, e⟩

/-- The steps from each node of a list to the next. -/
def route (g : Digraph ε) (nodes : List Nat) : List (Step ε) :=
  (nodes.zip nodes.tail).filterMap g.step?

def stepsAt (g : Digraph ε) (n : Nat) (side : Side) : List (Step ε) :=
  (g.adjacent n side).filterMap g.step?

end Digraph

end PolicyAnalysis
