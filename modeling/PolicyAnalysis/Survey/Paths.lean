import PolicyAnalysis.Digraph.ShortestPaths
import PolicyAnalysis.Digraph.SimplePaths
import PolicyAnalysis.Settings.Basic
import PolicyAnalysis.Survey.Basic

/-!
# Questions to a survey

Paths between two types and the steps at a type, in what the filter leaves of the graph. Types are given by
name or alias, and an unknown one is an error before anything is drawn.
-/

namespace PolicyAnalysis

def Policy.lookupTypes (p : Policy) (names : List String) : Except PolicyError (Std.ExtTreeSet TypeId) :=
  return .ofList (← names.mapM p.lookupType)

namespace Survey

variable {σ φ ε : Type} {plan : SurveyPlan σ φ ε}

def size (d : Survey plan) : Except Error (GraphSize × Survey plan) := do
  let (g, d) ← d.whole
  return (g.size, d)

def filteredSize (d : Survey plan) : Except Error (GraphSize × Survey plan) := do
  let (g, d) ← d.filtered
  return (g.size, d)

/-- The routes along the node lists that a search gives for two types. -/
def routes (d : Survey plan) (source target : String)
    (search : Digraph ε → TypeId → TypeId → LazyList (List TypeId)) :
    Except Error (LazyList (List (Step ε)) × Survey plan) := do
  let s ← d.policy.lookupType source
  let t ← d.policy.lookupType target
  let (g, d) ← d.filtered
  return ((search g s t).map fun nodes => (g.route nodes).map (plan.orient d.filter), d)

/-- All paths that pass no type twice, with no more steps than a limit says. -/
def simplePaths (d : Survey plan) (source target : String) (limit : Option Nat) :
    Except Error (LazyList (List (Step ε)) × Survey plan) := do
  if limit = some 0 then throw (AnalysisError.maxLengthTooSmall 0 : Error)
  d.routes source target fun g s t => g.simplePaths s t limit

def simplePathsWith (d : Survey plan) (source target : String) (settings : PathSettings) :
    Except Error (LazyList (List (Step ε)) × Survey plan) := do
  d.simplePaths source target (← settings.limit)

def shortestPaths (d : Survey plan) (source target : String) :
    Except Error (LazyList (List (Step ε)) × Survey plan) :=
  d.routes source target Digraph.shortestPaths

def stepsAt (d : Survey plan) (type : String) (side : Side) :
    Except Error (List (Step ε) × Survey plan) := do
  let n ← d.policy.lookupType type
  let (g, d) ← d.filtered
  return ((g.stepsAt n side).map (plan.orient d.filter), d)

end Survey

end PolicyAnalysis
