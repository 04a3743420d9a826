import PolicyAnalysis.Flow.Filter
import PolicyAnalysis.Survey.Memory

/-!
# Information flow analysis

A survey of a policy with a permission map through the graph of its flows. A change that is refused leaves the
analysis as it was.
-/

namespace PolicyAnalysis

structure FlowSubject where
  policy : Policy
  map : PermissionMap
deriving DecidableEq

def flowPlan : SurveyPlan FlowSubject FlowFilter FlowEdge where
  policy := FlowSubject.policy
  whole s := FlowGraph.ofPolicy s.policy s.map
  filtered s f := f.apply s.policy
  orient _ step := step

abbrev FlowAnalysis := Survey flowPlan

abbrev FlowStep := Step FlowEdge

namespace FlowAnalysis

def ofPolicy (p : Policy) (m : PermissionMap) : FlowAnalysis :=
  .blank flowPlan ⟨p, m⟩ {}

def setMinWeight (a : FlowAnalysis) (weight : Int) : Except Error FlowAnalysis := do
  if ¬ Weight.InRange weight then throw (AnalysisError.minWeightOutOfRange weight : Error)
  return a.withFilter { a.filter with minWeight := weight.toNat }

def setExclude (a : FlowAnalysis) (types : List String) : Except Error FlowAnalysis := do
  let exclude ← a.policy.lookupTypes types
  return a.withFilter { a.filter with exclude }

def setBooleans (a : FlowAnalysis) (booleans : Option (NameTable Bool)) : Except Error FlowAnalysis := do
  (booleans.getD ∅).keys.forM fun name => discard (a.policy.lookupBoolean name)
  return a.withFilter { a.filter with booleans }

def setMap (a : FlowAnalysis) (map : PermissionMap) : FlowAnalysis :=
  a.withSubject { a.subject with map }

def ofSettings (p : Policy) (m : PermissionMap) (s : FlowSettings) : Except Error FlowAnalysis := do
  let a ← (ofPolicy p m).setMinWeight s.minWeight.toInt
  let a ← a.setExclude s.exclude
  a.setBooleans s.booleans

end FlowAnalysis

inductive FlowChange where
  | minWeight (weight : Int)
  | exclude (types : List String)
  | booleans (states : Option (NameTable Bool))
  /-- Any change of the permission map. One that is refused gives back the map as it is. -/
  | map (alter : PermissionMap → PermissionMap)

namespace FlowChange

def apply : FlowChange → FlowAnalysis → Except Error FlowAnalysis
  | .minWeight weight, a => a.setMinWeight weight
  | .exclude types, a => a.setExclude types
  | .booleans states, a => a.setBooleans states
  | .map alter, a => .ok (a.setMap (alter a.subject.map))

open Survey.Working in
/-- The change made in place. The graphs go before the map may be touched, but after anything else. -/
def steps : FlowChange → Survey.Working FlowSubject FlowFilter FlowEdge Unit
  | .minWeight weight => do
    if ¬ Weight.InRange weight then throw (AnalysisError.minWeightOutOfRange weight : Error)
    modifyFilter fun f => { f with minWeight := weight.toNat }
    dropFiltered
  | .exclude types => do
    let m ← get
    let exclude ← m.subject.policy.lookupTypes types
    modifyFilter fun f => { f with exclude }
    dropFiltered
  | .booleans states => do
    let m ← get
    (states.getD ∅).keys.forM fun name => discard (m.subject.policy.lookupBoolean name)
    modifyFilter fun f => { f with booleans := states }
    dropFiltered
  | .map alter => do
    dropGraphs
    modify fun m => { m with subject := { m.subject with map := alter m.subject.map } }

end FlowChange

def FlowStep.rules (p : Policy) (s : FlowStep) : List AccessRule :=
  s.edge.rules.toList.filterMap (p.accessRules[·]?)

/-- The names of the types that a path passes. -/
def Policy.namesAlong {ε : Type} (p : Policy) (path : List (Step ε)) : List String :=
  path.map (fun s => p.typeName s.source) ++ (path.getLast?.map fun s => p.typeName s.target).toList

end PolicyAnalysis
