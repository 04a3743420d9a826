import PolicyAnalysis.Survey.Memory
import PolicyAnalysis.Transition.Filter

/-!
# Domain transition analysis

A survey of a policy through the graph of its domain transitions. Where transitions are followed back, each
step still names the domain that is left as its source.
-/

namespace PolicyAnalysis

def transitionPlan : SurveyPlan Policy TransitionFilter TransitionEdge where
  policy p := p
  whole := TransitionGraph.ofPolicy
  filtered _ f g := .ok (f.apply g)
  orient f step := if f.reverse then step.turned else step

abbrev TransitionAnalysis := Survey transitionPlan

abbrev TransitionStep := Step TransitionEdge

namespace TransitionAnalysis

/-- An analysis that leaves nothing out and follows transitions onwards. -/
def ofPolicy (p : Policy) : TransitionAnalysis :=
  .blank transitionPlan p {}

def setReverse (a : TransitionAnalysis) (reverse : Bool) : TransitionAnalysis :=
  if a.filter.reverse = reverse then a else a.withFilter { a.filter with reverse }

def setExclude (a : TransitionAnalysis) (types : List String) : Except Error TransitionAnalysis := do
  let exclude ← a.policy.lookupTypes types
  return a.withFilter { a.filter with exclude }

def ofSettings (p : Policy) (s : TransitionSettings) : Except Error TransitionAnalysis :=
  ((ofPolicy p).setReverse s.reverse).setExclude s.exclude

/-- The transitions out of a domain, or into it where they are followed back. -/
def transitions (a : TransitionAnalysis) (type : String) :
    Except Error (List TransitionStep × TransitionAnalysis) :=
  a.stepsAt type .out

end TransitionAnalysis

inductive TransitionChange where
  | reverse (back : Bool)
  | exclude (types : List String)

namespace TransitionChange

def apply : TransitionChange → TransitionAnalysis → Except Error TransitionAnalysis
  | .reverse back, a => .ok (a.setReverse back)
  | .exclude types, a => a.setExclude types

open Survey.Working in
def steps : TransitionChange → Survey.Working Policy TransitionFilter TransitionEdge Unit
  | .reverse back => do
    let m ← get
    if m.filter.reverse ≠ back then
      modifyFilter fun f => { f with reverse := back }
      dropFiltered
  | .exclude types => do
    let m ← get
    let exclude ← m.subject.lookupTypes types
    modifyFilter fun f => { f with exclude }
    dropFiltered

end TransitionChange

end PolicyAnalysis
