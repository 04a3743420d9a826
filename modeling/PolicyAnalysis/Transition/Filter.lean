import PolicyAnalysis.Transition.Graph

/-!
# Filters on transitions

A filter leaves out some types, be they domains or types of the files through which a domain is entered, and
may turn the graph round.
-/

namespace PolicyAnalysis

structure TransitionFilter where
  exclude : Std.ExtTreeSet TypeId := ∅
  /-- Whether transitions are followed back. -/
  reverse : Bool := false
deriving DecidableEq

/-- The transition without some types of files, if a type of file remains. -/
def StandardTransition.without? (x : StandardTransition) (files : Std.ExtTreeSet TypeId) :
    Option StandardTransition :=
  let entrypoints := x.entrypoints.filter fun file _ => !files.contains file
  if entrypoints.isEmpty then none else some { x with entrypoints }

namespace TransitionFilter

def keep (f : TransitionFilter) (e : TransitionEdge) : Option TransitionEdge :=
  match e.standard.bind (·.without? f.exclude), e.dynamic with
  | none, none => none
  | standard, dynamic => some { standard, dynamic }

def apply (f : TransitionFilter) (g : TransitionGraph) : TransitionGraph :=
  let g := if f.reverse then g.reversed else g
  let g := f.exclude.foldl Digraph.removeNode g
  g.filterEdges fun _ _ e => f.keep e

end TransitionFilter

end PolicyAnalysis
