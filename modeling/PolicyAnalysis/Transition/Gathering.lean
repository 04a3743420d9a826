import PolicyAnalysis.Transition.Filter

/-!
# Gathering the rules of transitions

The rules behind an edge can be kept in five lists, without telling the ways apart, and gathered step by step:
first those that allow a transition of either kind, then for either way those that it needs besides. What has
been gathered for a way that turns out not to be complete is thrown away, and with both ways gone the edge is.
A filter need not know the ways then, it looks at two of the lists.
-/

namespace PolicyAnalysis

@[ext]
structure EdgeRules where
  transition : List RuleId := []
  setexec : List RuleId := []
  dyntransition : List RuleId := []
  setcurrent : List RuleId := []
  /-- By the types of the files. -/
  entrypoints : Std.ExtTreeMap TypeId Entrypoint := ∅
deriving DecidableEq

def TransitionEdge.rules (e : TransitionEdge) : EdgeRules where
  transition := e.standard.elim [] (·.transition)
  setexec := e.standard.elim [] (·.setexec)
  dyntransition := e.dynamic.elim [] (·.dyntransition)
  setcurrent := e.dynamic.elim [] (·.setcurrent)
  entrypoints := e.standard.elim ∅ (·.entrypoints)

namespace EdgeRules

def isStandard (e : EdgeRules) : Bool :=
  !e.transition.isEmpty && !e.entrypoints.isEmpty

def isDynamic (e : EdgeRules) : Bool :=
  !e.dyntransition.isEmpty && !e.setcurrent.isEmpty

def hasTypeTransition (e : EdgeRules) : Bool :=
  e.entrypoints.values.any fun r => !r.typeTransition.isEmpty

def clearStandard (e : EdgeRules) : EdgeRules :=
  { e with transition := [], setexec := [], entrypoints := ∅ }

def clearDynamic (e : EdgeRules) : EdgeRules :=
  { e with dyntransition := [], setcurrent := [] }

/-- Without some types of files; a standard way that loses the last of them is thrown away. An edge is kept for
its types of files or for its dynamic transitions. -/
def prune (files : Std.ExtTreeSet TypeId) (e : EdgeRules) : Option EdgeRules :=
  let entrypoints := e.entrypoints.filter fun file _ => !files.contains file
  let pruned := { e with entrypoints }
  let left := if entrypoints.size ≠ e.entrypoints.size && entrypoints.isEmpty then pruned.clearStandard else pruned
  if !left.entrypoints.isEmpty || !left.dyntransition.isEmpty then some left else none

end EdgeRules

namespace Grants

/-- Adds the rules for files of a type, and those that make the new domain the default for it. -/
def addFile (g : Grants) (s t : TypeId) (entrypoints : Std.ExtTreeMap TypeId Entrypoint) (file : TypeId) :
    Std.ExtTreeMap TypeId Entrypoint :=
  let defaults := g.typeTransition.getD (s, file) []
  let leading := (defaults.filter fun d => d.1 = t).map (·.2)
  let entered :=
    if g.setexec.contains s || !defaults.isEmpty then
      entrypoints.alter file fun r =>
        let r := r.getD ⟨[], [], []⟩
        some { r with
          entrypoint := r.entrypoint ++ g.entrypoint.getD (t, file) []
          execute := r.execute ++ g.execute.getD (s, file) [] }
    else entrypoints
  if leading.isEmpty then entered
  else entered.alter file fun r =>
    let r := r.getD ⟨[], [], []⟩
    some { r with typeTransition := r.typeTransition ++ leading }

/-- Adds what a standard transition needs, and tells whether it is complete. -/
def gatherStandard (g : Grants) (s t : TypeId) (e : EdgeRules) : EdgeRules × Bool :=
  if e.transition.isEmpty then (e, false)
  else
    let files := g.sharedFiles s t
    if files.isEmpty then (e, false)
    else
      let e := { e with
        entrypoints := files.foldl (g.addFile s t) e.entrypoints
        setexec := e.setexec ++ g.setexec.getD s [] }
      (e, !e.setexec.isEmpty || e.hasTypeTransition)

/-- Adds what a dynamic transition needs, and tells whether it is complete. -/
def gatherDynamic (g : Grants) (s : TypeId) (e : EdgeRules) : EdgeRules × Bool :=
  if e.dyntransition.isEmpty then (e, false)
  else
    match g.setcurrent[s]? with
    | some rules => ({ e with setcurrent := e.setcurrent ++ rules }, true)
    | none => (e, false)

def gather (g : Grants) (s t : TypeId) (e : EdgeRules) : Option EdgeRules :=
  let (e, standard) := g.gatherStandard s t e
  let (e, dynamic) := g.gatherDynamic s e
  match standard, dynamic with
  | false, false => none
  | false, true => some e.clearStandard
  | true, false => some e.clearDynamic
  | true, true => some e

/-- What is known of an edge before it is looked at: the rules that allow a transition of either kind. -/
def allowed (g : Grants) (pair : TypeId × TypeId) : EdgeRules where
  transition := g.transition.getD pair []
  dyntransition := g.dyntransition.getD pair []

def scanned (g : Grants) : Digraph EdgeRules :=
  g.candidates.foldl (fun graph pair => graph.putEdge pair.1 pair.2 fun _ => g.allowed pair) .empty

def gathered (g : Grants) : Digraph EdgeRules :=
  g.scanned.filterEdges g.gather

end Grants

def EdgeRules.ofPolicy (p : Policy) : Except Error (Digraph EdgeRules) := do
  return (← Grants.ofPolicy p).gathered

/-- A graph that excludes nothing has no edge to look at again. -/
def TransitionFilter.prune (f : TransitionFilter) (g : Digraph EdgeRules) : Digraph EdgeRules :=
  let g := if f.reverse then g.reversed else g
  let g := f.exclude.foldl Digraph.removeNode g
  if f.exclude.isEmpty then g else g.filterEdges fun _ _ e => e.prune f.exclude

end PolicyAnalysis
