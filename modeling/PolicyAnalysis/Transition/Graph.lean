import PolicyAnalysis.Digraph.Basic
import PolicyAnalysis.Error
import PolicyAnalysis.Transition.Grants

/-!
# The graph of domain transitions

A process in one domain may get into another in two ways. A standard transition happens when it runs a file:
the process must be allowed the transition and to run files of some type, the other domain to be entered
through them, and either the process may choose its next domain or that domain is its default for the type
of the file. For a dynamic transition the process must be allowed it and to choose its domain at once. An
edge holds the rules behind either way; a way that is not complete has none.
-/

namespace PolicyAnalysis

/-- What lets a transition go through files of one type. -/
structure Entrypoint where
  entrypoint : List RuleId
  execute : List RuleId
  /-- The rules that make the new domain the default. -/
  typeTransition : List RuleId
deriving DecidableEq

structure StandardTransition where
  transition : List RuleId
  setexec : List RuleId
  /-- By the types of the files. -/
  entrypoints : Std.ExtTreeMap TypeId Entrypoint
deriving DecidableEq

structure DynamicTransition where
  dyntransition : List RuleId
  setcurrent : List RuleId
deriving DecidableEq

structure TransitionEdge where
  standard : Option StandardTransition
  dynamic : Option DynamicTransition
deriving DecidableEq

abbrev TransitionGraph := Digraph TransitionEdge

namespace Grants

/-- The types of the files through which a process might get from a domain into another. -/
def sharedFiles (g : Grants) (s t : TypeId) : List TypeId :=
  let files := g.entrypoint.keys.filterMap fun pair => if pair.1 = t then some pair.2 else none
  files.filter fun file => g.execute.contains (s, file)

/-- Files of a type count where the process may choose its domain or has any default. -/
def entrypoint? (g : Grants) (s t file : TypeId) : Option Entrypoint :=
  let defaults := g.typeTransition.getD (s, file) []
  if g.setexec.contains s || !defaults.isEmpty then
    some {
      entrypoint := g.entrypoint.getD (t, file) []
      execute := g.execute.getD (s, file) []
      typeTransition := (defaults.filter fun d => d.1 = t).map (·.2) }
  else none

/-- A standard transition is complete if the process may choose its domain or one type of file has the new
domain for its default. -/
def standard? (g : Grants) (s t : TypeId) : Option StandardTransition :=
  let transition := g.transition.getD (s, t) []
  let setexec := g.setexec.getD s []
  let entries := (g.sharedFiles s t).filterMap fun file => (g.entrypoint? s t file).map fun e => (file, e)
  let decided := !setexec.isEmpty || entries.any fun e => !e.2.typeTransition.isEmpty
  if !transition.isEmpty && !entries.isEmpty && decided then
    some { transition, setexec, entrypoints := .ofList entries }
  else none

def dynamic? (g : Grants) (s t : TypeId) : Option DynamicTransition :=
  let dyntransition := g.dyntransition.getD (s, t) []
  let setcurrent := g.setcurrent.getD s []
  if !dyntransition.isEmpty && !setcurrent.isEmpty then some { dyntransition, setcurrent } else none

def edge? (g : Grants) (s t : TypeId) : Option TransitionEdge :=
  match g.standard? s t, g.dynamic? s t with
  | none, none => none
  | standard, dynamic => some { standard, dynamic }

def candidates (g : Grants) : List (TypeId × TypeId) :=
  (g.transition.keys ++ g.dyntransition.keys).filter fun pair => pair.1 ≠ pair.2

end Grants

namespace TransitionGraph

/-- Adds the two domains of a pair, and the edge between them if a way is complete. -/
def addPair (grants : Grants) (g : TransitionGraph) (pair : TypeId × TypeId) : TransitionGraph :=
  match grants.edge? pair.1 pair.2 with
  | some e => g.putEdge pair.1 pair.2 fun _ => e
  | none => (g.addNode pair.1).addNode pair.2

def ofGrants (grants : Grants) : TransitionGraph :=
  grants.candidates.foldl (addPair grants) .empty

def ofPolicy (p : Policy) : Except Error TransitionGraph := do
  return ofGrants (← Grants.ofPolicy p)

end TransitionGraph

end PolicyAnalysis
