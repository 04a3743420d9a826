import PolicyAnalysis.Survey.Paths

/-!
# Surveys in memory

A survey that is worked on in place. An operation goes through a few steps that read and write one part of the
memory at a time, and when one of them fails, what the steps before it have written stays. Nothing in the data
says that the graphs in memory agree with the subject and the filter.
-/

namespace PolicyAnalysis.Survey

structure Memory (σ φ ε : Type) where
  subject : σ
  filter : φ
  whole? : Option (Digraph ε)
  filtered? : Option (Digraph ε)

inductive Question where
  | size
  | filteredSize
  | filtered
  | simplePaths (source target : String) (limit : Option Nat)
  | simplePathsWith (source target : String) (settings : PathSettings)
  | shortestPaths (source target : String)
  | stepsAt (type : String) (side : Side)

inductive Answer (ε : Type) where
  /-- Nothing was asked for. -/
  | done
  | size (size : GraphSize)
  | graph (graph : Digraph ε)
  | paths (paths : LazyList (List (Step ε)))
  | steps (steps : List (Step ε))

inductive Operation (χ : Type) where
  | change (change : χ)
  | forget
  | ask (question : Question)

variable {σ φ ε χ : Type}

abbrev Working (σ φ ε : Type) := EStateM Error (Memory σ φ ε)

namespace Working

instance : MonadLift (Except Error) (Working σ φ ε) where
  monadLift
    | .ok a => pure a
    | .error e => throw e

def dropFiltered : Working σ φ ε Unit :=
  modify fun m => { m with filtered? := none }

def dropGraphs : Working σ φ ε Unit := do
  modify fun m => { m with whole? := none }
  dropFiltered

def modifyFilter (change : φ → φ) : Working σ φ ε Unit :=
  modify fun m => { m with filter := change m.filter }

variable (plan : SurveyPlan σ φ ε)

/-- The graph of the subject, drawn where none is in memory. -/
def whole : Working σ φ ε (Digraph ε) := do
  let m ← get
  match m.whole? with
  | some g => return g
  | none =>
    let g ← plan.whole m.subject
    modify fun m => { m with whole? := some g }
    return g

/-- What the filter leaves of the graph. The graph is in memory before the filter gets to it. -/
def filtered : Working σ φ ε (Digraph ε) := do
  let g ← whole plan
  let m ← get
  match m.filtered? with
  | some h => return h
  | none =>
    let h ← plan.filtered m.subject m.filter g
    modify fun m => { m with filtered? := some h }
    return h

def lookupType (type : String) : Working σ φ ε TypeId := do
  let m ← get
  (plan.policy m.subject).lookupType type

def routes (source target : String) (search : Digraph ε → TypeId → TypeId → LazyList (List TypeId)) :
    Working σ φ ε (LazyList (List (Step ε))) := do
  let s ← lookupType plan source
  let t ← lookupType plan target
  let g ← filtered plan
  let m ← get
  return (search g s t).map fun nodes => (g.route nodes).map (plan.orient m.filter)

def simplePaths (source target : String) (limit : Option Nat) : Working σ φ ε (LazyList (List (Step ε))) := do
  if limit = some 0 then throw (AnalysisError.maxLengthTooSmall 0 : Error)
  routes plan source target fun g s t => g.simplePaths s t limit

def stepsAt (type : String) (side : Side) : Working σ φ ε (List (Step ε)) := do
  let n ← lookupType plan type
  let g ← filtered plan
  let m ← get
  return (g.stepsAt n side).map (plan.orient m.filter)

def ask : Question → Working σ φ ε (Answer ε)
  | .size => return .size (← whole plan).size
  | .filteredSize => return .size (← filtered plan).size
  | .filtered => return .graph (← filtered plan)
  | .simplePaths source target limit => return .paths (← simplePaths plan source target limit)
  | .simplePathsWith source target settings => do
    let limit ← settings.limit
    return .paths (← simplePaths plan source target limit)
  | .shortestPaths source target => return .paths (← routes plan source target Digraph.shortestPaths)
  | .stepsAt type side => return .steps (← stepsAt plan type side)

def perform (change : χ → Working σ φ ε Unit) : Operation χ → Working σ φ ε (Answer ε)
  | .change c => do
    change c
    return .done
  | .forget => do
    dropGraphs
    return .done
  | .ask q => ask plan q

end Working

namespace Memory

def blank (subject : σ) (filter : φ) : Memory σ φ ε :=
  ⟨subject, filter, none, none⟩

variable (plan : SurveyPlan σ φ ε) (change : χ → Working σ φ ε Unit)

def outcome (m : Memory σ φ ε) (op : Operation χ) : Except Error (Answer ε) :=
  match (Working.perform plan change op).run m with
  | .ok answer _ => .ok answer
  | .error e _ => .error e

/-- The memory that an operation leaves, whether it succeeds or fails. -/
def next (m : Memory σ φ ε) (op : Operation χ) : Memory σ φ ε :=
  match (Working.perform plan change op).run m with
  | .ok _ m' | .error _ m' => m'

def after (m : Memory σ φ ε) (ops : List (Operation χ)) : Memory σ φ ε :=
  ops.foldl (next plan change) m

end Memory

end PolicyAnalysis.Survey
