import PolicyAnalysis.Digraph.Basic
import PolicyAnalysis.PermissionMap.Basic

/-!
# The graph of information flows

There is an edge from a type to another where a rule that allows access lets information flow that way: to the
target of a permission that writes, or from the target of one that reads. The edge holds what each rule
contributes, in the order of the rules, and the greatest weight in each direction, which is kept up to date.
-/

namespace PolicyAnalysis

/-- Which use of the access an edge comes from. -/
inductive FlowDirection where
  /-- The target of the edge reads from its source. -/
  | read
  /-- The source of the edge writes to its target. -/
  | write
deriving DecidableEq

instance : Named FlowDirection where
  all := [.read, .write]
  name
    | .read => "read"
    | .write => "write"

structure Contribution where
  rule : RuleId
  direction : FlowDirection
  weight : Nat
deriving DecidableEq

structure FlowEdge where
  contributions : List Contribution := []
  /-- The greatest weight with which the target reads. -/
  readWeight : Nat := 0
  writeWeight : Nat := 0
deriving DecidableEq

namespace FlowEdge

def weightIn (e : FlowEdge) : FlowDirection → Nat
  | .read => e.readWeight
  | .write => e.writeWeight

def weight (e : FlowEdge) : Nat :=
  max e.readWeight e.writeWeight

def add (e : FlowEdge) (c : Contribution) : FlowEdge :=
  let e := match c.direction with
    | .read => { e with readWeight := max e.readWeight c.weight }
    | .write => { e with writeWeight := max e.writeWeight c.weight }
  { e with contributions := e.contributions ++ [c] }

def ofContributions (l : List Contribution) : FlowEdge :=
  l.foldl add {}

/-- Weighs an edge anew, after contributions have been taken from it. -/
def recompute (e : FlowEdge) : FlowEdge :=
  ofContributions e.contributions

def rules (e : FlowEdge) : Std.ExtTreeSet RuleId :=
  .ofList (e.contributions.map (·.rule))

end FlowEdge

abbrev FlowGraph := Digraph FlowEdge

namespace FlowGraph

def contribute (g : FlowGraph) (s t : TypeId) (c : Contribution) : FlowGraph :=
  g.putEdge s t fun e => (e.getD {}).add c

/-- Adds the flows of a rule between the two types of a pair. Flows within a type do not count. -/
def addPair (rule : RuleId) (w : Weights) (g : FlowGraph) (pair : TypeId × TypeId) : FlowGraph :=
  let (s, t) := pair
  if s = t then g
  else
    let g := if 0 < w.write then g.contribute s t ⟨rule, .write, w.write⟩ else g
    if 0 < w.read then g.contribute t s ⟨rule, .read, w.read⟩ else g

/-- Adds the flows of a rule. Rules that do not allow anything have none. -/
def addRule (p : Policy) (m : PermissionMap) (g : FlowGraph) (entry : AccessRule × RuleId) :
    Except Error FlowGraph := do
  let (rule, id) := entry
  if rule.kind ≠ .allow then return g
  let w ← m.weigh rule
  if w.read = 0 ∧ w.write = 0 then return g
  let pairs ← p.expandPairs rule.source rule.target
  return pairs.foldl (addPair id w) g

def ofPolicy (p : Policy) (m : PermissionMap) : Except Error FlowGraph :=
  p.accessRules.zipIdx.foldlM (addRule p m) .empty

end FlowGraph

end PolicyAnalysis
