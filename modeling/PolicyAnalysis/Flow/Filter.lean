import PolicyAnalysis.Flow.Graph

/-!
# Filters on flows

A filter leaves out the edges of some types, then the contributions of conditional rules that are not enabled, and
then the edges that are too light for what they still hold. All nodes stay.
-/

namespace PolicyAnalysis

structure FlowFilter where
  /-- Lighter edges do not count. -/
  minWeight : Nat := Weight.min
  /-- The types whose edges do not count. -/
  exclude : Std.ExtTreeSet TypeId := ∅
  /-- The states of booleans that differ from their declared ones. Without this, all conditional rules
  count. -/
  booleans : Option (NameTable Bool) := none
deriving DecidableEq

namespace FlowFilter

def disabledRules (p : Policy) (booleans : NameTable Bool) : Except PolicyError (Std.ExtTreeSet RuleId) := do
  let disabled ← p.accessRules.zipIdx.filterM fun (rule, _) =>
    match rule.conditional with
    | some place => return !(← p.isEnabled place booleans)
    | none => return false
  return .ofList (disabled.map (·.2))

/-- Takes the contributions of some rules from an edge, and weighs it anew if there were any. -/
def strike (rules : Std.ExtTreeSet RuleId) (e : FlowEdge) : FlowEdge :=
  let rest := { e with contributions := e.contributions.filter fun c => !rules.contains c.rule }
  if rest.contributions.length ≠ e.contributions.length then rest.recompute else rest

def dropExcluded (f : FlowFilter) (g : FlowGraph) : FlowGraph :=
  if f.exclude.isEmpty then g
  else g.filterEdges fun s t e => if f.exclude.contains s || f.exclude.contains t then none else some e

def dropRules (disabled : Std.ExtTreeSet RuleId) (g : FlowGraph) : FlowGraph :=
  if disabled.isEmpty then g
  else g.filterEdges fun _ _ e =>
    let rest := strike disabled e
    if rest.contributions.isEmpty then none else some rest

def dropLight (f : FlowFilter) (g : FlowGraph) : FlowGraph :=
  -- No edge is lighter than the least weight.
  if Weight.min < f.minWeight then g.filterEdges fun _ _ e => if f.minWeight ≤ e.weight then some e else none
  else g

def apply (f : FlowFilter) (p : Policy) (g : FlowGraph) : Except Error FlowGraph := do
  let g := f.dropExcluded g
  let disabled ← match f.booleans with
    | some booleans => disabledRules p booleans
    | none => pure ∅
  return f.dropLight (dropRules disabled g)

end FlowFilter

end PolicyAnalysis
