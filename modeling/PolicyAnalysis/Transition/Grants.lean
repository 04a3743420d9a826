import PolicyAnalysis.Grouping
import PolicyAnalysis.Policy.Basic

/-!
# Grants behind transitions

The rules that allow the single parts of a transition between domains, by the types that they allow it to.
Each list of rules is in their order.
-/

namespace PolicyAnalysis

abbrev PairRules := Std.ExtTreeMap (TypeId × TypeId) (List RuleId)

structure Grants where
  /-- To a process, to change its domain when it runs a file. -/
  transition : PairRules
  /-- To a process, to change its domain at any time. -/
  dyntransition : PairRules
  /-- To a process, to choose its next domain. -/
  setexec : Std.ExtTreeMap TypeId (List RuleId)
  /-- To a process, to choose its domain at once. -/
  setcurrent : Std.ExtTreeMap TypeId (List RuleId)
  /-- To a domain, to run files of a type. -/
  execute : PairRules
  /-- To a domain, to be entered through files of a type. -/
  entrypoint : PairRules
  /-- The domain that a domain goes to by default with a file of a type. -/
  typeTransition : Std.ExtTreeMap (TypeId × TypeId) (List (TypeId × RuleId))

namespace Grants

def processClass : String :=
  "process"

def fileClass : String :=
  "file"

def allowRules (p : Policy) (objectClass perm : String) : List (AccessRule × RuleId) :=
  p.accessRules.zipIdx.filter fun (rule, _) =>
    rule.kind = .allow && rule.objectClass = objectClass && rule.perms.contains perm

def byPair (p : Policy) (objectClass perm : String) : Except PolicyError PairRules := do
  let entries ← (allowRules p objectClass perm).mapM fun (rule, id) => do
    let pairs ← p.expandPairs rule.source rule.target
    return pairs.map fun pair => (pair, id)
  return groupByKey entries.flatten

/-- Rules by their sources alone. Of what is allowed to a process on itself, the target says nothing. -/
def bySource (p : Policy) (perm : String) : Except PolicyError (Std.ExtTreeMap TypeId (List RuleId)) := do
  let entries ← (allowRules p processClass perm).mapM fun (rule, id) => do
    let sources ← p.expand rule.source
    return sources.map fun s => (s, id)
  return groupByKey entries.flatten

def defaultDomains (p : Policy) :
    Except PolicyError (Std.ExtTreeMap (TypeId × TypeId) (List (TypeId × RuleId))) := do
  let rules := p.typeRules.zipIdx.filter fun (rule, _) =>
    rule.kind = .transition && rule.objectClass = processClass
  let entries ← rules.mapM fun (rule, id) => do
    let default ← p.lookupType rule.default
    let pairs ← p.expandPairs rule.source rule.target
    return pairs.map fun pair => (pair, (default, id))
  return groupByKey entries.flatten

def ofPolicy (p : Policy) : Except PolicyError Grants := do
  return {
    transition := ← byPair p processClass "transition"
    dyntransition := ← byPair p processClass "dyntransition"
    setexec := ← bySource p "setexec"
    setcurrent := ← bySource p "setcurrent"
    execute := ← byPair p fileClass "execute"
    entrypoint := ← byPair p fileClass "entrypoint"
    typeTransition := ← defaultDomains p }

end Grants

end PolicyAnalysis
