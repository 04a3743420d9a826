import PolicyAnalysis.Condition.TruthTable
import PolicyAnalysis.Difference.Aspect

/-!
# Differences in rules

Rules between types are compared type by type: an attribute stands for its types, and what several rules of
a kind allow under one key is taken together. Of rules that set a single value under one key, the first
counts. Places in conditional blocks are told apart by the truth tables of their conditions and by the
branch.
-/

namespace PolicyAnalysis

/-- What a rule between two types is matched by. -/
structure RuleKey where
  source : String
  target : String
  objectClass : String
  /-- The extended permission, or the only object name that the rule is for. -/
  qualifier : Option String
  place : Option (TruthTable × Bool)

instance : Ord RuleKey :=
  ordByKey fun k => (k.source, k.target, k.objectClass, k.qualifier, k.place)

instance : Std.TransOrd RuleKey :=
  transOrd_ordByKey _

instance : Std.LawfulEqOrd RuleKey :=
  lawfulEqOrd_ordByKey _ fun a b h => by
    cases a; cases b; simp_all

structure RoleAllow where
  source : String
  target : String
deriving DecidableEq

/-- The role that a process gets when it runs a file of a type. -/
structure RoleTransition where
  source : String
  target : String
  objectClass : String
  default : String
deriving DecidableEq

structure DefaultChange where
  side : Option (ValueChange DefaultSide)
  part : Option (ValueChange (Option RangePart))

instance : ToJson RoleAllow where
  toJson r := .obj [("source", toJson r.source), ("target", toJson r.target)]

instance : ToJson RoleTransition where
  toJson r := .obj [
    ("source", toJson r.source),
    ("target", toJson r.target),
    ("tclass", toJson r.objectClass),
    ("default", toJson r.default)]

namespace Policy

/-- The names of the pairs of types that a rule is about. -/
def namedPairs (p : Policy) (source target : String) : Except PolicyError (List (String × String)) := do
  let pairs ← p.expandPairs source target
  return pairs.map fun (s, t) => (p.typeName s, p.typeName t)

def accessTable (kind : AccessKind) (p : Policy) :
    Except PolicyError (Std.ExtTreeMap RuleKey AccessRule) := do
  let entries ← (p.accessRules.filter (·.kind = kind)).mapM fun rule => do
    let place := rule.conditional.map Conditional.identity
    let pairs ← p.namedPairs rule.source rule.target
    return pairs.map fun (source, target) =>
      (RuleKey.mk source target rule.objectClass none place, { rule with source, target })
  return mergeByKey (fun a b => { a with perms := a.perms ∪ b.perms }) entries.flatten

def extendedTable (kind : ExtendedKind) (p : Policy) :
    Except PolicyError (Std.ExtTreeMap RuleKey ExtendedRule) := do
  let entries ← (p.extendedRules.filter (·.kind = kind)).mapM fun rule => do
    let pairs ← p.namedPairs rule.source rule.target
    return pairs.map fun (source, target) =>
      (RuleKey.mk source target rule.objectClass (some rule.perm) none, { rule with source, target })
  return mergeByKey (fun a b => { a with numbers := a.numbers ∪ b.numbers }) entries.flatten

def typeRuleTable (kind : TypeRuleKind) (p : Policy) :
    Except PolicyError (Std.ExtTreeMap RuleKey TypeRule) := do
  let entries ← (p.typeRules.filter (·.kind = kind)).mapM fun rule => do
    let place := rule.conditional.map Conditional.identity
    let pairs ← p.namedPairs rule.source rule.target
    return pairs.map fun (source, target) =>
      (RuleKey.mk source target rule.objectClass rule.fileName place, { rule with source, target })
  return firstByKey entries.flatten

def rangeTable (p : Policy) :
    Except PolicyError (Std.ExtTreeMap (String × String × String) RangeRule) := do
  let rules ← p.rangeRules.mapM fun rule => do
    let pairs ← p.namedPairs rule.source rule.target
    return pairs.map fun (source, target) =>
      { rule with source, target }
  return tableBy (fun rule => (rule.source, rule.target, rule.objectClass)) rules.flatten

def roleTransitionTable (p : Policy) :
    Except PolicyError (Std.ExtTreeMap (String × String × String) RoleTransition) := do
  let rules ← p.roleRules.mapM fun rule => do
    match rule.kind, rule.objectClass, rule.default with
    | .transition, some objectClass, some default =>
      let targets ← p.expand rule.target
      return targets.map fun target =>
        RoleTransition.mk rule.source (p.typeName target) objectClass default
    | _, _, _ => return []
  return tableBy (fun rule => (rule.source, rule.target, rule.objectClass)) rules.flatten

def roleAllows (p : Policy) : List RoleAllow :=
  (p.roleRules.filter (·.kind = .allow)).map fun rule => ⟨rule.source, rule.target⟩

end Policy

def DefaultRule.change? (left right : DefaultRule) : Option DefaultChange :=
  if left.side = right.side ∧ left.part = right.part then none
  else some {
    side := ValueChange.between? left.side right.side
    part := ValueChange.between? left.part right.part }

/-- The form of a change in one part of a rule, with the rule on the left. -/
def ruleForm {ι α : Type} [ToJson ι] [ToJson α] (part : String) (rule : ι) (change : α) :
    List (String × Json) :=
  [("rule", toJson rule), (part, toJson change)]

namespace Aspect

def access (name : String) (kind : AccessKind) : Aspect where
  name
  Key := RuleKey
  Item := AccessRule
  Change := SetChange String
  table := Policy.accessTable kind
  change? left right := SetChange.between? left.perms right.perms
  changeForm := ruleForm "perms"

def extended (name : String) (kind : ExtendedKind) : Aspect where
  name
  Key := RuleKey
  Item := ExtendedRule
  Change := SetChange UInt16
  table := Policy.extendedTable kind
  change? left right := SetChange.between? left.numbers right.numbers
  changeForm := ruleForm "perms"

def typeRules (name : String) (kind : TypeRuleKind) : Aspect where
  name
  Key := RuleKey
  Item := TypeRule
  Change := ValueChange String
  table := Policy.typeRuleTable kind
  change? left right := ValueChange.between? left.default right.default
  changeForm := ruleForm "default"

def roleAllows : Aspect where
  name := "role_allows"
  Key := String × String
  Item := RoleAllow
  Change := Empty
  table p := .ok (tableBy (fun rule => (rule.source, rule.target)) p.roleAllows)
  change? _ _ := none
  changeForm _ change := nomatch change

def roleTransitions : Aspect where
  name := "role_transitions"
  Key := String × String × String
  Item := RoleTransition
  Change := ValueChange String
  table := Policy.roleTransitionTable
  change? left right := ValueChange.between? left.default right.default
  changeForm := ruleForm "default"

def rangeTransitions : Aspect where
  name := "range_transitions"
  Key := String × String × String
  Item := RangeRule
  Change := ValueChange Range
  table := Policy.rangeTable
  change? left right := ValueChange.between? left.default right.default
  changeForm := ruleForm "default"

/-- Bounds are matched by the child. -/
def bounds : Aspect where
  name := "bounds"
  Key := String
  Item := Bound
  Change := ValueChange String
  table p := .ok (tableBy Bound.child p.bounds)
  change? left right := ValueChange.between? left.parent right.parent
  changeForm b change := [("child", .str b.child), ("parent", toJson change)]

def defaults : Aspect where
  name := "defaults"
  Key := DefaultKind × String
  Item := DefaultRule
  Change := DefaultChange
  table p := .ok (tableBy (fun rule => (rule.kind, rule.objectClass)) p.defaultRules)
  change? := DefaultRule.change?
  changeForm rule change := [
    ("rule", toJson rule),
    ("default", toJson change.side),
    ("default_range", toJson change.part)]

def constraints (name : String) (kind : ConstraintKind) : Aspect where
  name
  Key := Constraint
  Item := Constraint
  Change := Empty
  table p := .ok (tableBy id (p.constraints.filter (·.kind = kind)))
  change? _ _ := none
  changeForm _ change := nomatch change

def ofRules : List Aspect :=
  [access "allows" .allow, access "auditallows" .auditallow, access "dontaudits" .dontaudit,
    access "neverallows" .neverallow,
    extended "allowxperms" .allow, extended "auditallowxperms" .auditallow,
    extended "dontauditxperms" .dontaudit, extended "neverallowxperms" .neverallow,
    typeRules "type_transitions" .transition, typeRules "type_changes" .change,
    typeRules "type_members" .member,
    roleAllows, roleTransitions, rangeTransitions, bounds, defaults,
    constraints "constrains" .constrain, constraints "mlsconstrains" .mlsconstrain,
    constraints "validatetrans" .validatetrans, constraints "mlsvalidatetrans" .mlsvalidatetrans]

end Aspect

end PolicyAnalysis
