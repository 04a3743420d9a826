import PolicyAnalysis.Policy.Symbol
import PolicyAnalysis.Rule.Basic

/-!
# Policies

A policy is what has been declared and the rules over it. Types are numbered in the order of their
declarations, and the rules of each kind in the order they were given. Look-ups take a type by its name or
an alias, and an attribute stands for its member types in the order of their names.
-/

namespace PolicyAnalysis

/-- What happens to a use of a class or permission that the policy does not know. -/
inductive UnknownUse where
  | deny
  | reject
  | allow
deriving DecidableEq

instance : Named UnknownUse where
  all := [.deny, .reject, .allow]
  name
    | .deny => "deny"
    | .reject => "reject"
    | .allow => "allow"

structure Properties where
  unknownUse : UnknownUse := .deny
  multiLevel : Bool := false
  version : UInt32 := 31
deriving DecidableEq

/-- The place of a type among the types of its policy. -/
abbrev TypeId := Nat

abbrev RuleId := Nat

structure Policy where
  name : String
  properties : Properties
  types : List TypeSymbol
  attributes : NameTable Attribute
  roles : NameTable Role
  users : NameTable User
  booleans : NameTable Boolean
  commons : NameTable CommonPerms
  classes : NameTable ObjectClass
  /-- The lowest comes first. -/
  sensitivities : List MlsSymbol
  categories : List MlsSymbol
  levels : List Level
  capabilities : NameSet
  initialSids : NameTable InitialSid
  rules : List Rule
deriving DecidableEq

/-- What the name of a rule's source or target stands for. -/
inductive TypeOrAttribute where
  | type (id : TypeId)
  | attribute (a : Attribute)
deriving DecidableEq

namespace Policy

def accessRules (p : Policy) : List AccessRule :=
  p.rules.filterMap fun
    | .access rule => some rule
    | _ => none

def extendedRules (p : Policy) : List ExtendedRule :=
  p.rules.filterMap fun
    | .extended rule => some rule
    | _ => none

def typeRules (p : Policy) : List TypeRule :=
  p.rules.filterMap fun
    | .type rule => some rule
    | _ => none

def roleRules (p : Policy) : List RoleRule :=
  p.rules.filterMap fun
    | .role rule => some rule
    | _ => none

def rangeRules (p : Policy) : List RangeRule :=
  p.rules.filterMap fun
    | .range rule => some rule
    | _ => none

def bounds (p : Policy) : List Bound :=
  p.rules.filterMap fun
    | .bound rule => some rule
    | _ => none

def defaultRules (p : Policy) : List DefaultRule :=
  p.rules.filterMap fun
    | .default rule => some rule
    | _ => none

def constraints (p : Policy) : List Constraint :=
  p.rules.filterMap fun
    | .constraint rule => some rule
    | _ => none

def filesystemLabels (p : Policy) : List FilesystemLabel :=
  p.rules.filterMap fun
    | .filesystem label => some label
    | _ => none

def pathLabels (p : Policy) : List PathLabel :=
  p.rules.filterMap fun
    | .path label => some label
    | _ => none

def portLabels (p : Policy) : List PortLabel :=
  p.rules.filterMap fun
    | .port label => some label
    | _ => none

def nodeLabels (p : Policy) : List NodeLabel :=
  p.rules.filterMap fun
    | .node label => some label
    | _ => none

def interfaceLabels (p : Policy) : List InterfaceLabel :=
  p.rules.filterMap fun
    | .interface label => some label
    | _ => none

def pkeyLabels (p : Policy) : List PkeyLabel :=
  p.rules.filterMap fun
    | .pkey label => some label
    | _ => none

def endportLabels (p : Policy) : List EndportLabel :=
  p.rules.filterMap fun
    | .endport label => some label
    | _ => none

def type? (p : Policy) (id : TypeId) : Option TypeSymbol :=
  p.types[id]?

/-- The name of a type; empty if there is no type with this number. -/
def typeName (p : Policy) (id : TypeId) : String :=
  ((p.type? id).map (·.name)).getD ""

def lookupType (p : Policy) (name : String) : Except PolicyError TypeId :=
  match p.types.findIdx? (·.answersTo name) with
  | some id => .ok id
  | none => .error (.unknownType name)

def lookupTypeOrAttribute (p : Policy) (name : String) : Except PolicyError TypeOrAttribute :=
  match p.types.findIdx? (·.answersTo name) with
  | some id => .ok (.type id)
  | none =>
    match p.attributes[name]? with
    | some a => .ok (.attribute a)
    | none => .error (.unknownType name)

def expand (p : Policy) (name : String) : Except PolicyError (List TypeId) := do
  match ← p.lookupTypeOrAttribute name with
  | .type id => return [id]
  | .attribute a => a.types.toList.mapM p.lookupType

/-- The target that stands for the source. -/
def selfTarget : String :=
  "self"

def expandPairs (p : Policy) (source target : String) :
    Except PolicyError (List (TypeId × TypeId)) := do
  let sources ← p.expand source
  if target = selfTarget then return sources.map fun s => (s, s)
  let targets ← p.expand target
  return sources.flatMap fun s => targets.map fun t => (s, t)

def lookupRole (p : Policy) (name : String) : Except PolicyError Role :=
  match p.roles[name]? with
  | some role => .ok role
  | none => .error (.unknownRole name)

def lookupUser (p : Policy) (name : String) : Except PolicyError User :=
  match p.users[name]? with
  | some user => .ok user
  | none => .error (.unknownUser name)

def lookupBoolean (p : Policy) (name : String) : Except PolicyError Boolean :=
  match p.booleans[name]? with
  | some boolean => .ok boolean
  | none => .error (.unknownBoolean name)

def lookupClass (p : Policy) (name : String) : Except PolicyError ObjectClass :=
  match p.classes[name]? with
  | some objectClass => .ok objectClass
  | none => .error (.unknownClass name)

/-- All permissions of a class, its own and those it shares with others. -/
def permsOf (p : Policy) (objectClass : ObjectClass) : NameSet :=
  match objectClass.common.bind (p.commons[·]?) with
  | some common => objectClass.perms ∪ common.perms
  | none => objectClass.perms

def classPerms (p : Policy) (name : String) : Except PolicyError NameSet := do
  return p.permsOf (← p.lookupClass name)

def booleanDefaults (p : Policy) : NameTable Bool :=
  p.booleans.map fun _ boolean => boolean.state

/-- The values of all booleans when some differ from their declared state. -/
def booleanValues (p : Policy) (overrides : NameTable Bool) :
    Except PolicyError (NameTable Bool) := do
  overrides.keys.forM fun name => discard (p.lookupBoolean name)
  return overrides.foldl (fun values name state => values.insert name state) p.booleanDefaults

def isEnabled (p : Policy) (place : Conditional) (overrides : NameTable Bool) :
    Except PolicyError Bool := do
  place.isEnabled (← p.booleanValues overrides)

end Policy

end PolicyAnalysis
