import PolicyAnalysis.Policy.Basic

/-!
# Primary names

A name in a level, a context or a rule may be an alias. `resolve…` checks that every name is declared and
puts the primary name in its place.
-/

namespace PolicyAnalysis.Policy

def sensitivityRank (p : Policy) (name : String) : Except PolicyError Nat :=
  match p.sensitivities.findIdx? (·.answersTo name) with
  | some rank => .ok rank
  | none => .error (.unknownSensitivity name)

def resolveSensitivity (p : Policy) (name : String) : Except PolicyError String :=
  match p.sensitivities.find? (·.answersTo name) with
  | some symbol => .ok symbol.name
  | none => .error (.unknownSensitivity name)

def resolveCategory (p : Policy) (name : String) : Except PolicyError String :=
  match p.categories.find? (·.answersTo name) with
  | some symbol => .ok symbol.name
  | none => .error (.unknownCategory name)

def resolveLevel (p : Policy) (l : Level) : Except PolicyError Level := do
  let sensitivity ← p.resolveSensitivity l.sensitivity
  let categories ← l.categories.toList.mapM p.resolveCategory
  return ⟨sensitivity, .ofList categories⟩

def resolveRange (p : Policy) (r : Range) : Except PolicyError Range := do
  let low ← p.resolveLevel r.low
  let high ← p.resolveLevel r.high
  return ⟨low, high⟩

def resolveType (p : Policy) (name : String) : Except PolicyError String := do
  return p.typeName (← p.lookupType name)

def resolveContext (p : Policy) (c : Context) : Except PolicyError Context := do
  discard (p.lookupUser c.user)
  discard (p.lookupRole c.role)
  let type ← p.resolveType c.type
  let range ← c.range.mapM p.resolveRange
  return { c with type, range }

/-- The sensitivity of `high` is that of `low` or above it, and `high` has all categories of `low`. -/
def levelDominates (p : Policy) (high low : Level) : Except PolicyError Bool := do
  let high ← p.resolveLevel high
  let low ← p.resolveLevel low
  let highRank ← p.sensitivityRank high.sensitivity
  let lowRank ← p.sensitivityRank low.sensitivity
  return lowRank ≤ highRank && low.categories.all high.categories.contains

def checkSourceTarget (p : Policy) (source target : String) : Except PolicyError Unit := do
  discard (p.expand source)
  if target ≠ selfTarget then discard (p.expand target)

def checkConditional (p : Policy) (place : Option Conditional) : Except PolicyError Unit :=
  match place with
  | some place => place.condition.booleans.toList.forM fun name => discard (p.lookupBoolean name)
  | none => .ok ()

/-- A rule with a class has a type or attribute for its target, one without has a role. -/
def checkRoleRule (p : Policy) (rule : RoleRule) : Except PolicyError Unit := do
  discard (p.lookupRole rule.source)
  match rule.objectClass with
  | some objectClass =>
    discard (p.expand rule.target)
    discard (p.lookupClass objectClass)
  | none => discard (p.lookupRole rule.target)
  if let some default := rule.default then discard (p.lookupRole default)

/-- The rule with primary names for the types it results in and in its levels and contexts. The source and
target of a rule between types stay as they are written. -/
def resolveRule (p : Policy) : Rule → Except PolicyError Rule
  | .access rule => do
    p.checkSourceTarget rule.source rule.target
    discard (p.lookupClass rule.objectClass)
    p.checkConditional rule.conditional
    return .access rule
  | .extended rule => do
    p.checkSourceTarget rule.source rule.target
    discard (p.lookupClass rule.objectClass)
    return .extended rule
  | .type rule => do
    p.checkSourceTarget rule.source rule.target
    discard (p.lookupClass rule.objectClass)
    let default ← p.resolveType rule.default
    p.checkConditional rule.conditional
    return .type { rule with default }
  | .role rule => do
    p.checkRoleRule rule
    return .role rule
  | .range rule => do
    p.checkSourceTarget rule.source rule.target
    discard (p.lookupClass rule.objectClass)
    let default ← p.resolveRange rule.default
    return .range { rule with default }
  | .bound rule => do
    let parent ← p.resolveType rule.parent
    let child ← p.resolveType rule.child
    return .bound ⟨parent, child⟩
  | .default rule => do
    discard (p.lookupClass rule.objectClass)
    return .default rule
  | .constraint rule => do
    discard (p.lookupClass rule.objectClass)
    return .constraint rule
  | .filesystem label => return .filesystem { label with context := ← p.resolveContext label.context }
  | .path label => return .path { label with context := ← p.resolveContext label.context }
  | .port label => return .port { label with context := ← p.resolveContext label.context }
  | .node label => return .node { label with context := ← p.resolveContext label.context }
  | .interface label => do
    let context ← p.resolveContext label.context
    let packet ← p.resolveContext label.packet
    return .interface { label with context, packet }
  | .pkey label => return .pkey { label with context := ← p.resolveContext label.context }
  | .endport label => return .endport { label with context := ← p.resolveContext label.context }

end PolicyAnalysis.Policy
