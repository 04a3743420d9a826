import PolicyAnalysis.Difference.Aspect

/-!
# Differences in declared symbols

Symbols are matched by their names, levels by their sensitivities.
-/

namespace PolicyAnalysis

structure TypeChange where
  attributes : SetChange String
  aliases : SetChange String
  permissive : Option (ValueChange Bool)

structure UserChange where
  roles : SetChange String
  level : Option (ValueChange (Option Level))
  range : Option (ValueChange (Option Range))

/-- A role with the names of all types that it stands for. -/
structure ExpandedRole where
  role : Role
  types : NameSet

structure ExpandedClass where
  objectClass : ObjectClass
  perms : NameSet

/-- An expanded role is shown as it was declared. -/
instance : ToJson ExpandedRole := ⟨fun r => toJson r.role⟩

instance : ToJson ExpandedClass := ⟨fun c => toJson c.objectClass⟩

def TypeSymbol.change? (left right : TypeSymbol) : Option TypeChange :=
  if left.attributes = right.attributes ∧ left.aliases = right.aliases ∧
      left.permissive = right.permissive then none
  else some {
    attributes := .between left.attributes right.attributes
    aliases := .between left.aliases right.aliases
    permissive := ValueChange.between? left.permissive right.permissive }

def User.change? (left right : User) : Option UserChange :=
  if left.roles = right.roles ∧ left.level = right.level ∧ left.range = right.range then none
  else some {
    roles := .between left.roles right.roles
    level := ValueChange.between? left.level right.level
    range := ValueChange.between? left.range right.range }

def Role.expanded (p : Policy) (role : Role) : Except PolicyError ExpandedRole := do
  let types ← role.types.toList.mapM p.expand
  return ⟨role, .ofList (types.flatten.map p.typeName)⟩

/-- The form of a change in one part of a named item. -/
def namedForm {α : Type} [ToJson α] (name part : String) (change : α) : List (String × Json) :=
  [("name", .str name), (part, toJson change)]

namespace Aspect

def types : Aspect where
  name := "types"
  Key := String
  Item := TypeSymbol
  Change := TypeChange
  table p := .ok (tableBy TypeSymbol.name p.types)
  change? := TypeSymbol.change?
  changeForm t change := [
    ("name", .str t.name),
    ("attributes", toJson change.attributes),
    ("aliases", toJson change.aliases),
    ("permissive", toJson change.permissive)]

def attributes : Aspect where
  name := "attributes"
  Key := String
  Item := Attribute
  Change := SetChange String
  table p := .ok p.attributes
  change? left right := SetChange.between? left.types right.types
  changeForm a change := namedForm a.name "types" change

/-- Roles are compared by the types that they stand for, however these are named. -/
def roles : Aspect where
  name := "roles"
  Key := String
  Item := ExpandedRole
  Change := SetChange String
  table p := do
    return tableBy (·.role.name) (← p.roles.values.mapM (Role.expanded p))
  change? left right := SetChange.between? left.types right.types
  changeForm r change := namedForm r.role.name "types" change

def users : Aspect where
  name := "users"
  Key := String
  Item := User
  Change := UserChange
  table p := .ok p.users
  change? := User.change?
  changeForm u change := [
    ("name", .str u.name),
    ("roles", toJson change.roles),
    ("level", toJson change.level),
    ("range", toJson change.range)]

def booleans : Aspect where
  name := "booleans"
  Key := String
  Item := Boolean
  Change := ValueChange Bool
  table p := .ok p.booleans
  change? left right := ValueChange.between? left.state right.state
  changeForm b change := namedForm b.name "state" change

def commons : Aspect where
  name := "commons"
  Key := String
  Item := CommonPerms
  Change := SetChange String
  table p := .ok p.commons
  change? left right := SetChange.between? left.perms right.perms
  changeForm c change := namedForm c.name "perms" change

def classes : Aspect where
  name := "classes"
  Key := String
  Item := ExpandedClass
  Change := SetChange String
  table p := .ok (p.classes.map fun _ objectClass => ⟨objectClass, p.permsOf objectClass⟩)
  change? left right := SetChange.between? left.perms right.perms
  changeForm c change := namedForm c.objectClass.name "perms" change

def capabilities : Aspect where
  name := "polcaps"
  Key := String
  Item := String
  Change := Empty
  table p := .ok (tableBy id p.capabilities.toList)
  change? _ _ := none
  changeForm _ change := nomatch change

def mlsSymbols (name : String) (symbols : Policy → List MlsSymbol) : Aspect where
  name
  Key := String
  Item := MlsSymbol
  Change := SetChange String
  table p := .ok (tableBy MlsSymbol.name (symbols p))
  change? left right := SetChange.between? left.aliases right.aliases
  changeForm s change := namedForm s.name "aliases" change

def levels : Aspect where
  name := "levels"
  Key := String
  Item := Level
  Change := SetChange String
  table p := .ok (tableBy Level.sensitivity p.levels)
  change? left right := SetChange.between? left.categories right.categories
  changeForm l change := [("sensitivity", .str l.sensitivity), ("categories", toJson change)]

def ofSymbols : List Aspect :=
  [types, attributes, roles, users, booleans, commons, classes, capabilities,
    mlsSymbols "sensitivities" Policy.sensitivities, mlsSymbols "categories" Policy.categories, levels]

end Aspect

end PolicyAnalysis
