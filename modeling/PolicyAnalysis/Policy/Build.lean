import PolicyAnalysis.Policy.Resolve
import PolicyAnalysis.Policy.TypeTables

/-!
# Building a policy

Statements are collected in a draft, which remembers the first of them that is about a symbol not yet
declared. Building checks the draft: no two symbols of a kind share a name, and every name that is used is
declared. The first fault in the order of the checks is the error.
-/

namespace PolicyAnalysis

inductive Statement where
  | properties (properties : Properties)
  /-- Declares a type, and the attributes that it lists. -/
  | type (name : String) (attributes : NameSet)
  | attribute (name : String)
  | alias (type name : String)
  | permissive (type : String)
  | role (name : String) (types : NameSet)
  | user (name : String) (roles : NameSet)
  /-- The level and range of a user. -/
  | clearance (user : String) (level : Level) (range : Range)
  | boolean (name : String) (state : Bool)
  | common (name : String) (perms : NameSet)
  | objectClass (name : String) (common : Option String) (perms : NameSet)
  | sensitivity (name : String) (aliases : NameSet)
  | category (name : String) (aliases : NameSet)
  | level (level : Level)
  | capability (name : String)
  | initialSid (name : String) (context : Context)
  | initialSidNumber (number : UInt32) (context : Context)
  | rule (rule : Rule)
deriving DecidableEq

/-- The statements so far, by kind. -/
structure Draft where
  name : String
  properties : Properties := {}
  types : List TypeSymbol := []
  attributes : NameSet := ∅
  roles : List Role := []
  users : List User := []
  booleans : List Boolean := []
  commons : List CommonPerms := []
  classes : List ObjectClass := []
  sensitivities : List MlsSymbol := []
  categories : List MlsSymbol := []
  levels : List Level := []
  capabilities : NameSet := ∅
  initialSids : List InitialSid := []
  rules : List Rule := []
  /-- The first statement that had nothing to act on. -/
  fault : Option PolicyError := none
deriving DecidableEq

namespace Draft

def recordFault (d : Draft) (e : PolicyError) : Draft :=
  { d with fault := d.fault.or (some e) }

/-- The list with its first item that passes a test changed; `none` if no item does. -/
def updateFirst? {α : Type} (test : α → Bool) (change : α → α) : List α → Option (List α)
  | [] => none
  | a :: l => if test a then some (change a :: l) else (updateFirst? test change l).map (a :: ·)

def updateType (d : Draft) (name : String) (change : TypeSymbol → TypeSymbol) : Draft :=
  match updateFirst? (·.name == name) change d.types with
  | some types => { d with types }
  | none => d.recordFault (.unknownType name)

def addInitialSid (d : Draft) (name : String) (context : Context) : Draft :=
  { d with initialSids := d.initialSids ++ [⟨name, context⟩] }

def add (d : Draft) : Statement → Draft
  | .properties properties => { d with properties }
  | .type name attributes =>
    { d with
      types := d.types ++ [⟨name, ∅, attributes, false⟩]
      attributes := d.attributes ∪ attributes }
  | .attribute name => { d with attributes := d.attributes.insert name }
  | .alias type name => d.updateType type fun t => { t with aliases := t.aliases.insert name }
  | .permissive type => d.updateType type fun t => { t with permissive := true }
  | .role name types => { d with roles := d.roles ++ [⟨name, types⟩] }
  | .user name roles => { d with users := d.users ++ [⟨name, roles, none, none⟩] }
  | .clearance name level range =>
    let change (user : User) := { user with level := some level, range := some range }
    match updateFirst? (·.name == name) change d.users with
    | some users => { d with users }
    | none => d.recordFault (.unknownUser name)
  | .boolean name state => { d with booleans := d.booleans ++ [⟨name, state⟩] }
  | .common name perms => { d with commons := d.commons ++ [⟨name, perms⟩] }
  | .objectClass name common perms => { d with classes := d.classes ++ [⟨name, common, perms⟩] }
  | .sensitivity name aliases => { d with sensitivities := d.sensitivities ++ [⟨name, aliases⟩] }
  | .category name aliases => { d with categories := d.categories ++ [⟨name, aliases⟩] }
  | .level level => { d with levels := d.levels ++ [level] }
  | .capability name => { d with capabilities := d.capabilities.insert name }
  | .initialSid name context => d.addInitialSid name context
  | .initialSidNumber number context =>
    match initialSidName? number with
    | some name => d.addInitialSid name context
    | none => d.recordFault (.unknownInitialSid number)
  | .rule rule => { d with rules := d.rules ++ [rule] }

def ofStatements (name : String) (statements : List Statement) : Draft :=
  statements.foldl add { name }

/-- The policy of the types, their attributes and what needs no check. -/
def ofTables (d : Draft) (tables : TypeTables) : Policy where
  name := d.name
  properties := d.properties
  types := tables.types
  attributes := tables.attributes
  roles := ∅
  users := ∅
  booleans := ∅
  commons := ∅
  classes := ∅
  sensitivities := d.sensitivities
  categories := d.categories
  levels := []
  capabilities := d.capabilities
  initialSids := ∅
  rules := []

end Draft

namespace Policy

def insertUnique {α : Type} (table : NameTable α) (name : String) (a : α) :
    Except PolicyError (NameTable α) :=
  if table.contains name then .error (.duplicateSymbol name) else .ok (table.insert name a)

def addRole (p : Policy) (role : Role) : Except PolicyError Policy := do
  role.types.toList.forM fun name => discard (p.expand name)
  return { p with roles := ← insertUnique p.roles role.name role }

def addUser (p : Policy) (user : User) : Except PolicyError Policy := do
  user.roles.toList.forM fun name => discard (p.lookupRole name)
  let level ← user.level.mapM p.resolveLevel
  let range ← user.range.mapM p.resolveRange
  return { p with users := ← insertUnique p.users user.name { user with level, range } }

def addBoolean (p : Policy) (boolean : Boolean) : Except PolicyError Policy := do
  return { p with booleans := ← insertUnique p.booleans boolean.name boolean }

def addCommon (p : Policy) (common : CommonPerms) : Except PolicyError Policy := do
  return { p with commons := ← insertUnique p.commons common.name common }

def addClass (p : Policy) (objectClass : ObjectClass) : Except PolicyError Policy := do
  if let some common := objectClass.common then
    if !p.commons.contains common then
      throw (.unknownClass (objectClass.name ++ " inherits undeclared common " ++ common))
  return { p with classes := ← insertUnique p.classes objectClass.name objectClass }

def addInitialSid (p : Policy) (sid : InitialSid) : Except PolicyError Policy := do
  let context ← p.resolveContext sid.context
  return { p with initialSids := ← insertUnique p.initialSids sid.name { sid with context } }

end Policy

/-- The stages after the types. -/
def Draft.complete (d : Draft) (p : Policy) : Except PolicyError Policy := do
  let p ← d.roles.foldlM Policy.addRole p
  let p ← d.users.foldlM Policy.addUser p
  let p ← d.booleans.foldlM Policy.addBoolean p
  let p ← d.commons.foldlM Policy.addCommon p
  let p ← d.classes.foldlM Policy.addClass p
  let levels ← d.levels.mapM p.resolveLevel
  let p := { p with levels }
  let p ← d.initialSids.foldlM Policy.addInitialSid p
  let rules ← d.rules.mapM p.resolveRule
  return { p with rules }

def Draft.build (d : Draft) : Except PolicyError Policy := do
  if let some e := d.fault then throw e
  let tables ← TypeTables.fill d.types d.attributes
  d.complete (d.ofTables tables)

def Policy.build (name : String) (statements : List Statement) : Except PolicyError Policy :=
  (Draft.ofStatements name statements).build

end PolicyAnalysis
