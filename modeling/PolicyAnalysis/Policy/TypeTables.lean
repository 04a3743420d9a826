import PolicyAnalysis.Policy.Basic

/-!
# Tables of types

Types are entered one after the other, each under its name and its aliases in an index. The attributes are there
from the start, and each gets the types that list it as members while these are entered.
-/

namespace PolicyAnalysis

structure TypeTables where
  types : List TypeSymbol
  index : NameTable TypeId
  attributes : NameTable Attribute

namespace TypeTables

/-- No types yet, and attributes without members. -/
def ofAttributes (names : NameSet) : TypeTables where
  types := []
  index := ∅
  attributes := names.foldl (fun table name => table.insert name ⟨name, ∅⟩) ∅

/-- Puts a name of a type in an index, where it must be new. No attribute may have it. -/
def enterName (attributes : NameTable Attribute) (id : TypeId) (index : NameTable TypeId) (name : String) :
    Except PolicyError (NameTable TypeId) :=
  if index.contains name || attributes.contains name then .error (.duplicateSymbol name)
  else .ok (index.insert name id)

def enlist (member : String) (attributes : NameTable Attribute) (name : String) : NameTable Attribute :=
  attributes.modify name fun a => { a with types := a.types.insert member }

def add (tables : TypeTables) (t : TypeSymbol) : Except PolicyError TypeTables := do
  let id := tables.types.length
  let index ← (t.name :: t.aliases.toList).foldlM (enterName tables.attributes id) tables.index
  return {
    types := tables.types ++ [t]
    index
    attributes := t.attributes.foldl (enlist t.name) tables.attributes }

def fill (types : List TypeSymbol) (attributes : NameSet) : Except PolicyError TypeTables :=
  types.foldlM add (ofAttributes attributes)

def lookupType (tables : TypeTables) (name : String) : Except PolicyError TypeId :=
  match tables.index[name]? with
  | some id => .ok id
  | none => .error (.unknownType name)

def lookupTypeOrAttribute (tables : TypeTables) (name : String) : Except PolicyError TypeOrAttribute :=
  match tables.index[name]? with
  | some id => .ok (.type id)
  | none =>
    match tables.attributes[name]? with
    | some a => .ok (.attribute a)
    | none => .error (.unknownType name)

def expand (tables : TypeTables) (name : String) : Except PolicyError (List TypeId) := do
  match ← tables.lookupTypeOrAttribute name with
  | .type id => return [id]
  | .attribute a => a.types.toList.mapM tables.lookupType

end TypeTables

end PolicyAnalysis
