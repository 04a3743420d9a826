import PolicyAnalysis.Policy.Basic
import PolicyAnalysis.Weight

/-!
# Permission maps

A permission map says for each permission of a class which way information flows when it is used, and how
freely on a scale from 1 to 10. The weight of a rule is the greatest weight of its permissions in each
direction. A permission that is not in the map has no weight; asking for it is an error.
-/

namespace PolicyAnalysis

/-- Which way information flows between a subject and an object. -/
inductive Direction where
  | read
  | write
  | both
  | none
  /-- Not known yet. -/
  | unmapped
deriving DecidableEq

namespace Direction

instance : Ord Direction :=
  ordByKey Direction.ctorIdx

instance : Std.TransOrd Direction :=
  transOrd_ordByKey _

instance : Std.LawfulEqOrd Direction :=
  lawfulEqOrd_ordByKey _ fun a b h => by
    cases a <;> cases b <;> cases h <;> rfl

instance : Named Direction where
  all := [.read, .write, .both, .none, .unmapped]
  name
    | read => "r"
    | write => "w"
    | both => "b"
    | none => "n"
    | unmapped => "u"

def ofText (text : String) : Except PermissionMapError Direction :=
  match (Named.ofName? text : Option Direction) with
  | some d => .ok d
  | .none => .error (.unknownDirection text)

def reads : Direction → Bool
  | read | both => true
  | _ => false

def writes : Direction → Bool
  | write | both => true
  | _ => false

end Direction

structure Mapping where
  direction : Direction
  weight : UInt8
  /-- Whether the permission counts when rules are weighed. -/
  enabled : Bool
deriving DecidableEq

/-- How freely information flows to the subject and from it; 0 where it does not. -/
structure Weights where
  read : Nat
  write : Nat
deriving DecidableEq

structure PermissionMap where
  classes : NameTable (NameTable Mapping)
deriving DecidableEq

namespace PermissionMap

def empty : PermissionMap :=
  ⟨∅⟩

def checkWeight (weight : Int) : Except PermissionMapError UInt8 :=
  if Weight.InRange weight then .ok (.ofNat weight.toNat)
  else .error (.weightOutOfRange weight)

def perms (m : PermissionMap) (objectClass : String) :
    Except PermissionMapError (NameTable Mapping) :=
  match m.classes[objectClass]? with
  | some perms => .ok perms
  | none => .error (.unmappedClass objectClass)

def mapping (m : PermissionMap) (objectClass perm : String) : Except PermissionMapError Mapping := do
  match (← m.perms objectClass)[perm]? with
  | some mapping => return mapping
  | none => throw (.unmappedPermission objectClass perm)

/-- The mappings of several permissions of a class, in the order of their names. -/
def mappings (m : PermissionMap) (objectClass : String) (names : NameSet) :
    Except PermissionMapError (List Mapping) :=
  names.toList.mapM (m.mapping objectClass)

def put (m : PermissionMap) (objectClass perm : String) (mapping : Mapping) : PermissionMap :=
  ⟨m.classes.alter objectClass fun perms => some ((perms.getD ∅).insert perm mapping)⟩

def insert (m : PermissionMap) (objectClass perm : String) (direction : Direction) (weight : Int) :
    Except Error PermissionMap := do
  let weight ← checkWeight weight
  return m.put objectClass perm ⟨direction, weight, true⟩

def update (m : PermissionMap) (objectClass perm : String) (change : Mapping → Mapping) :
    Except Error PermissionMap := do
  return m.put objectClass perm (change (← m.mapping objectClass perm))

def updateClass (m : PermissionMap) (objectClass : String) (change : Mapping → Mapping) :
    Except Error PermissionMap := do
  let perms ← m.perms objectClass
  return ⟨m.classes.insert objectClass (perms.map fun _ => change)⟩

def setWeight (m : PermissionMap) (objectClass perm : String) (weight : Int) :
    Except Error PermissionMap := do
  let weight ← checkWeight weight
  m.update objectClass perm fun x => { x with weight }

def setDirection (m : PermissionMap) (objectClass perm : String) (direction : Direction) :
    Except Error PermissionMap :=
  m.update objectClass perm fun x => { x with direction }

def excludeClass (m : PermissionMap) (objectClass : String) : Except Error PermissionMap :=
  m.updateClass objectClass fun x => { x with enabled := false }

def includeClass (m : PermissionMap) (objectClass : String) : Except Error PermissionMap :=
  m.updateClass objectClass fun x => { x with enabled := true }

def excludePermission (m : PermissionMap) (objectClass perm : String) : Except Error PermissionMap :=
  m.update objectClass perm fun x => { x with enabled := false }

def includePermission (m : PermissionMap) (objectClass perm : String) : Except Error PermissionMap :=
  m.update objectClass perm fun x => { x with enabled := true }

/-- What a permission has before anything is known of it. -/
def unknownMapping : Mapping :=
  ⟨.unmapped, .ofNat Weight.min, true⟩

def complete (perms : NameTable Mapping) (names : NameSet) : NameTable Mapping :=
  names.foldl (fun perms name => perms.insertIfNew name unknownMapping) perms

/-- The map with the classes and permissions of a policy that it lacks added. -/
def mapPolicy (m : PermissionMap) (p : Policy) : PermissionMap :=
  ⟨p.classes.foldl (fun classes name objectClass =>
    classes.alter name fun perms => some (complete (perms.getD ∅) (p.permsOf objectClass))) m.classes⟩

/-- The greatest weight of the mappings that count and go in a direction. -/
def greatest (goes : Direction → Bool) (mappings : List Mapping) : Nat :=
  ((mappings.filter fun x => x.enabled && goes x.direction).map (·.weight.toNat)).foldl max 0

/-- The weights of an access rule, which must be one that allows. -/
def weigh (m : PermissionMap) (rule : AccessRule) : Except Error Weights := do
  if rule.kind ≠ .allow then throw (PolicyError.unsupportedRule (Named.name rule.kind) : Error)
  let mappings ← m.mappings rule.objectClass rule.perms
  return ⟨greatest Direction.reads mappings, greatest Direction.writes mappings⟩

def weighRule (m : PermissionMap) : Rule → Except Error Weights
  | .access rule => m.weigh rule
  | rule => .error (PolicyError.unsupportedRule rule.keyword : Error)

/-- A map that has been read is refused for its first weight that is out of range. -/
def checkWeights (m : PermissionMap) : Except Error Unit :=
  m.classes.values.forM fun perms => perms.values.forM fun x => do
    discard (checkWeight x.weight.toNat)

end PermissionMap

end PolicyAnalysis
