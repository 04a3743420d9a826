import PolicyAnalysis.PermissionMap.Basic

/-!
# Editing a permission map

A permission map is edited in place. An edit goes through a few steps, and when one of them fails, what the steps
before it have done stays. An edit that fails can be followed by others.
-/

namespace PolicyAnalysis.PermissionMap

/-- Steps on a map. -/
abbrev Editing := EStateM Error PermissionMap

namespace Editing

instance : MonadLift (Except Error) Editing where
  monadLift
    | .ok a => pure a
    | .error e => throw e

def openClass (objectClass : String) : Editing Unit :=
  modify fun m => ⟨m.classes.insertIfNew objectClass ∅⟩

def modifyPerms (objectClass : String) (change : NameTable Mapping → NameTable Mapping) : Editing Unit :=
  modify fun m => ⟨m.classes.modify objectClass change⟩

def modifyMapping (objectClass perm : String) (change : Mapping → Mapping) : Editing Unit := do
  let m ← get
  discard (m.mapping objectClass perm)
  modifyPerms objectClass (·.modify perm change)

def modifyClass (objectClass : String) (change : Mapping → Mapping) : Editing Unit := do
  let m ← get
  discard (m.perms objectClass)
  modifyPerms objectClass (·.map fun _ => change)

def addPolicy (p : Policy) : Editing Unit :=
  p.classes.values.forM fun objectClass => do
    let perms ← p.classPerms objectClass.name
    openClass objectClass.name
    perms.toList.forM fun perm => modifyPerms objectClass.name (·.insertIfNew perm unknownMapping)

end Editing

inductive Edit where
  | insert (objectClass perm : String) (direction : Direction) (weight : Int)
  | setWeight (objectClass perm : String) (weight : Int)
  | setDirection (objectClass perm : String) (direction : Direction)
  | excludeClass (objectClass : String)
  | includeClass (objectClass : String)
  | excludePermission (objectClass perm : String)
  | includePermission (objectClass perm : String)
  | mapPolicy (p : Policy)
deriving DecidableEq

namespace Edit

open Editing in
def steps : Edit → Editing Unit
  | .insert objectClass perm direction weight => do
    let weight ← checkWeight weight
    openClass objectClass
    modifyPerms objectClass (·.insert perm ⟨direction, weight, true⟩)
  | .setWeight objectClass perm weight => do
    let weight ← checkWeight weight
    modifyMapping objectClass perm fun x => { x with weight }
  | .setDirection objectClass perm direction => modifyMapping objectClass perm fun x => { x with direction }
  | .excludeClass objectClass => modifyClass objectClass fun x => { x with enabled := false }
  | .includeClass objectClass => modifyClass objectClass fun x => { x with enabled := true }
  | .excludePermission objectClass perm => modifyMapping objectClass perm fun x => { x with enabled := false }
  | .includePermission objectClass perm => modifyMapping objectClass perm fun x => { x with enabled := true }
  | .mapPolicy p => addPolicy p

/-- The map that an edit makes of a map, all at once. -/
def apply (m : PermissionMap) : Edit → Except Error PermissionMap
  | .insert objectClass perm direction weight => m.insert objectClass perm direction weight
  | .setWeight objectClass perm weight => m.setWeight objectClass perm weight
  | .setDirection objectClass perm direction => m.setDirection objectClass perm direction
  | .excludeClass objectClass => m.excludeClass objectClass
  | .includeClass objectClass => m.includeClass objectClass
  | .excludePermission objectClass perm => m.excludePermission objectClass perm
  | .includePermission objectClass perm => m.includePermission objectClass perm
  | .mapPolicy p => .ok (m.mapPolicy p)

end Edit

/-- The map that an edit leaves, whether it succeeds or fails. -/
def next (m : PermissionMap) (edit : Edit) : PermissionMap :=
  match edit.steps.run m with
  | .ok _ m' | .error _ m' => m'

def after (m : PermissionMap) (edits : List Edit) : PermissionMap :=
  edits.foldl next m

end PolicyAnalysis.PermissionMap
