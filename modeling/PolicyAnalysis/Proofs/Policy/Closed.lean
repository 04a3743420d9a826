import PolicyAnalysis.Proofs.Policy.Levels
import PolicyAnalysis.Proofs.Policy.Names
import PolicyAnalysis.Proofs.Policy.Rules
import PolicyAnalysis.Proofs.Policy.Tables

/-!
# Built policies are closed

Whatever the symbols, the labels and the rules of a built policy refer to by name has been declared. Only the
permissions that access rules and constraints list are never looked up, so these alone may be unknown to their class.
The words of a constraint's expression are left as they are: they are not told apart from its operators.
-/

namespace PolicyAnalysis

open Checked

/-- What a name is used for. -/
inductive Reference where
  | type (name : String)
  /-- A type or else an attribute. -/
  | types (name : String)
  | attribute (name : String)
  | role (name : String)
  | user (name : String)
  | boolean (name : String)
  | common (name : String)
  | objectClass (name : String)
  | permission (objectClass name : String)
  | sensitivity (name : String)
  | category (name : String)
deriving DecidableEq

/-- A permission is one of its class or one that the class shares. -/
def Draft.Declares (d : Draft) : Reference → Prop
  | .type name => ∃ t ∈ d.types, t.answersTo name
  | .types name => (∃ t ∈ d.types, t.answersTo name) ∨ name ∈ d.attributes
  | .attribute name => name ∈ d.attributes
  | .role name => ∃ role ∈ d.roles, role.name = name
  | .user name => ∃ user ∈ d.users, user.name = name
  | .boolean name => ∃ boolean ∈ d.booleans, boolean.name = name
  | .common name => ∃ common ∈ d.commons, common.name = name
  | .objectClass name => ∃ c ∈ d.classes, c.name = name
  | .permission objectClass name => ∃ c ∈ d.classes, c.name = objectClass ∧
      (name ∈ c.perms ∨ ∃ common ∈ d.commons, c.common = some common.name ∧ name ∈ common.perms)
  | .sensitivity name => ∃ s ∈ d.sensitivities, s.answersTo name
  | .category name => ∃ s ∈ d.categories, s.answersTo name

instance (d : Draft) : DecidablePred d.Declares
  | .type name => inferInstanceAs (Decidable (∃ t ∈ d.types, t.answersTo name))
  | .types name => inferInstanceAs (Decidable ((∃ t ∈ d.types, t.answersTo name) ∨ name ∈ d.attributes))
  | .attribute name => inferInstanceAs (Decidable (name ∈ d.attributes))
  | .role name => inferInstanceAs (Decidable (∃ role ∈ d.roles, role.name = name))
  | .user name => inferInstanceAs (Decidable (∃ user ∈ d.users, user.name = name))
  | .boolean name => inferInstanceAs (Decidable (∃ boolean ∈ d.booleans, boolean.name = name))
  | .common name => inferInstanceAs (Decidable (∃ common ∈ d.commons, common.name = name))
  | .objectClass name => inferInstanceAs (Decidable (∃ c ∈ d.classes, c.name = name))
  | .permission objectClass name => inferInstanceAs (Decidable (∃ c ∈ d.classes, c.name = objectClass ∧
      (name ∈ c.perms ∨ ∃ common ∈ d.commons, c.common = some common.name ∧ name ∈ common.perms)))
  | .sensitivity name => inferInstanceAs (Decidable (∃ s ∈ d.sensitivities, s.answersTo name))
  | .category name => inferInstanceAs (Decidable (∃ s ∈ d.categories, s.answersTo name))

def Draft.Listed (d : Draft) : Prop :=
  ∀ t ∈ d.types, ∀ name ∈ t.attributes, name ∈ d.attributes

theorem Draft.forall_mem_updateFirst? {α : Type} {P : α → Prop} {test : α → Bool} {change : α → α}
    {l l' : List α} (h : ∀ a ∈ l, P a) (hchange : ∀ a, P a → P (change a))
    (hl' : updateFirst? test change l = some l') : ∀ a ∈ l', P a := by
  induction l generalizing l' with
  | nil => cases hl'
  | cons a l ih =>
    obtain ⟨ha, hl⟩ := List.forall_mem_cons.mp h
    rw [updateFirst?] at hl'
    split at hl'
    · cases hl'
      exact List.forall_mem_cons.mpr ⟨hchange a ha, hl⟩
    · obtain ⟨l'', hl'', rfl⟩ := Option.map_eq_some_iff.mp hl'
      exact List.forall_mem_cons.mpr ⟨ha, ih hl hl''⟩

theorem Draft.Listed.updateType {d : Draft} (h : d.Listed) (name : String) {change : TypeSymbol → TypeSymbol}
    (hchange : ∀ t, (change t).attributes = t.attributes) : (d.updateType name change).Listed := by
  rw [Draft.updateType]
  split
  next types htypes => exact Draft.forall_mem_updateFirst? h (fun t ht => (hchange t).symm ▸ ht) htypes
  next => exact h

theorem Draft.Listed.add {d : Draft} (h : d.Listed) (s : Statement) : (d.add s).Listed := by
  match s with
  | .type name attributes =>
    refine List.forall_mem_append.mpr ⟨fun t ht a ha => ?_, List.forall_mem_singleton.mpr fun a ha => ?_⟩
    · exact Std.ExtTreeSet.mem_union_of_left (h t ht a ha)
    · exact Std.ExtTreeSet.mem_union_of_right ha
  | .attribute name => exact fun t ht a ha => Std.ExtTreeSet.mem_insert.mpr (Or.inr (h t ht a ha))
  | .alias type name => exact h.updateType type fun t => rfl
  | .permissive type => exact h.updateType type fun t => rfl
  | .clearance name level range =>
    rw [Draft.add]
    split <;> exact h
  | .initialSidNumber number context =>
    rw [Draft.add]
    split <;> exact h
  | .properties _ | .role _ _ | .user _ _ | .boolean _ _ | .common _ _ | .objectClass _ _ _ | .sensitivity _ _
  | .category _ _ | .level _ | .capability _ | .initialSid _ _ | .rule _ => exact h

theorem Draft.listed_ofStatements (name : String) (statements : List Statement) :
    (Draft.ofStatements name statements).Listed :=
  List.foldlRecOn statements Draft.add (motive := Draft.Listed) nofun fun _ h s _ => h.add s

def TypeSymbol.references (t : TypeSymbol) : List Reference :=
  t.attributes.toList.map .attribute

def Attribute.references (a : Attribute) : List Reference :=
  a.types.toList.map .type

def Role.references (role : Role) : List Reference :=
  role.types.toList.map .types

def ObjectClass.references (c : ObjectClass) : List Reference :=
  c.common.toList.map .common

def Level.references (l : Level) : List Reference :=
  .sensitivity l.sensitivity :: l.categories.toList.map .category

def Range.references (r : Range) : List Reference :=
  r.low.references ++ r.high.references

def Context.references (c : Context) : List Reference :=
  [.user c.user, .role c.role, .type c.type] ++ c.range.toList.flatMap Range.references

def User.references (user : User) : List Reference :=
  user.roles.toList.map .role ++ user.level.toList.flatMap Level.references ++
    user.range.toList.flatMap Range.references

def Conditional.references (place : Conditional) : List Reference :=
  place.condition.booleans.toList.map .boolean

def endReferences (source target : String) : List Reference :=
  .types source :: if target = Policy.selfTarget then [] else [.types target]

def Rule.permissions : Rule → List Reference
  | access rule => rule.perms.toList.map (.permission rule.objectClass)
  | constraint rule => rule.perms.toList.map (.permission rule.objectClass)
  | _ => []

/-- All that a rule refers to but its permissions. -/
def Rule.references : Rule → List Reference
  | access rule =>
    endReferences rule.source rule.target ++ [.objectClass rule.objectClass] ++
      rule.conditional.toList.flatMap Conditional.references
  | extended rule => endReferences rule.source rule.target ++ [.objectClass rule.objectClass]
  | type rule =>
    endReferences rule.source rule.target ++ [.objectClass rule.objectClass, .type rule.default] ++
      rule.conditional.toList.flatMap Conditional.references
  | role rule =>
    .role rule.source ::
      (match rule.objectClass with
        | some objectClass => [.types rule.target, .objectClass objectClass]
        | none => [.role rule.target]) ++ rule.default.toList.map .role
  | range rule => endReferences rule.source rule.target ++ [.objectClass rule.objectClass] ++ rule.default.references
  | bound rule => [.type rule.parent, .type rule.child]
  | default rule => [.objectClass rule.objectClass]
  | constraint rule => [.objectClass rule.objectClass]
  | filesystem label => label.context.references
  | path label => label.context.references
  | port label => label.context.references
  | node label => label.context.references
  | interface label => label.context.references ++ label.packet.references
  | pkey label => label.context.references
  | endport label => label.context.references

namespace Policy

variable {d : Draft} {p q : Policy} {name : String}

def permissions (p : Policy) : List Reference :=
  p.rules.flatMap Rule.permissions

def references (p : Policy) : List Reference :=
  p.types.flatMap TypeSymbol.references ++ p.attributes.values.flatMap Attribute.references ++
    p.roles.values.flatMap Role.references ++ p.users.values.flatMap User.references ++
    p.classes.values.flatMap ObjectClass.references ++ p.levels.flatMap Level.references ++
    p.initialSids.values.flatMap (fun sid => sid.context.references) ++ p.rules.flatMap Rule.references ++
    p.permissions

/-- What a policy knows has been declared, and so has what its symbols refer to. -/
structure Backed (p : Policy) (d : Draft) : Prop where
  types : ∀ t ∈ p.types, t ∈ d.types
  attributes : ∀ name ∈ p.attributes, d.Declares (.attribute name)
  sensitivities : ∀ s ∈ p.sensitivities, s ∈ d.sensitivities
  categories : ∀ s ∈ p.categories, s ∈ d.categories
  roles : ∀ name ∈ p.roles, d.Declares (.role name)
  users : ∀ name ∈ p.users, d.Declares (.user name)
  booleans : ∀ name ∈ p.booleans, d.Declares (.boolean name)
  commons : ∀ name ∈ p.commons, d.Declares (.common name)
  classes : ∀ name ∈ p.classes, d.Declares (.objectClass name)
  inRoles : ∀ role ∈ p.roles.values, ∀ ref ∈ role.references, d.Declares ref
  inUsers : ∀ user ∈ p.users.values, ∀ ref ∈ user.references, d.Declares ref
  inClasses : ∀ c ∈ p.classes.values, ∀ ref ∈ c.references, d.Declares ref
  inInitialSids : ∀ sid ∈ p.initialSids.values, ∀ ref ∈ sid.context.references, d.Declares ref

theorem mem_table {α : Type} {table : NameTable α} {a : α} (h : table[name]? = some a) : name ∈ table := by
  rw [Std.ExtTreeMap.mem_iff_isSome_getElem?, h, Option.isSome_some]

theorem forall_mem_insertUnique {α : Type} {P : String → Prop} {table table' : NameTable α} {a : α}
    (h : ∀ k ∈ table, P k) (hname : P name) (hinsert : insertUnique table name a = .ok table') :
    ∀ k ∈ table', P k := by
  obtain ⟨-, rfl⟩ := insertUnique_eq_ok.mp hinsert
  intro k hk
  rcases Std.ExtTreeMap.mem_insert.mp hk with heq | hk
  · exact Std.LawfulEqOrd.eq_of_compare heq ▸ hname
  · exact h k hk

theorem mem_commons_of_addClass {c : ObjectClass} (h : p.addClass c = .ok q) {common : String}
    (hcommon : c.common = some common) : common ∈ p.commons := by
  rw [addClass, hcommon] at h
  by_contra hnot
  have hcontains : p.commons.contains common = false :=
    Bool.eq_false_iff.mpr (mt Std.ExtTreeMap.contains_iff_mem.mp hnot)
  simp only [hcontains] at h
  cases h

namespace Backed

variable {rule rule' : Rule}

theorem expand {ids : List TypeId} (h : p.Backed d) (hids : p.expand name = .ok ids) : d.Declares (.types name) := by
  rcases expand_eq_ok.mp hids with ⟨id, hid, -⟩ | ⟨-, a, ha, -⟩
  · obtain ⟨hlt, hanswers, -⟩ := List.findIdx?_eq_some_iff_getElem.mp hid
    exact Or.inl ⟨p.types[id], h.types _ (List.getElem_mem hlt), hanswers⟩
  · exact Or.inr (h.attributes name (mem_table ha))

theorem resolveType {type : String} (h : p.Backed d) (htype : p.resolveType name = .ok type) :
    d.Declares (.type type) := by
  obtain ⟨t, ht, rfl⟩ := exists_type_of_resolveType htype
  exact ⟨t, h.types t ht, (answersTo_iff t t.name).mpr (Or.inl rfl)⟩

theorem lookupRole {role : Role} (h : p.Backed d) (hrole : p.lookupRole name = .ok role) :
    d.Declares (.role name) := by
  rw [Policy.lookupRole] at hrole
  split at hrole
  next hname => exact h.roles name (mem_table hname)
  next => cases hrole

theorem lookupUser {user : User} (h : p.Backed d) (huser : p.lookupUser name = .ok user) :
    d.Declares (.user name) := by
  rw [Policy.lookupUser] at huser
  split at huser
  next hname => exact h.users name (mem_table hname)
  next => cases huser

theorem lookupBoolean {boolean : Boolean} (h : p.Backed d) (hboolean : p.lookupBoolean name = .ok boolean) :
    d.Declares (.boolean name) := by
  rw [Policy.lookupBoolean] at hboolean
  split at hboolean
  next hname => exact h.booleans name (mem_table hname)
  next => cases hboolean

theorem lookupClass {c : ObjectClass} (h : p.Backed d) (hc : p.lookupClass name = .ok c) :
    d.Declares (.objectClass name) := by
  rw [Policy.lookupClass] at hc
  split at hc
  next hname => exact h.classes name (mem_table hname)
  next => cases hc

theorem resolveLevel {l l' : Level} (h : p.Backed d) (hl : p.resolveLevel l = .ok l') :
    ∀ ref ∈ l'.references, d.Declares ref := by
  obtain ⟨⟨s, hs, hsname⟩, hcategories⟩ := primaryLevel_of_resolveLevel hl
  rw [Level.references, List.forall_mem_cons, List.forall_mem_map]
  refine ⟨⟨s, h.sensitivities s hs, hsname ▸ s.answersTo_name⟩, fun c hc => ?_⟩
  obtain ⟨s, hs, rfl⟩ := hcategories c (Std.ExtTreeSet.mem_toList.mp hc)
  exact ⟨s, h.categories s hs, s.answersTo_name⟩

theorem resolveRange {r r' : Range} (h : p.Backed d) (hr : p.resolveRange r = .ok r') :
    ∀ ref ∈ r'.references, d.Declares ref := by
  obtain ⟨hlow, hhigh⟩ := resolveRange_eq_ok.mp hr
  exact List.forall_mem_append.mpr ⟨h.resolveLevel hlow, h.resolveLevel hhigh⟩

theorem resolveContext {c c' : Context} (h : p.Backed d) (hc : p.resolveContext c = .ok c') :
    ∀ ref ∈ c'.references, d.Declares ref := by
  simp only [Policy.resolveContext, bind_eq_ok, pure_eq_ok, discard_eq_ok] at hc
  obtain ⟨-, ⟨user, huser⟩, -, ⟨role, hrole⟩, type, htype, range, hrange, rfl⟩ := hc
  simp only [Context.references, List.forall_mem_append, List.forall_mem_cons, List.forall_mem_flatMap]
  refine ⟨⟨h.lookupUser huser, h.lookupRole hrole, h.resolveType htype, List.forall_mem_nil _⟩, fun r hr => ?_⟩
  obtain ⟨r₀, -, hr₀⟩ := exists_of_option_mapM hrange (Option.mem_toList.mp hr)
  exact h.resolveRange hr₀

theorem checkSourceTarget {source target : String} (h : p.Backed d)
    (hends : p.checkSourceTarget source target = .ok ()) : ∀ ref ∈ endReferences source target, d.Declares ref := by
  obtain ⟨⟨sources, hsources⟩, htargets⟩ := checkSourceTarget_eq_ok.mp hends
  rw [endReferences, List.forall_mem_cons]
  refine ⟨h.expand hsources, ?_⟩
  split
  · exact List.forall_mem_nil _
  next hself =>
    obtain ⟨targets, htargets⟩ := htargets hself
    exact List.forall_mem_singleton.mpr (h.expand htargets)

theorem checkConditional {place : Option Conditional} (h : p.Backed d)
    (hplace : p.checkConditional place = .ok ()) :
    ∀ ref ∈ place.toList.flatMap Conditional.references, d.Declares ref := by
  simp only [List.forall_mem_flatMap, Conditional.references, List.forall_mem_map]
  intro c hc name hname
  obtain ⟨boolean, hboolean⟩ := checkConditional_eq_ok.mp hplace c (Option.mem_toList.mp hc) name
    (Std.ExtTreeSet.mem_toList.mp hname)
  exact h.lookupBoolean hboolean

theorem lookupRoles {default : Option String} (h : p.Backed d)
    (hdefault : (do if let some name := default then discard (p.lookupRole name) : Except PolicyError Unit) = .ok ()) :
    ∀ ref ∈ default.toList.map Reference.role, d.Declares ref := by
  cases default with
  | none => exact List.forall_mem_nil _
  | some name =>
    obtain ⟨role, hrole⟩ := discard_eq_ok.mp hdefault
    exact List.forall_mem_singleton.mpr (h.lookupRole hrole)

theorem checkRoleRule {rule : RoleRule} (h : p.Backed d) (hrule : p.checkRoleRule rule = .ok ()) :
    ∀ ref ∈ (Rule.role rule).references, d.Declares ref := by
  obtain ⟨kind, source, target, objectClass, default⟩ := rule
  cases objectClass with
  | some objectClass =>
    simp only [Policy.checkRoleRule, bind_eq_ok, discard_eq_ok] at hrule
    obtain ⟨-, ⟨role, hsource⟩, -, ⟨ids, htarget⟩, -, ⟨c, hclass⟩, hrest⟩ := hrule
    simp only [Rule.references, List.forall_mem_append, List.forall_mem_cons]
    exact ⟨⟨h.lookupRole hsource, h.expand htarget, h.lookupClass hclass, List.forall_mem_nil _⟩, h.lookupRoles hrest⟩
  | none =>
    simp only [Policy.checkRoleRule, bind_eq_ok, discard_eq_ok] at hrule
    obtain ⟨-, ⟨role, hsource⟩, -, ⟨role', htarget⟩, hrest⟩ := hrule
    simp only [Rule.references, List.forall_mem_append, List.forall_mem_cons]
    exact ⟨⟨h.lookupRole hsource, h.lookupRole htarget, List.forall_mem_nil _⟩, h.lookupRoles hrest⟩

/-- Whatever a rule that has been checked refers to is declared, except for permissions. -/
theorem resolveRule (h : p.Backed d) (hr : p.resolveRule rule = .ok rule') :
    ∀ ref ∈ rule'.references, d.Declares ref := by
  cases rule with
  | access rule =>
    simp only [Policy.resolveRule, bind_eq_ok, pure_eq_ok, discard_eq_ok] at hr
    obtain ⟨⟨⟩, hends, -, ⟨c, hclass⟩, ⟨⟩, hplace, rfl⟩ := hr
    simp only [Rule.references, List.forall_mem_append, List.forall_mem_singleton]
    exact ⟨⟨h.checkSourceTarget hends, h.lookupClass hclass⟩, h.checkConditional hplace⟩
  | extended rule =>
    simp only [Policy.resolveRule, bind_eq_ok, pure_eq_ok, discard_eq_ok] at hr
    obtain ⟨⟨⟩, hends, -, ⟨c, hclass⟩, rfl⟩ := hr
    simp only [Rule.references, List.forall_mem_append, List.forall_mem_singleton]
    exact ⟨h.checkSourceTarget hends, h.lookupClass hclass⟩
  | type rule =>
    simp only [Policy.resolveRule, bind_eq_ok, pure_eq_ok, discard_eq_ok] at hr
    obtain ⟨⟨⟩, hends, -, ⟨c, hclass⟩, default, hdefault, ⟨⟩, hplace, rfl⟩ := hr
    simp only [Rule.references, List.forall_mem_append, List.forall_mem_cons]
    exact ⟨⟨h.checkSourceTarget hends, h.lookupClass hclass, h.resolveType hdefault, List.forall_mem_nil _⟩,
      h.checkConditional hplace⟩
  | role rule =>
    simp only [Policy.resolveRule, bind_eq_ok, pure_eq_ok] at hr
    obtain ⟨⟨⟩, hcheck, rfl⟩ := hr
    exact h.checkRoleRule hcheck
  | range rule =>
    simp only [Policy.resolveRule, bind_eq_ok, pure_eq_ok, discard_eq_ok] at hr
    obtain ⟨⟨⟩, hends, -, ⟨c, hclass⟩, default, hdefault, rfl⟩ := hr
    simp only [Rule.references, List.forall_mem_append, List.forall_mem_singleton]
    exact ⟨⟨h.checkSourceTarget hends, h.lookupClass hclass⟩, h.resolveRange hdefault⟩
  | bound rule =>
    simp only [Policy.resolveRule, bind_eq_ok, pure_eq_ok] at hr
    obtain ⟨parent, hparent, child, hchild, rfl⟩ := hr
    simp only [Rule.references, List.forall_mem_cons]
    exact ⟨h.resolveType hparent, h.resolveType hchild, List.forall_mem_nil _⟩
  | default rule | constraint rule =>
    simp only [Policy.resolveRule, bind_eq_ok, pure_eq_ok, discard_eq_ok] at hr
    obtain ⟨-, ⟨c, hclass⟩, rfl⟩ := hr
    exact List.forall_mem_singleton.mpr (h.lookupClass hclass)
  | interface label =>
    simp only [Policy.resolveRule, bind_eq_ok, pure_eq_ok] at hr
    obtain ⟨context, hcontext, packet, hpacket, rfl⟩ := hr
    exact List.forall_mem_append.mpr ⟨h.resolveContext hcontext, h.resolveContext hpacket⟩
  | filesystem label | path label | port label | node label | pkey label | endport label =>
    simp only [Policy.resolveRule, bind_eq_ok, pure_eq_ok] at hr
    obtain ⟨context, hcontext, rfl⟩ := hr
    exact h.resolveContext hcontext

theorem addRole {role : Role} (h : p.Backed d) (hrole : role ∈ d.roles) (hq : p.addRole role = .ok q) :
    q.Backed d := by
  simp only [Policy.addRole, bind_eq_ok, pure_eq_ok, forM_eq_ok, discard_eq_ok] at hq
  obtain ⟨⟨⟩, htypes, roles, hroles, rfl⟩ := hq
  have hreferences : ∀ ref ∈ role.references, d.Declares ref := by
    rw [Role.references, List.forall_mem_map]
    intro name hname
    obtain ⟨ids, hids⟩ := htypes name hname
    exact h.expand hids
  exact { h with
    roles := forall_mem_insertUnique h.roles ⟨role, hrole, rfl⟩ hroles
    inRoles := forall_mem_values_insertUnique h.inRoles hreferences hroles }

theorem addUser {user : User} (h : p.Backed d) (huser : user ∈ d.users) (hq : p.addUser user = .ok q) :
    q.Backed d := by
  simp only [Policy.addUser, bind_eq_ok, pure_eq_ok, forM_eq_ok, discard_eq_ok] at hq
  obtain ⟨⟨⟩, hroles, level, hlevel, range, hrange, users, husers, rfl⟩ := hq
  have hreferences : ∀ ref ∈ User.references { user with level, range }, d.Declares ref := by
    simp only [User.references, List.forall_mem_append, List.forall_mem_map, List.forall_mem_flatMap]
    refine ⟨⟨fun name hname => ?_, fun l hl => ?_⟩, fun r hr => ?_⟩
    · obtain ⟨role, hrole⟩ := hroles name hname
      exact h.lookupRole hrole
    · obtain ⟨l₀, -, hl₀⟩ := exists_of_option_mapM hlevel (Option.mem_toList.mp hl)
      exact h.resolveLevel hl₀
    · obtain ⟨r₀, -, hr₀⟩ := exists_of_option_mapM hrange (Option.mem_toList.mp hr)
      exact h.resolveRange hr₀
  exact { h with
    users := forall_mem_insertUnique h.users ⟨user, huser, rfl⟩ husers
    inUsers := forall_mem_values_insertUnique h.inUsers hreferences husers }

theorem addBoolean {boolean : Boolean} (h : p.Backed d) (hboolean : boolean ∈ d.booleans)
    (hq : p.addBoolean boolean = .ok q) : q.Backed d := by
  simp only [Policy.addBoolean, bind_eq_ok, pure_eq_ok] at hq
  obtain ⟨booleans, hbooleans, rfl⟩ := hq
  exact { h with booleans := forall_mem_insertUnique h.booleans ⟨boolean, hboolean, rfl⟩ hbooleans }

theorem addCommon {common : CommonPerms} (h : p.Backed d) (hcommon : common ∈ d.commons)
    (hq : p.addCommon common = .ok q) : q.Backed d := by
  simp only [Policy.addCommon, bind_eq_ok, pure_eq_ok] at hq
  obtain ⟨commons, hcommons, rfl⟩ := hq
  exact { h with commons := forall_mem_insertUnique h.commons ⟨common, hcommon, rfl⟩ hcommons }

theorem addClass {c : ObjectClass} (h : p.Backed d) (hc : c ∈ d.classes) (hq : p.addClass c = .ok q) :
    q.Backed d := by
  have hreferences : ∀ ref ∈ c.references, d.Declares ref := by
    rw [ObjectClass.references, List.forall_mem_map]
    intro common hcommon
    exact h.commons common (mem_commons_of_addClass hq (Option.mem_toList.mp hcommon))
  obtain ⟨classes, hclasses, rfl⟩ := insertUnique_of_addClass hq
  exact { h with
    classes := forall_mem_insertUnique h.classes ⟨c, hc, rfl⟩ hclasses
    inClasses := forall_mem_values_insertUnique h.inClasses hreferences hclasses }

theorem addInitialSid {sid : InitialSid} (h : p.Backed d) (hq : p.addInitialSid sid = .ok q) : q.Backed d := by
  simp only [Policy.addInitialSid, bind_eq_ok, pure_eq_ok] at hq
  obtain ⟨context, hcontext, initialSids, hinitialSids, rfl⟩ := hq
  have hentries := forall_mem_values_insertUnique h.inInitialSids (h.resolveContext hcontext) hinitialSids
  exact { h with inInitialSids := hentries }

end Backed

theorem backed_start (d : Draft) : ({ d.start with types := d.types } : Policy).Backed d where
  types _ := id
  attributes name hname := by
    obtain ⟨a, ha⟩ := Option.isSome_iff_exists.mp (Std.ExtTreeMap.mem_iff_isSome_getElem?.mp hname)
    have ha : d.attributeTable[name]? = some a := ha
    rw [getElem?_attributeTable] at ha
    split at ha
    next hmem => exact hmem
    next => cases ha
  sensitivities _ := id
  categories _ := id
  roles := by simp [Draft.start, Draft.ofTables]
  users := by simp [Draft.start, Draft.ofTables]
  booleans := by simp [Draft.start, Draft.ofTables]
  commons := by simp [Draft.start, Draft.ofTables]
  classes := by simp [Draft.start, Draft.ofTables]
  inRoles := by simp [mem_values, Draft.start, Draft.ofTables]
  inUsers := by simp [mem_values, Draft.start, Draft.ofTables]
  inClasses := by simp [mem_values, Draft.start, Draft.ofTables]
  inInitialSids := by simp [mem_values, Draft.start, Draft.ofTables]

theorem backed_of_build (h : d.build = .ok p) : p.Backed d := by
  obtain ⟨-, p₁, p₂, p₃, p₄, p₅, p₆, p₇, levels, h₁, h₂, h₃, h₄, h₅, h₆, -, h₇, -, hp⟩ :=
    Draft.build_stages h
  have b₁ : p₁.Backed d := eq_of_foldlM_addType h₁ ▸ backed_start d
  have b₂ := foldlM_induction (Backed · d) h₂ b₁ fun role hrole _ _ hb => hb.addRole hrole
  have b₃ := foldlM_induction (Backed · d) h₃ b₂ fun user huser _ _ hb => hb.addUser huser
  have b₄ := foldlM_induction (Backed · d) h₄ b₃ fun boolean hboolean _ _ hb => hb.addBoolean hboolean
  have b₅ := foldlM_induction (Backed · d) h₅ b₄ fun common hcommon _ _ hb => hb.addCommon hcommon
  have b₆ := foldlM_induction (Backed · d) h₆ b₅ fun c hc _ _ hb => hb.addClass hc
  have b₇ := foldlM_induction (Backed · d) h₇ { b₆ with } fun _ _ _ _ hb => hb.addInitialSid
  rw [hp]
  exact { b₇ with }

theorem declares_of_mem_types (hlisted : d.Listed) (h : d.build = .ok p) :
    ∀ t ∈ p.types, ∀ ref ∈ t.references, d.Declares ref := by
  obtain ⟨-, htypes, -⟩ := Draft.types_of_build h
  intro t ht
  rw [TypeSymbol.references, List.forall_mem_map]
  intro name hname
  exact hlisted t (htypes ▸ ht) name (Std.ExtTreeSet.mem_toList.mp hname)

theorem declares_of_mem_attributes (h : d.build = .ok p) :
    ∀ a ∈ p.attributes.values, ∀ ref ∈ a.references, d.Declares ref := by
  intro a ha
  obtain ⟨name, ha⟩ := mem_values.mp ha
  rw [Attribute.references, List.forall_mem_map]
  intro member hmember
  obtain ⟨t, ht, rfl⟩ := exists_type_of_mem h ha (Std.ExtTreeSet.mem_toList.mp hmember)
  exact ⟨t, (backed_of_build h).types t ht, (answersTo_iff t t.name).mpr (Or.inl rfl)⟩

theorem declares_of_mem_levels (h : d.build = .ok p) : ∀ l ∈ p.levels, ∀ ref ∈ l.references, d.Declares ref := by
  have hlevels := (Draft.stages_of_build h).levels
  intro l hl
  obtain ⟨l₀, -, hl₀⟩ := (mem_iff_of_mapM hlevels).mp hl
  exact (backed_of_build h).resolveLevel hl₀

theorem declares_of_mem_rules (h : d.build = .ok p) :
    ∀ rule ∈ p.rules, ∀ ref ∈ rule.references, d.Declares ref := by
  intro rule hrule
  obtain ⟨rule₀, -, hrule₀⟩ := (mem_iff_of_mapM (Draft.rules_of_build h)).mp hrule
  exact (backed_of_build h).resolveRule hrule₀

/-- Whatever a built policy refers to has been declared, or it is a permission that a rule lists. -/
theorem declares_of_mem_references {statements : List Statement} (built : Policy.build name statements = .ok p) :
    ∀ ref ∈ p.references, (Draft.ofStatements name statements).Declares ref ∨ ref ∈ p.permissions := by
  have backed := backed_of_build built
  intro ref href
  rw [references, List.mem_append] at href
  refine href.imp_left ?_
  clear href
  revert ref
  simp only [List.forall_mem_append, List.forall_mem_flatMap]
  exact ⟨⟨⟨⟨⟨⟨⟨declares_of_mem_types (Draft.listed_ofStatements name statements) built,
    declares_of_mem_attributes built⟩, backed.inRoles⟩, backed.inUsers⟩, backed.inClasses⟩,
    declares_of_mem_levels built⟩, backed.inInitialSids⟩, declares_of_mem_rules built⟩

def wingedStatements : List Statement := [
  .attribute "domain",
  .type "bird_t" (.ofList ["domain"]),
  .type "nest_t" ∅,
  .alias "bird_t" "wren_t",
  .sensitivity "s0" (.ofList ["low"]),
  .category "c0" ∅,
  .level ⟨"low", .ofList ["c0"]⟩,
  .role "air_r" (.ofList ["domain"]),
  .user "keeper_u" (.ofList ["air_r"]),
  .clearance "keeper_u" ⟨"low", ∅⟩ (.single ⟨"s0", .ofList ["c0"]⟩),
  .boolean "open" true,
  .common "moves" (.ofList ["fly"]),
  .objectClass "sky" (some "moves") (.ofList ["cross"]),
  .initialSid "kernel" ⟨"keeper_u", "air_r", "wren_t", none⟩,
  .rule (.access ⟨.allow, "domain", "self", "sky", .ofList ["cross", "fly"], some ⟨.boolean "open", true⟩⟩),
  .rule (.type ⟨.transition, "wren_t", "nest_t", "sky", "wren_t", none, none⟩)]

/-- Permissions of a class of its own and of those that it shares. -/
def winged : Policy :=
  match Policy.build "winged" wingedStatements with
  | .ok p => p
  | .error _ => (Draft.ofStatements "winged" []).start

theorem build_winged : Policy.build "winged" wingedStatements = .ok winged := by rfl

/-- All permissions are declared here, and so is everything else. -/
theorem exists_declares_of_mem_references_winged :
    Policy.build "winged" wingedStatements = .ok winged ∧
      .boolean "open" ∈ winged.references ∧ .permission "sky" "fly" ∈ winged.references ∧
      ∀ ref ∈ winged.references, (Draft.ofStatements "winged" wingedStatements).Declares ref := by
  have declared : ∀ ref ∈ winged.permissions, (Draft.ofStatements "winged" wingedStatements).Declares ref := by
    decide +kernel
  refine ⟨build_winged, by decide +kernel, by decide +kernel, fun ref href => ?_⟩
  exact (declares_of_mem_references build_winged ref href).elim id (declared ref)

def winglessStatements : List Statement := [
  .type "a_t" ∅,
  .type "b_t" ∅,
  .objectClass "file" none (.ofList ["read"]),
  .rule (.access ⟨.allow, "a_t", "b_t", "file", .ofList ["fly"], none⟩)]

/-- A rule lists a permission that its class does not have. -/
def wingless : Policy :=
  match Policy.build "wingless" winglessStatements with
  | .ok p => p
  | .error _ => (Draft.ofStatements "wingless" []).start

theorem build_wingless : Policy.build "wingless" winglessStatements = .ok wingless := by rfl

theorem not_declares_of_mem_references_wingless :
    Policy.build "wingless" winglessStatements = .ok wingless ∧ .permission "file" "fly" ∈ wingless.references ∧
      ¬ (Draft.ofStatements "wingless" winglessStatements).Declares (.permission "file" "fly") := by
  refine ⟨build_wingless, ?_⟩
  decide +kernel

end Policy

end PolicyAnalysis
