import PolicyAnalysis.Proofs.Policy.Synonyms

/-!
# Statements with other names for the same symbols

Building puts the primary name in place of most names, but the names in roles and in the sources and targets of
rules stay as they are written. So if two lists of statements differ only in how they call types, sensitivities
and categories, one builds just if the other does, and the policies differ in those places alone.
-/

namespace PolicyAnalysis

open Checked

/-- The symbols that a draft declares, against which its names are resolved. -/
def Draft.symbols (d : Draft) : Policy :=
  { d.start with types := d.types }

structure Role.Renamed (p : Policy) (role role' : Role) : Prop where
  name : role.name = role'.name
  types : SynonymSets p.lookupType role.types role'.types

structure User.Renamed (p : Policy) (user user' : User) : Prop where
  name : user.name = user'.name
  roles : user.roles = user'.roles
  level : Option.Rel p.SameLevel user.level user'.level
  range : Option.Rel p.SameRange user.range user'.range

structure InitialSid.Renamed (p : Policy) (sid sid' : InitialSid) : Prop where
  name : sid.name = sid'.name
  context : p.SameContext sid.context sid'.context

/-- A rule with other names for its types, and in its levels and contexts. The words of a constraint are left
alone. Of the rules between roles, only a transition is about a type, that of the file. -/
inductive Rule.Renamed (p : Policy) : Rule → Rule → Prop
  | access {rule : AccessRule} {source target : String} :
      p.SameEnds rule.source rule.target source target →
      Renamed p (.access rule) (.access { rule with source, target })
  | extended {rule : ExtendedRule} {source target : String} :
      p.SameEnds rule.source rule.target source target →
      Renamed p (.extended rule) (.extended { rule with source, target })
  | type {rule : TypeRule} {source target default : String} :
      p.SameEnds rule.source rule.target source target → Synonyms p.lookupType rule.default default →
      Renamed p (.type rule) (.type { rule with source, target, default })
  | role (rule : RoleRule) : Renamed p (.role rule) (.role rule)
  | roleTransition {rule : RoleRule} {objectClass target : String} :
      rule.kind = .transition → rule.objectClass = some objectClass →
      Synonyms p.lookupType rule.target target → Renamed p (.role rule) (.role { rule with target })
  | range {rule : RangeRule} {source target : String} {default : Range} :
      p.SameEnds rule.source rule.target source target → p.SameRange rule.default default →
      Renamed p (.range rule) (.range { rule with source, target, default })
  | bound {parent child parent' child' : String} :
      Synonyms p.lookupType parent parent' → Synonyms p.lookupType child child' →
      Renamed p (.bound ⟨parent, child⟩) (.bound ⟨parent', child'⟩)
  | default (rule : DefaultRule) : Renamed p (.default rule) (.default rule)
  | constraint (rule : Constraint) : Renamed p (.constraint rule) (.constraint rule)
  | filesystem {label : FilesystemLabel} {context : Context} :
      p.SameContext label.context context → Renamed p (.filesystem label) (.filesystem { label with context })
  | path {label : PathLabel} {context : Context} :
      p.SameContext label.context context → Renamed p (.path label) (.path { label with context })
  | port {label : PortLabel} {context : Context} :
      p.SameContext label.context context → Renamed p (.port label) (.port { label with context })
  | node {label : NodeLabel} {context : Context} :
      p.SameContext label.context context → Renamed p (.node label) (.node { label with context })
  | interface {label : InterfaceLabel} {context packet : Context} :
      p.SameContext label.context context → p.SameContext label.packet packet →
      Renamed p (.interface label) (.interface { label with context, packet })
  | pkey {label : PkeyLabel} {context : Context} :
      p.SameContext label.context context → Renamed p (.pkey label) (.pkey { label with context })
  | endport {label : EndportLabel} {context : Context} :
      p.SameContext label.context context → Renamed p (.endport label) (.endport { label with context })

/-- A statement that differs from another at most in the names by which it calls types, sensitivities and
categories. What it declares, it declares under the same name. -/
inductive Statement.Renamed (p : Policy) : Statement → Statement → Prop
  | same (s : Statement) : Renamed p s s
  | role {name : String} {types types' : NameSet} :
      SynonymSets p.lookupType types types' → Renamed p (.role name types) (.role name types')
  | clearance {user : String} {level level' : Level} {range range' : Range} :
      p.SameLevel level level' → p.SameRange range range' →
      Renamed p (.clearance user level range) (.clearance user level' range')
  | level {level level' : Level} : p.SameLevel level level' → Renamed p (.level level) (.level level')
  | initialSid {name : String} {context context' : Context} :
      p.SameContext context context' → Renamed p (.initialSid name context) (.initialSid name context')
  | initialSidNumber {number : UInt32} {context context' : Context} :
      p.SameContext context context' →
      Renamed p (.initialSidNumber number context) (.initialSidNumber number context')
  | rule {rule rule' : Rule} : rule.Renamed p rule' → Renamed p (.rule rule) (.rule rule')

variable {p₀ p q : Policy} {d d' : Draft}

theorem Role.Renamed.refl (role : Role) : role.Renamed p role :=
  ⟨rfl, .refl _⟩

theorem User.Renamed.refl (user : User) : user.Renamed p user := by
  refine ⟨rfl, rfl, ?_, ?_⟩
  · cases user.level with
    | none => exact .none
    | some l => exact .some (.refl l)
  · cases user.range with
    | none => exact .none
    | some r => exact .some (.refl r)

theorem InitialSid.Renamed.refl (sid : InitialSid) : sid.Renamed p sid :=
  ⟨rfl, .refl _⟩

theorem Rule.Renamed.refl (rule : Rule) : rule.Renamed p rule := by
  cases rule with
  | access rule => exact .access (.refl _ _)
  | extended rule => exact .extended (.refl _ _)
  | type rule => exact .type (.refl _ _) (.refl _)
  | role rule => exact .role rule
  | range rule => exact .range (.refl _ _) (.refl _)
  | bound rule => exact .bound (.refl _) (.refl _)
  | default rule => exact .default rule
  | constraint rule => exact .constraint rule
  | filesystem label => exact .filesystem (.refl _)
  | path label => exact .path (.refl _)
  | port label => exact .port (.refl _)
  | node label => exact .node (.refl _)
  | interface label => exact .interface (.refl _) (.refl _)
  | pkey label => exact .pkey (.refl _)
  | endport label => exact .endport (.refl _)

inductive Draft.Renamed (p : Policy) (d : Draft) : Draft → Prop
  | intro {name : String} {roles : List Role} {users : List User} {levels : List Level}
      {initialSids : List InitialSid} {rules : List Rule} :
      List.Forall₂ (Role.Renamed p) d.roles roles → List.Forall₂ (User.Renamed p) d.users users →
      List.Forall₂ p.SameLevel d.levels levels → List.Forall₂ (InitialSid.Renamed p) d.initialSids initialSids →
      List.Forall₂ (Rule.Renamed p) d.rules rules →
      Renamed p d { d with name, roles, users, levels, initialSids, rules }

theorem forall₂_updateFirst? {α β : Type} {S : α → β → Prop} {as : List α} {bs : List β}
    (h : List.Forall₂ S as bs) {test : α → Bool} {test' : β → Bool} {change : α → α} {change' : β → β}
    (htest : ∀ a b, S a b → test a = test' b) (hchange : ∀ a b, S a b → S (change a) (change' b)) :
    Option.Rel (List.Forall₂ S) (Draft.updateFirst? test change as) (Draft.updateFirst? test' change' bs) := by
  induction h with
  | nil => exact .none
  | @cons a b as bs hab hrest ih =>
    rw [Draft.updateFirst?, Draft.updateFirst?, htest a b hab]
    split
    · exact .some (.cons (hchange a b hab) hrest)
    · generalize Draft.updateFirst? test change as = x at ih ⊢
      generalize Draft.updateFirst? test' change' bs = y at ih ⊢
      cases ih with
      | none => exact .none
      | some h => exact .some (.cons hab h)

namespace Draft.Renamed

theorem refl (d : Draft) (name : String) : d.Renamed p { d with name } :=
  .intro (List.forall₂_same.mpr fun role _ => .refl role) (List.forall₂_same.mpr fun user _ => .refl user)
    (List.forall₂_same.mpr fun l _ => .refl l) (List.forall₂_same.mpr fun sid _ => .refl sid)
    (List.forall₂_same.mpr fun rule _ => .refl rule)

theorem append_singleton {α : Type} {S : α → α → Prop} {l l' : List α} {a a' : α} (h : List.Forall₂ S l l')
    (ha : S a a') : List.Forall₂ S (l ++ [a]) (l' ++ [a']) :=
  List.rel_append h (.cons ha .nil)

theorem addInitialSid (h : d.Renamed p d') {context context' : Context} (hcontext : p.SameContext context context')
    (name : String) : (d.addInitialSid name context).Renamed p (d'.addInitialSid name context') := by
  cases h with
  | intro hroles husers hlevels hsids hrules =>
    exact .intro hroles husers hlevels (append_singleton hsids ⟨rfl, hcontext⟩) hrules

theorem recordFault (h : d.Renamed p d') (e : PolicyError) : (d.recordFault e).Renamed p (d'.recordFault e) := by
  cases h with
  | intro hroles husers hlevels hsids hrules => exact .intro hroles husers hlevels hsids hrules

theorem updateType (h : d.Renamed p d') (name : String) (change : TypeSymbol → TypeSymbol) :
    (d.updateType name change).Renamed p (d'.updateType name change) := by
  have hfault := h.recordFault (.unknownType name)
  cases h with
  | intro hroles husers hlevels hsids hrules =>
    simp only [Draft.updateType]
    split
    · exact .intro hroles husers hlevels hsids hrules
    · exact hfault

theorem addRole (h : d.Renamed p d') (name : String) {types types' : NameSet}
    (htypes : SynonymSets p.lookupType types types') :
    (d.add (.role name types)).Renamed p (d'.add (.role name types')) := by
  cases h with
  | intro hroles husers hlevels hsids hrules =>
    exact .intro (append_singleton hroles ⟨rfl, htypes⟩) husers hlevels hsids hrules

theorem addClearance (h : d.Renamed p d') (name : String) {level level' : Level} {range range' : Range}
    (hlevel : p.SameLevel level level') (hrange : p.SameRange range range') :
    (d.add (.clearance name level range)).Renamed p (d'.add (.clearance name level' range')) := by
  have hfault := h.recordFault (.unknownUser name)
  cases h with
  | @intro _ _ users _ _ _ hroles husers hlevels hsids hrules =>
    have htest (user user' : User) (h : user.Renamed p user') : (user.name == name) = (user'.name == name) := by
      rw [h.name]
    have hchange (user user' : User) (h : user.Renamed p user') :
        User.Renamed p { user with level := some level, range := some range }
          { user' with level := some level', range := some range' } :=
      ⟨h.name, h.roles, .some hlevel, .some hrange⟩
    have hupdate := forall₂_updateFirst? husers htest hchange
    simp only [Draft.add]
    generalize updateFirst? _ _ d.users = x at hupdate ⊢
    generalize updateFirst? _ _ users = y at hupdate ⊢
    cases hupdate with
    | none => exact hfault
    | some husers => exact .intro hroles husers hlevels hsids hrules

theorem addLevel (h : d.Renamed p d') {level level' : Level} (hlevel : p.SameLevel level level') :
    (d.add (.level level)).Renamed p (d'.add (.level level')) := by
  cases h with
  | intro hroles husers hlevels hsids hrules =>
    exact .intro hroles husers (append_singleton hlevels hlevel) hsids hrules

theorem addInitialSidNumber (h : d.Renamed p d') (number : UInt32) {context context' : Context}
    (hcontext : p.SameContext context context') :
    (d.add (.initialSidNumber number context)).Renamed p (d'.add (.initialSidNumber number context')) := by
  simp only [Draft.add]
  split
  · exact h.addInitialSid hcontext _
  · exact h.recordFault _

theorem addRule (h : d.Renamed p d') {rule rule' : Rule} (hrule : rule.Renamed p rule') :
    (d.add (.rule rule)).Renamed p (d'.add (.rule rule')) := by
  cases h with
  | intro hroles husers hlevels hsids hrules =>
    exact .intro hroles husers hlevels hsids (append_singleton hrules hrule)

theorem addSame (h : d.Renamed p d') (s : Statement) : (d.add s).Renamed p (d'.add s) := by
  match s with
  | .alias type name => exact h.updateType type _
  | .permissive type => exact h.updateType type _
  | .role name types => exact h.addRole name (.refl types)
  | .clearance user level range => exact h.addClearance user (.refl level) (.refl range)
  | .level level => exact h.addLevel (.refl level)
  | .initialSid name context => exact h.addInitialSid (.refl context) name
  | .initialSidNumber number context => exact h.addInitialSidNumber number (.refl context)
  | .rule rule => exact h.addRule (.refl rule)
  | .user name roles =>
    cases h with
    | intro hroles husers hlevels hsids hrules =>
      exact .intro hroles (append_singleton husers (.refl _)) hlevels hsids hrules
  | .properties _ | .type _ _ | .attribute _ | .boolean _ _ | .common _ _ | .objectClass _ _ _
  | .sensitivity _ _ | .category _ _ | .capability _ =>
    cases h with
    | intro hroles husers hlevels hsids hrules => exact .intro hroles husers hlevels hsids hrules

theorem add (h : d.Renamed p d') {s s' : Statement} (hs : s.Renamed p s') : (d.add s).Renamed p (d'.add s') := by
  cases hs with
  | same s => exact h.addSame s
  | role htypes => exact h.addRole _ htypes
  | clearance hlevel hrange => exact h.addClearance _ hlevel hrange
  | level hlevel => exact h.addLevel hlevel
  | initialSid hcontext => exact h.addInitialSid hcontext _
  | initialSidNumber hcontext => exact h.addInitialSidNumber _ hcontext
  | rule hrule => exact h.addRule hrule

theorem ofStatements {statements statements' : List Statement}
    (h : List.Forall₂ (Statement.Renamed p) statements statements') (name name' : String) :
    (Draft.ofStatements name statements).Renamed p (.ofStatements name' statements') :=
  List.rel_foldl (fun _ _ hd _ _ hs => hd.add hs) (refl { name } name') h

end Draft.Renamed

end PolicyAnalysis
