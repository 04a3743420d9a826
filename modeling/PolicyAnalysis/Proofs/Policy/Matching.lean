import PolicyAnalysis.Proofs.Policy.Renaming

/-!
# Policies built from renamed statements

Stage by stage, renamed drafts are built into policies that match: they have the same symbols, and their roles
and rules call the same types, though maybe by other names. Where one build fails, so does the other.
-/

namespace PolicyAnalysis

open Checked

/-- Rules of built policies that are the same but for the names of their sources and targets. -/
inductive Rule.Matches (p : Policy) : Rule → Rule → Prop
  | same (rule : Rule) : Matches p rule rule
  | access {rule : AccessRule} {source target : String} :
      p.SameEnds rule.source rule.target source target →
      Matches p (.access rule) (.access { rule with source, target })
  | extended {rule : ExtendedRule} {source target : String} :
      p.SameEnds rule.source rule.target source target →
      Matches p (.extended rule) (.extended { rule with source, target })
  | type {rule : TypeRule} {source target : String} :
      p.SameEnds rule.source rule.target source target →
      Matches p (.type rule) (.type { rule with source, target })
  | role {rule : RoleRule} {objectClass target : String} :
      rule.kind = .transition → rule.objectClass = some objectClass →
      Synonyms p.lookupType rule.target target → Matches p (.role rule) (.role { rule with target })
  | range {rule : RangeRule} {source target : String} :
      p.SameEnds rule.source rule.target source target →
      Matches p (.range rule) (.range { rule with source, target })

namespace Policy

variable {p₀ p q : Policy}

/-- Tables with the same roles, which may call their types by other names. -/
def SameRoles (p₀ : Policy) (roles roles' : NameTable Role) : Prop :=
  ∀ name : String, Option.Rel (Role.Renamed p₀) roles[name]? roles'[name]?

/-- Policies with the symbols of a third that differ, but for their own names, only in what they call the types of
their roles and rules. -/
inductive Matches (p₀ : Policy) : Policy → Policy → Prop
  | intro {name : String} {roles roles' : NameTable Role} {users : NameTable User} {booleans : NameTable Boolean}
      {commons : NameTable CommonPerms} {classes : NameTable ObjectClass} {levels : List Level}
      {initialSids : NameTable InitialSid} {rules rules' : List Rule} :
      SameRoles p₀ roles roles' → List.Forall₂ (Rule.Matches p₀) rules rules' →
      Matches p₀
        { p₀ with roles, users, booleans, commons, classes, levels, initialSids, rules }
        { p₀ with
          name, roles := roles', users, booleans, commons, classes, levels, initialSids, rules := rules' }

namespace SameRoles

variable {roles roles' : NameTable Role}

theorem contains_eq (h : SameRoles p₀ roles roles') (name : String) :
    roles.contains name = roles'.contains name := by
  rw [Std.ExtTreeMap.contains_eq_isSome_getElem?, Std.ExtTreeMap.contains_eq_isSome_getElem?]
  generalize roles[name]? = x, roles'[name]? = y, h name = hname
  cases hname <;> rfl

theorem insert (h : SameRoles p₀ roles roles') {role role' : Role} (hrole : role.Renamed p₀ role') :
    SameRoles p₀ (roles.insert role.name role) (roles'.insert role'.name role') := by
  intro name
  rw [Std.ExtTreeMap.getElem?_insert, Std.ExtTreeMap.getElem?_insert, hrole.name]
  split
  · exact .some hrole
  · exact h name

theorem insertUnique (h : SameRoles p₀ roles roles') {role role' : Role} (hrole : role.Renamed p₀ role') :
    Parallel (SameRoles p₀) (Policy.insertUnique roles role.name role)
      (Policy.insertUnique roles' role'.name role') := by
  rw [Policy.insertUnique, Policy.insertUnique, h.contains_eq, hrole.name]
  split
  · exact .error _ _
  · rw [← hrole.name]
    exact .ok (hrole.name ▸ h.insert hrole)

end SameRoles

namespace Matches

theorem lookupRole (h : Matches p₀ p q) (name : String) :
    Parallel (Role.Renamed p₀) (p.lookupRole name) (q.lookupRole name) := by
  cases h with
  | @intro _ roles roles' _ _ _ _ _ _ _ _ hroles _ =>
    simp only [Policy.lookupRole]
    generalize roles[name]? = x, roles'[name]? = y, hroles name = hname
    cases hname with
    | none => exact .error _ _
    | some hrole => exact .ok hrole

theorem lookupUser (h : Matches p₀ p q) (name : String) :
    Parallel Eq (p.lookupUser name) (q.lookupUser name) := by
  cases h with
  | intro => exact .refl Eq.refl _

theorem lookupClass (h : Matches p₀ p q) (name : String) :
    Parallel Eq (p.lookupClass name) (q.lookupClass name) := by
  cases h with
  | intro => exact .refl Eq.refl _

theorem expand (h : Matches p₀ p q) {name name' : String} (hname : Synonyms p₀.lookupType name name') :
    Parallel Eq (p.expand name) (q.expand name') := by
  cases h with
  | intro => exact expand_eq hname ▸ .refl Eq.refl _

theorem resolveType (h : Matches p₀ p q) {name name' : String} (hname : Synonyms p₀.lookupType name name') :
    Parallel Eq (p.resolveType name) (q.resolveType name') := by
  cases h with
  | intro => exact resolveType_eq hname ▸ .refl Eq.refl _

theorem resolveLevel (h : Matches p₀ p q) {l l' : Level} (hl : p₀.SameLevel l l') :
    Parallel Eq (p.resolveLevel l) (q.resolveLevel l') := by
  cases h with
  | intro => exact hl.parallel

theorem resolveRange (h : Matches p₀ p q) {r r' : Range} (hr : p₀.SameRange r r') :
    Parallel Eq (p.resolveRange r) (q.resolveRange r') := by
  cases h with
  | intro => exact hr.parallel

theorem resolveContext (h : Matches p₀ p q) {c c' : Context} (hc : p₀.SameContext c c') :
    Parallel Eq (p.resolveContext c) (q.resolveContext c') := by
  obtain ⟨user, role, type, range⟩ := c'
  obtain ⟨rfl, rfl, htype, hrange⟩ := hc
  refine (h.lookupUser c.user).discard.bind_eq fun _ => ?_
  refine (h.lookupRole c.role).discard.bind_eq fun _ => ?_
  refine (h.resolveType htype).bind_eq fun type => ?_
  exact (Parallel.option_mapM hrange fun _ _ hr => h.resolveRange hr).bind_eq fun range => .ok rfl

theorem addRole (h : Matches p₀ p q) {role role' : Role} (hrole : role.Renamed p₀ role') :
    Parallel (Matches p₀) (p.addRole role) (q.addRole role') := by
  cases h with
  | intro hroles hrules =>
    have htypes : Parallel Eq (role.types.toList.forM fun name => discard (p₀.expand name))
        (role'.types.toList.forM fun name => discard (p₀.expand name)) := by
      apply Parallel.of_exists_iff
      · simp only [forM_eq_ok, discard_eq_ok, Std.ExtTreeSet.mem_toList, exists_const]
        exact hrole.types.forall_iff fun _ _ hname => by rw [expand_eq hname]
      · intros
        rfl
    refine htypes.bind_eq fun _ => ?_
    exact (hroles.insertUnique hrole).bind fun _ _ hroles => .ok (.intro hroles hrules)

theorem addUser (h : Matches p₀ p q) {user user' : User} (huser : user.Renamed p₀ user') :
    Parallel (Matches p₀) (p.addUser user) (q.addUser user') := by
  have hlookup : Parallel Eq (user.roles.toList.forM fun name => discard (p.lookupRole name))
      (user.roles.toList.forM fun name => discard (q.lookupRole name)) :=
    .forM (fun name => (h.lookupRole name).discard) _
  obtain ⟨name, roles, level, range⟩ := user'
  obtain ⟨rfl, rfl, hlevel, hrange⟩ := huser
  cases h with
  | intro hroles hrules =>
    refine hlookup.bind_eq fun _ => ?_
    refine (Parallel.option_mapM hlevel fun _ _ h => h.parallel).bind_eq fun level => ?_
    refine (Parallel.option_mapM hrange fun _ _ h => h.parallel).bind_eq fun range => ?_
    refine .bind_same fun users => ?_
    exact .ok (.intro hroles hrules)

theorem addBoolean (h : Matches p₀ p q) (boolean : Boolean) :
    Parallel (Matches p₀) (p.addBoolean boolean) (q.addBoolean boolean) := by
  cases h with
  | intro hroles hrules =>
    refine .bind_same fun booleans => ?_
    exact .ok (.intro hroles hrules)

theorem addCommon (h : Matches p₀ p q) (common : CommonPerms) :
    Parallel (Matches p₀) (p.addCommon common) (q.addCommon common) := by
  cases h with
  | intro hroles hrules =>
    refine .bind_same fun commons => ?_
    exact .ok (.intro hroles hrules)

theorem addClass (h : Matches p₀ p q) (objectClass : ObjectClass) :
    Parallel (Matches p₀) (p.addClass objectClass) (q.addClass objectClass) := by
  cases h with
  | intro hroles hrules =>
    rw [Policy.addClass, Policy.addClass]
    split
    · split
      · exact .error _ _
      · refine .bind_same fun classes => ?_
        exact .ok (.intro hroles hrules)
    · refine .bind_same fun classes => ?_
      exact .ok (.intro hroles hrules)

theorem addInitialSid (h : Matches p₀ p q) {sid sid' : InitialSid} (hsid : sid.Renamed p₀ sid') :
    Parallel (Matches p₀) (p.addInitialSid sid) (q.addInitialSid sid') := by
  have hcontext := h.resolveContext hsid.context
  obtain ⟨name, context⟩ := sid'
  obtain ⟨rfl, -⟩ := hsid
  cases h with
  | intro hroles hrules =>
    refine hcontext.bind_eq fun context => ?_
    refine .bind_same fun initialSids => ?_
    exact .ok (.intro hroles hrules)

theorem checkSourceTarget (h : Matches p₀ p q) {source target source' target' : String}
    (hends : p₀.SameEnds source target source' target') :
    Parallel Eq (p.checkSourceTarget source target) (q.checkSourceTarget source' target') := by
  cases h with
  | intro => exact hends.checkSourceTarget_eq ▸ .refl Eq.refl _

theorem checkConditional (h : Matches p₀ p q) (place : Option Conditional) :
    Parallel Eq (p.checkConditional place) (q.checkConditional place) := by
  cases h with
  | intro => exact .refl Eq.refl _

theorem checkRoleRule (h : Matches p₀ p q) {rule : RoleRule} {target : String}
    (htarget : Synonyms p₀.lookupType rule.target target)
    (hrole : rule.objectClass = none → rule.target = target) :
    Parallel Eq (p.checkRoleRule rule) (q.checkRoleRule { rule with target }) := by
  refine (h.lookupRole rule.source).discard.bind_eq fun _ => ?_
  cases hclass : rule.objectClass with
  | some objectClass =>
    refine (h.expand htarget).discard.bind_eq fun _ => ?_
    refine (h.lookupClass objectClass).discard.bind_eq fun _ => ?_
    cases rule.default with
    | some name => exact (h.lookupRole name).discard
    | none => exact .ok rfl
  | none =>
    rw [← hrole hclass]
    refine (h.lookupRole rule.target).discard.bind_eq fun _ => ?_
    cases rule.default with
    | some name => exact (h.lookupRole name).discard
    | none => exact .ok rfl

theorem resolveRule (h : Matches p₀ p q) {rule rule' : Rule} (hrule : rule.Renamed p₀ rule') :
    Parallel (Rule.Matches p₀) (p.resolveRule rule) (q.resolveRule rule') := by
  cases hrule with
  | access hends =>
    refine (h.checkSourceTarget hends).bind_eq fun _ => ?_
    refine (h.lookupClass _).discard.bind_eq fun _ => ?_
    exact (h.checkConditional _).bind_eq fun _ => .ok (.access hends)
  | extended hends =>
    refine (h.checkSourceTarget hends).bind_eq fun _ => ?_
    exact (h.lookupClass _).discard.bind_eq fun _ => .ok (.extended hends)
  | type hends hdefault =>
    refine (h.checkSourceTarget hends).bind_eq fun _ => ?_
    refine (h.lookupClass _).discard.bind_eq fun _ => ?_
    refine (h.resolveType hdefault).bind_eq fun default => ?_
    exact (h.checkConditional _).bind_eq fun _ => .ok (.type hends)
  | role rule => exact (h.checkRoleRule (.refl _) fun _ => rfl).bind_eq fun _ => .ok (.same _)
  | roleTransition hkind hclass htarget =>
    refine (h.checkRoleRule htarget ?_).bind_eq fun _ => .ok (.role hkind hclass htarget)
    simp [hclass]
  | range hends hdefault =>
    refine (h.checkSourceTarget hends).bind_eq fun _ => ?_
    refine (h.lookupClass _).discard.bind_eq fun _ => ?_
    refine (h.resolveRange hdefault).bind_eq fun default => ?_
    exact .ok (.range hends)
  | bound hparent hchild =>
    refine (h.resolveType hparent).bind_eq fun parent => ?_
    exact (h.resolveType hchild).bind_eq fun _ => .ok (.same _)
  | default rule => exact (h.lookupClass _).discard.bind_eq fun _ => .ok (.same _)
  | constraint rule => exact (h.lookupClass _).discard.bind_eq fun _ => .ok (.same _)
  | filesystem hcontext => exact (h.resolveContext hcontext).bind_eq fun _ => .ok (.same _)
  | path hcontext => exact (h.resolveContext hcontext).bind_eq fun _ => .ok (.same _)
  | port hcontext => exact (h.resolveContext hcontext).bind_eq fun _ => .ok (.same _)
  | node hcontext => exact (h.resolveContext hcontext).bind_eq fun _ => .ok (.same _)
  | interface hcontext hpacket =>
    refine (h.resolveContext hcontext).bind_eq fun context => ?_
    exact (h.resolveContext hpacket).bind_eq fun _ => .ok (.same _)
  | pkey hcontext => exact (h.resolveContext hcontext).bind_eq fun _ => .ok (.same _)
  | endport hcontext => exact (h.resolveContext hcontext).bind_eq fun _ => .ok (.same _)

theorem setLevels (h : Matches p₀ p q) (levels : List Level) :
    Matches p₀ { p with levels } { q with levels } := by
  cases h with
  | intro hroles hrules => exact .intro hroles hrules

theorem setRules (h : Matches p₀ p q) {rules rules' : List Rule}
    (hrules : List.Forall₂ (Rule.Matches p₀) rules rules') :
    Matches p₀ { p with rules } { q with rules := rules' } := by
  cases h with
  | intro hroles _ => exact .intro hroles hrules

end Matches

theorem parallel_addType (t : TypeSymbol) (p : Policy) (name : String) :
    Parallel (fun p q => q = { p with name }) (p.addType t) (addType { p with name } t) := by
  have hclash : ({ p with name } : Policy).clash? t = p.clash? t := rfl
  rw [addType, addType, hclash]
  cases p.clash? t with
  | some name => exact .error _ _
  | none => exact .ok rfl

end Policy

/-- Before any role or rule is added, policies match if they have the same symbols. -/
theorem Draft.parallel_addTypes (d : Draft) (name : String) :
    Parallel (Policy.Matches d.symbols) (d.types.foldlM Policy.addType d.start)
      (d.types.foldlM Policy.addType { d.start with name }) := by
  have hsame : List.Forall₂ Eq d.types d.types := List.forall₂_same.mpr fun _ _ => rfl
  have hfold : Parallel (fun p q => q = { p with name }) (d.types.foldlM Policy.addType d.start)
      (d.types.foldlM Policy.addType { d.start with name }) := by
    refine Parallel.foldlM hsame ?_ rfl
    rintro t _ p _ rfl rfl
    exact Policy.parallel_addType t p name
  refine .of_exists_iff hfold.exists_iff ?_
  intro p q hp hq
  rw [eq_of_foldlM_addType hp, eq_of_foldlM_addType hq]
  have hroles : Policy.SameRoles d.symbols ∅ ∅ := by
    intro k
    simp only [Std.ExtTreeMap.getElem?_empty]
    exact .none
  exact .intro hroles .nil

/-- Of renamed drafts, one is built just if the other is, and the policies match. -/
theorem Draft.Renamed.build {d d' : Draft} (h : d.Renamed d.symbols d') :
    Parallel (Policy.Matches d.symbols) d.build d'.build := by
  have hfault : d'.fault = d.fault := by
    cases h
    rfl
  rw [Draft.build_eq_addTypes, Draft.build_eq_addTypes, hfault]
  cases h with
  | @intro name _ _ _ _ _ hroles husers hlevels hsids hrules =>
    have hsame {α : Type} (l : List α) : List.Forall₂ Eq l l := List.forall₂_same.mpr fun _ _ => rfl
    split
    · exact .error _ _
    refine (d.parallel_addTypes name).bind fun p q h => ?_
    refine (Parallel.foldlM hroles (fun _ _ _ _ hrole h => h.addRole hrole) h).bind fun p q h => ?_
    refine (Parallel.foldlM husers (fun _ _ _ _ huser h => h.addUser huser) h).bind fun p q h => ?_
    refine (Parallel.foldlM (hsame _) (fun b _ _ _ hb h => hb ▸ h.addBoolean b) h).bind fun p q h => ?_
    refine (Parallel.foldlM (hsame _) (fun c _ _ _ hc h => hc ▸ h.addCommon c) h).bind fun p q h => ?_
    refine (Parallel.foldlM (hsame _) (fun c _ _ _ hc h => hc ▸ h.addClass c) h).bind fun p q h => ?_
    refine (Parallel.mapM hlevels fun _ _ hlevel => h.resolveLevel hlevel).bind fun levels levels' heq => ?_
    cases List.forall₂_eq_eq_eq ▸ heq
    have h := h.setLevels levels
    refine (Parallel.foldlM hsids (fun _ _ _ _ hsid h => h.addInitialSid hsid) h).bind fun p q h => ?_
    refine (Parallel.mapM hrules fun _ _ hrule => h.resolveRule hrule).bind fun rules rules' hrules => ?_
    exact .ok (h.setRules hrules)

end PolicyAnalysis
