import PolicyAnalysis.Flow.Graph
import PolicyAnalysis.Proofs.Difference.Comparison
import PolicyAnalysis.Proofs.Policy.Matching
import PolicyAnalysis.Transition.Graph

/-!
# Aliases make no difference

Policies built from statements that differ only in how they call types, sensitivities and categories have nothing
between them that a comparison lists, and the same graphs.
-/

namespace PolicyAnalysis

open Checked

variable {d d' : Draft} {p₀ p q : Policy}

theorem Rule.Matches.forall₂_filterMap {ρ : Type} {pick : Rule → Option ρ} {make : ρ → Rule}
    {rules rules' : List Rule} (h : List.Forall₂ (Rule.Matches p₀) rules rules')
    (hpick : ∀ rule a, pick rule = some a → rule = make a)
    (hkind : ∀ rule rule', rule.Matches p₀ rule' → (pick rule).isSome = (pick rule').isSome) :
    List.Forall₂ (fun a b => (make a).Matches p₀ (make b)) (rules.filterMap pick) (rules'.filterMap pick) := by
  refine List.rel_filterMap ?_ h
  intro rule rule' hrule
  have hsome := hkind rule rule' hrule
  cases ha : pick rule with
  | none =>
    rw [ha] at hsome
    rw [Option.isNone_iff_eq_none.mp (Option.isSome_eq_false_iff.mp hsome.symm)]
    exact .none
  | some a =>
    rw [ha] at hsome
    obtain ⟨b, hb⟩ := Option.isSome_iff_exists.mp hsome.symm
    rw [hb]
    exact .some (hpick rule a ha ▸ hpick rule' b hb ▸ hrule)

theorem Rule.Matches.sameEnds {rule rule' : Rule} {source target source' target' : String}
    (h : rule.Matches p rule') (hends : rule.ends? = some (source, target))
    (hends' : rule'.ends? = some (source', target')) :
    p.SameEnds source target source' target' := by
  cases h with
  | same =>
    cases hends.symm.trans hends'
    exact .refl _ _
  | access h | extended h | type h | range h =>
    cases hends
    cases hends'
    exact h
  | role => cases hends

theorem flatMap_eq_of_forall₂ {α β γ : Type} {S : α → β → Prop} {as : List α} {bs : List β} {f : α → List γ}
    {g : β → List γ} (h : List.Forall₂ S as bs) (hfg : ∀ a b, S a b → f a = g b) :
    as.flatMap f = bs.flatMap g := by
  induction h with
  | nil => rfl
  | cons hab _ ih => rw [List.flatMap_cons, List.flatMap_cons, hfg _ _ hab, ih]

namespace Policy.Matches

theorem forall₂_rules (h : Matches p₀ p q) : List.Forall₂ (Rule.Matches p₀) p.rules q.rules := by
  cases h with
  | intro _ hrules => exact hrules

theorem sameRoles (h : Matches p₀ p q) : SameRoles p₀ p.roles q.roles := by
  cases h with
  | intro hroles _ => exact hroles

theorem accessRules (h : Matches p₀ p q) :
    List.Forall₂ (fun a b => Rule.Matches p₀ (.access a) (.access b)) p.accessRules q.accessRules :=
  Rule.Matches.forall₂_filterMap h.forall₂_rules (fun rule a ha => by cases rule <;> simp_all)
    fun rule rule' hrule => by cases hrule <;> rfl

theorem extendedRules (h : Matches p₀ p q) :
    List.Forall₂ (fun a b => Rule.Matches p₀ (.extended a) (.extended b)) p.extendedRules q.extendedRules :=
  Rule.Matches.forall₂_filterMap h.forall₂_rules (fun rule a ha => by cases rule <;> simp_all)
    fun rule rule' hrule => by cases hrule <;> rfl

theorem typeRules (h : Matches p₀ p q) :
    List.Forall₂ (fun a b => Rule.Matches p₀ (.type a) (.type b)) p.typeRules q.typeRules :=
  Rule.Matches.forall₂_filterMap h.forall₂_rules (fun rule a ha => by cases rule <;> simp_all)
    fun rule rule' hrule => by cases hrule <;> rfl

theorem roleRules (h : Matches p₀ p q) :
    List.Forall₂ (fun a b => Rule.Matches p₀ (.role a) (.role b)) p.roleRules q.roleRules :=
  Rule.Matches.forall₂_filterMap h.forall₂_rules (fun rule a ha => by cases rule <;> simp_all)
    fun rule rule' hrule => by cases hrule <;> rfl

theorem rangeRules (h : Matches p₀ p q) :
    List.Forall₂ (fun a b => Rule.Matches p₀ (.range a) (.range b)) p.rangeRules q.rangeRules :=
  Rule.Matches.forall₂_filterMap h.forall₂_rules (fun rule a ha => by cases rule <;> simp_all)
    fun rule rule' hrule => by cases hrule <;> rfl

theorem expand_eq (h : Matches p₀ p q) {name name' : String} (hname : Synonyms p₀.lookupType name name') :
    p.expand name = q.expand name' := by
  cases h with
  | intro => exact Policy.expand_eq hname

theorem expandPairs_eq (h : Matches p₀ p q) {source target source' target' : String}
    (hends : p₀.SameEnds source target source' target') :
    p.expandPairs source target = q.expandPairs source' target' := by
  cases h with
  | intro => exact hends.expandPairs_eq

theorem typeName_eq (h : Matches p₀ p q) : p.typeName = q.typeName := by
  cases h with
  | intro => rfl

theorem members_eq (h : Matches p₀ p q) {name name' : String} (hname : Synonyms p₀.lookupType name name') :
    p.members name = q.members name' := by
  rw [members, members, h.expand_eq hname]

theorem pairNames_eq (h : Matches p₀ p q) {source target source' target' : String}
    (hends : p₀.SameEnds source target source' target') :
    p.pairNames source target = q.pairNames source' target' := by
  simp only [pairNames, namedPairs, h.expandPairs_eq hends, h.typeName_eq]

theorem singleAccessRules_eq (h : Matches p₀ p q) (kind : AccessKind) :
    p.singleAccessRules kind = q.singleAccessRules kind := by
  refine flatMap_eq_of_forall₂ (List.rel_filter ?_ h.accessRules) ?_
  · intro a b hab
    cases hab <;> rfl
  · intro a b hab
    rw [h.pairNames_eq (hab.sameEnds rfl rfl)]
    cases hab <;> rfl

theorem singleExtendedRules_eq (h : Matches p₀ p q) (kind : ExtendedKind) :
    p.singleExtendedRules kind = q.singleExtendedRules kind := by
  refine flatMap_eq_of_forall₂ (List.rel_filter ?_ h.extendedRules) ?_
  · intro a b hab
    cases hab <;> rfl
  · intro a b hab
    rw [h.pairNames_eq (hab.sameEnds rfl rfl)]
    cases hab <;> rfl

theorem singleTypeRules_eq (h : Matches p₀ p q) (kind : TypeRuleKind) :
    p.singleTypeRules kind = q.singleTypeRules kind := by
  refine flatMap_eq_of_forall₂ (List.rel_filter ?_ h.typeRules) ?_
  · intro a b hab
    cases hab <;> rfl
  · intro a b hab
    rw [h.pairNames_eq (hab.sameEnds rfl rfl)]
    cases hab <;> rfl

theorem singleRangeRules_eq (h : Matches p₀ p q) : p.singleRangeRules = q.singleRangeRules := by
  refine flatMap_eq_of_forall₂ h.rangeRules ?_
  intro a b hab
  rw [h.pairNames_eq (hab.sameEnds rfl rfl)]
  cases hab <;> rfl

theorem roleTransitions_eq (h : Matches p₀ p q) :
    p.roleRules.flatMap p.transitionsOf = q.roleRules.flatMap q.transitionsOf := by
  refine flatMap_eq_of_forall₂ h.roleRules ?_
  intro a b hab
  cases hab with
  | same => simp only [transitionsOf, h.members_eq (.refl _), h.typeName_eq]
  | role _ _ htarget => simp only [transitionsOf, h.members_eq htarget, h.typeName_eq]

/-- Steps between roles that are allowed are no transitions, so they match only themselves. -/
theorem roleAllows_eq (h : Matches p₀ p q) : p.roleAllows = q.roleAllows := by
  rw [Policy.roleAllows, Policy.roleAllows]
  generalize p.roleRules = rules, q.roleRules = rules', h.roleRules = hrules
  induction hrules with
  | nil => rfl
  | @cons rule _ _ _ hab _ ih =>
    cases hab with
    | same => by_cases hkind : rule.kind = .allow <;> simp [hkind, ih]
    | role hkind => simp [hkind, ih]

/-- A role that calls its types by other names stands for the same types. -/
theorem expandedRole_types_eq (h : Matches p₀ p q) {role role' : Role} (hrole : role.Renamed p₀ role') :
    (p.expandedRole role).types = (q.expandedRole role').types := by
  have hmembers (id : TypeId) :
      (∃ name ∈ role.types, id ∈ p.members name) ↔ ∃ name ∈ role'.types, id ∈ q.members name :=
    hrole.types.exists_iff fun _ _ hname => by rw [h.members_eq hname]
  ext name
  simp only [expandedRole, h.typeName_eq, Std.ExtTreeSet.mem_ofList, List.contains_iff_mem, List.mem_map,
    List.mem_flatMap, Std.ExtTreeSet.mem_toList, hmembers]

end Policy.Matches

theorem Reading.view_roles (h : p.Filed) (k : String) :
    roles.view p k = (p.roles[k]?).map fun role => (p.expandedRole role).types := by
  have hitems : itemsWith (fun r : ExpandedRole => r.role.name) (p.roles.values.map p.expandedRole) k =
      (itemsWith Role.name p.roles.values k).map p.expandedRole := List.filter_map
  rw [h.roles.getElem?_eq_head?, ← Function.comp_def, ← Option.map_map, ← List.head?_map, ← hitems]
  rfl

theorem Reading.view_eq {R : Reading} (h : R.items p = R.items q) : R.view p = R.view q := by
  funext k
  rw [view, view, item?, item?, h]

namespace Policy.Matches

theorem view_roles_eq (h : Matches p₀ p q) (hp : p.Filed) (hq : q.Filed) :
    Reading.roles.view p = Reading.roles.view q := by
  funext (k : String)
  refine (Reading.view_roles hp k).trans (Eq.trans ?_ (Reading.view_roles hq k).symm)
  generalize p.roles[k]? = x, q.roles[k]? = y, h.sameRoles k = hk
  cases hk with
  | none => rfl
  | some hrole => exact congrArg some (h.expandedRole_types_eq hrole)

theorem filterMap_rules_eq (h : Matches p₀ p q) {ρ : Type} {pick : Rule → Option ρ}
    (hpick : ∀ rule rule', rule.Matches p₀ rule' → pick rule = pick rule') :
    p.rules.filterMap pick = q.rules.filterMap pick := by
  generalize p.rules = rules, q.rules = rules', h.forall₂_rules = hrules
  induction hrules with
  | nil => rfl
  | cons hrule _ ih => rw [List.filterMap_cons, List.filterMap_cons, hpick _ _ hrule, ih]

open Reading in
theorem views_eq (h : Matches p₀ p q) (hp : p.Filed) (hq : q.Filed) :
    ∀ R ∈ Reading.all, R.view p = R.view q := by
  have hroles := h.view_roles_eq hp hq
  have haccess := h.singleAccessRules_eq
  have hextended := h.singleExtendedRules_eq
  have htype := h.singleTypeRules_eq
  have hallows := h.roleAllows_eq
  have htransitions := h.roleTransitions_eq
  have hranges := h.singleRangeRules_eq
  have hbounds : p.bounds = q.bounds := h.filterMap_rules_eq fun _ _ hrule => by cases hrule <;> rfl
  have hdefaults : p.defaultRules = q.defaultRules :=
    h.filterMap_rules_eq fun _ _ hrule => by cases hrule <;> rfl
  have hconstraints : p.constraints = q.constraints :=
    h.filterMap_rules_eq fun _ _ hrule => by cases hrule <;> rfl
  have hfilesystems : p.filesystemLabels = q.filesystemLabels :=
    h.filterMap_rules_eq fun _ _ hrule => by cases hrule <;> rfl
  have hpaths : p.pathLabels = q.pathLabels := h.filterMap_rules_eq fun _ _ hrule => by cases hrule <;> rfl
  have hports : p.portLabels = q.portLabels := h.filterMap_rules_eq fun _ _ hrule => by cases hrule <;> rfl
  have hnodes : p.nodeLabels = q.nodeLabels := h.filterMap_rules_eq fun _ _ hrule => by cases hrule <;> rfl
  have hinterfaces : p.interfaceLabels = q.interfaceLabels :=
    h.filterMap_rules_eq fun _ _ hrule => by cases hrule <;> rfl
  have hpkeys : p.pkeyLabels = q.pkeyLabels := h.filterMap_rules_eq fun _ _ hrule => by cases hrule <;> rfl
  have hendports : p.endportLabels = q.endportLabels :=
    h.filterMap_rules_eq fun _ _ hrule => by cases hrule <;> rfl
  have hkinds (kind : ConstraintKind) :
      p.constraints.filter (·.kind = kind) = q.constraints.filter (·.kind = kind) := by rw [hconstraints]
  simp only [Reading.all, List.forall_mem_cons]
  -- What is read off symbols, and off the initial labels at the end, is not even renamed.
  cases h with
  | intro =>
    exact ⟨view_eq rfl, view_eq rfl, hroles, view_eq rfl, view_eq rfl, view_eq rfl, view_eq rfl, view_eq rfl,
      view_eq rfl, view_eq rfl, view_eq rfl,
      view_eq (haccess _), view_eq (haccess _), view_eq (haccess _), view_eq (haccess _),
      view_eq (hextended _), view_eq (hextended _), view_eq (hextended _), view_eq (hextended _),
      view_eq (htype _), view_eq (htype _), view_eq (htype _),
      view_eq hallows, view_eq htransitions, view_eq hranges, view_eq hbounds, view_eq hdefaults,
      view_eq (hkinds _), view_eq (hkinds _), view_eq (hkinds _), view_eq (hkinds _),
      view_eq hfilesystems, view_eq hpaths, view_eq hports, view_eq hnodes, view_eq hinterfaces,
      view_eq hpkeys, view_eq hendports, view_eq rfl, nofun⟩

theorem exists_isEmpty (h : Matches p₀ p q) (hp : d.build = .ok p) (hq : d'.build = .ok q) :
    ∃ c, Comparison.between p q = .ok c ∧ c.isEmpty := by
  have hviews := h.views_eq (filed_of_build hp) (filed_of_build hq)
  have hproperties : p.properties = q.properties := by
    cases h
    rfl
  obtain ⟨c, hc⟩ := Comparison.exists_between hp hq
  obtain ⟨hchanges, hfound⟩ := Comparison.between_eq_ok.mp hc
  refine ⟨c, hc, ?_⟩
  have hempty : ∀ found ∈ c.aspects, found.isEmpty := by
    refine Comparison.forall_mem_right ((List.forall₂_and_left _ _).mpr ⟨hviews, hfound⟩) ?_
    rintro R found ⟨hview, difference, hd, rfl⟩
    exact (Reading.exact_of_difference hp hq hd).isEmpty_iff.mpr hview
  rw [Comparison.isEmpty, hchanges, hproperties, Properties.changes_self, Bool.and_eq_true, List.all_eq_true]
  exact ⟨rfl, hempty⟩

theorem forall₂_zipIdx {α β : Type} {S : α → β → Prop} {as : List α} {bs : List β} (h : List.Forall₂ S as bs)
    (n : Nat) : List.Forall₂ (fun a b => S a.1 b.1 ∧ a.2 = b.2) (as.zipIdx n) (bs.zipIdx n) := by
  induction h generalizing n with
  | nil => exact .nil
  | cons hab _ ih => exact .cons ⟨hab, rfl⟩ (ih (n + 1))

theorem allowRules (h : Matches p₀ p q) (objectClass perm : String) :
    List.Forall₂ (fun a b => Rule.Matches p₀ (.access a.1) (.access b.1) ∧ a.2 = b.2)
      (Grants.allowRules p objectClass perm) (Grants.allowRules q objectClass perm) := by
  refine List.rel_filter ?_ (forall₂_zipIdx h.accessRules 0)
  rintro ⟨a, i⟩ ⟨b, _⟩ ⟨hab, rfl⟩
  cases hab <;> rfl

theorem byPair_eq (h : Matches p₀ p q) (objectClass perm : String) :
    Grants.byPair p objectClass perm = Grants.byPair q objectClass perm := by
  refine congrArg (· >>= _) (mapM_congr_forall₂ ((h.allowRules objectClass perm).imp ?_))
  rintro ⟨a, i⟩ ⟨b, _⟩ ⟨hab, rfl⟩
  simp only [h.expandPairs_eq (hab.sameEnds rfl rfl)]

theorem bySource_eq (h : Matches p₀ p q) (perm : String) : Grants.bySource p perm = Grants.bySource q perm := by
  refine congrArg (· >>= _) (mapM_congr_forall₂ ((h.allowRules Grants.processClass perm).imp ?_))
  rintro ⟨a, i⟩ ⟨b, _⟩ ⟨hab, rfl⟩
  simp only [h.expand_eq (hab.sameEnds rfl rfl).source]

theorem lookupType_eq (h : Matches p₀ p q) : p.lookupType = q.lookupType := by
  cases h
  rfl

theorem defaultDomains_eq (h : Matches p₀ p q) : Grants.defaultDomains p = Grants.defaultDomains q := by
  refine congrArg (· >>= _) (mapM_congr_forall₂ (.imp ?_ (List.rel_filter ?_ (forall₂_zipIdx h.typeRules 0))))
  · rintro ⟨a, i⟩ ⟨b, _⟩ ⟨hab, rfl⟩
    have hdefault : a.default = b.default := by cases hab <;> rfl
    simp only [h.lookupType_eq, hdefault, h.expandPairs_eq (hab.sameEnds rfl rfl)]
  · rintro ⟨a, i⟩ ⟨b, _⟩ ⟨hab, rfl⟩
    cases hab <;> rfl

theorem transitionGraph_eq (h : Matches p₀ p q) : TransitionGraph.ofPolicy p = TransitionGraph.ofPolicy q := by
  simp only [TransitionGraph.ofPolicy, Grants.ofPolicy, h.byPair_eq, h.bySource_eq, h.defaultDomains_eq]

theorem flowGraph_eq (h : Matches p₀ p q) (m : PermissionMap) :
    FlowGraph.ofPolicy p m = FlowGraph.ofPolicy q m := by
  refine foldlM_congr_forall₂ ((forall₂_zipIdx h.accessRules 0).imp ?_) _
  rintro ⟨a, i⟩ ⟨b, _⟩ ⟨hab, rfl⟩ g
  have hkind : a.kind = b.kind := by cases hab <;> rfl
  have hweigh : m.weigh a = m.weigh b := by cases hab <;> rfl
  simp only [FlowGraph.addRule, hkind, hweigh, h.expandPairs_eq (hab.sameEnds rfl rfl)]

end Policy.Matches

/-- Of two lists of statements that differ only in how they call types, sensitivities and categories, one builds a
policy just if the other does. Nothing differs between the policies, and they have the same graphs. -/
theorem Policy.no_difference_of_renamed {name name' : String} {statements statements' : List Statement}
    (renamed : List.Forall₂ (Statement.Renamed (Draft.ofStatements name statements).symbols)
      statements statements') :
    ((∃ p, Policy.build name statements = .ok p) ↔ ∃ q, Policy.build name' statements' = .ok q) ∧
    ∀ p q, Policy.build name statements = .ok p → Policy.build name' statements' = .ok q →
      (∃ c, Comparison.between p q = .ok c ∧ c.isEmpty) ∧
      TransitionGraph.ofPolicy p = TransitionGraph.ofPolicy q ∧
      ∀ m, FlowGraph.ofPolicy p m = FlowGraph.ofPolicy q m := by
  have hbuild := (Draft.Renamed.ofStatements renamed name name').build
  refine ⟨hbuild.exists_iff, ?_⟩
  intro p q hp hq
  have hmatch := hbuild.related hp hq
  exact ⟨hmatch.exists_isEmpty hp hq, hmatch.transitionGraph_eq, hmatch.flowGraph_eq⟩

def vaultStatements (type sensitivity category : String) : List Statement :=
  let low : Level := ⟨sensitivity, ∅⟩
  let high : Level := ⟨sensitivity, .ofList [category]⟩
  [.type "guard_t" ∅, .alias "guard_t" "keeper_t", .type "clerk_t" ∅,
    .objectClass "process" none (.ofList ["dyntransition", "setcurrent"]),
    .sensitivity "s0" (.ofList ["open"]), .category "c0" (.ofList ["gold"]), .level high,
    .role "staff_r" (.ofList [type, "clerk_t"]), .user "staff_u" (.ofList ["staff_r"]),
    .clearance "staff_u" low ⟨low, high⟩,
    .initialSid "kernel" ⟨"staff_u", "staff_r", type, some (.single low)⟩,
    .rule (.access ⟨.allow, type, "clerk_t", "process", .ofList ["dyntransition"], none⟩),
    .rule (.access ⟨.allow, type, "self", "process", .ofList ["setcurrent"], none⟩),
    .rule (.type ⟨.transition, "clerk_t", type, "process", type, none, none⟩),
    .rule (.bound ⟨type, "clerk_t"⟩)]

def vault : Policy :=
  match Policy.build "vault" (vaultStatements "guard_t" "s0" "c0") with
  | .ok p => p
  | .error _ => (Draft.ofStatements "vault" []).start

/-- The same policy by other names. -/
def aliasedVault : Policy :=
  match Policy.build "vault" (vaultStatements "keeper_t" "open" "gold") with
  | .ok p => p
  | .error _ => (Draft.ofStatements "vault" []).start

theorem build_vault : Policy.build "vault" (vaultStatements "guard_t" "s0" "c0") = .ok vault := by rfl

theorem build_aliasedVault : Policy.build "vault" (vaultStatements "keeper_t" "open" "gold") = .ok aliasedVault := by
  rfl

theorem renamed_vault :
    List.Forall₂ (Statement.Renamed (Draft.ofStatements "vault" (vaultStatements "guard_t" "s0" "c0")).symbols)
      (vaultStatements "guard_t" "s0" "c0") (vaultStatements "keeper_t" "open" "gold") := by
  generalize hp : (Draft.ofStatements "vault" (vaultStatements "guard_t" "s0" "c0")).symbols = p
  have htype : Synonyms p.lookupType "guard_t" "keeper_t" := hp ▸ Or.inr ⟨0, rfl, rfl⟩
  have hsensitivity : Synonyms p.resolveSensitivity "s0" "open" := hp ▸ Or.inr ⟨"s0", rfl, rfl⟩
  have hcategory : Synonyms p.resolveCategory "c0" "gold" := hp ▸ Or.inr ⟨"c0", rfl, rfl⟩
  have htypes : SynonymSets p.lookupType (.ofList ["guard_t", "clerk_t"]) (.ofList ["keeper_t", "clerk_t"]) :=
    .of_forall₂ (.cons htype (.cons (.refl _) .nil))
  have hlow : p.SameLevel ⟨"s0", ∅⟩ ⟨"open", ∅⟩ := ⟨hsensitivity, .refl _⟩
  have hhigh : p.SameLevel ⟨"s0", .ofList ["c0"]⟩ ⟨"open", .ofList ["gold"]⟩ :=
    ⟨hsensitivity, .of_forall₂ (.cons hcategory .nil)⟩
  have hkernel : p.SameContext ⟨"staff_u", "staff_r", "guard_t", some (.single ⟨"s0", ∅⟩)⟩
      ⟨"staff_u", "staff_r", "keeper_t", some (.single ⟨"open", ∅⟩)⟩ := ⟨rfl, rfl, htype, .some ⟨hlow, hlow⟩⟩
  have hnotself : "guard_t" = Policy.selfTarget ↔ "keeper_t" = Policy.selfTarget := by decide
  exact .cons (.same _) <| .cons (.same _) <| .cons (.same _) <| .cons (.same _) <| .cons (.same _) <|
    .cons (.same _) <| .cons (.level hhigh) <| .cons (.role htypes) <| .cons (.same _) <|
    .cons (.clearance hlow ⟨hlow, hhigh⟩) <| .cons (.initialSid hkernel) <|
    .cons (.rule (.access ⟨Iff.rfl, htype, .refl _⟩)) <| .cons (.rule (.access ⟨Iff.rfl, htype, .refl _⟩)) <|
    .cons (.rule (.type ⟨hnotself, .refl _, htype⟩ htype)) <| .cons (.rule (.bound htype (.refl _))) .nil

theorem no_difference_of_renamed_vault :
    Policy.build "vault" (vaultStatements "guard_t" "s0" "c0") = .ok vault ∧
      Policy.build "vault" (vaultStatements "keeper_t" "open" "gold") = .ok aliasedVault ∧ vault ≠ aliasedVault ∧
      (∃ c, Comparison.between vault aliasedVault = .ok c ∧ c.isEmpty) ∧
      TransitionGraph.ofPolicy vault = TransitionGraph.ofPolicy aliasedVault ∧
      ∀ m, FlowGraph.ofPolicy vault m = FlowGraph.ofPolicy aliasedVault m := by
  have hsame := (Policy.no_difference_of_renamed renamed_vault).2 vault aliasedVault build_vault build_aliasedVault
  exact ⟨build_vault, build_aliasedVault, by decide +kernel, hsame⟩

end PolicyAnalysis
