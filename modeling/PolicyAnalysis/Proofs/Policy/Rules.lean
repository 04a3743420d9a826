import PolicyAnalysis.Proofs.Policy.Names

/-!
# Rules of a built policy

Every rule of a built policy has passed the checks of the build. So the source and target of a rule between
types stand for pairs of types, the booleans that the condition of an access rule names are declared, and the
type that a type rule results in is found under its name.
-/

namespace PolicyAnalysis

def Rule.ends? : Rule → Option (String × String)
  | access rule => some (rule.source, rule.target)
  | extended rule => some (rule.source, rule.target)
  | type rule => some (rule.source, rule.target)
  | range rule => some (rule.source, rule.target)
  | _ => none

namespace Policy

open Checked

variable {d : Draft} {p : Policy} {rule : AccessRule} {source target : String}

structure Declares (p : Policy) (rule : AccessRule) : Prop where
  sources : ∃ ids, p.expand rule.source = .ok ids
  targets : rule.target ≠ selfTarget → ∃ ids, p.expand rule.target = .ok ids
  objectClass : ∃ c, p.lookupClass rule.objectClass = .ok c
  booleans : ∀ place, rule.conditional = some place →
    ∀ name ∈ place.condition.booleans, ∃ b, p.lookupBoolean name = .ok b

theorem pairwise_zipIdx {ρ : Type} (rules : List ρ) :
    rules.zipIdx.Pairwise fun entry entry' => entry.2 < entry'.2 := by
  apply List.pairwise_map.mp
  rw [List.zipIdx_map_snd]
  exact List.pairwise_lt_range'

theorem checkSourceTarget_eq_ok :
    p.checkSourceTarget source target = .ok () ↔
      (∃ ids, p.expand source = .ok ids) ∧ (target ≠ selfTarget → ∃ ids, p.expand target = .ok ids) := by
  rw [checkSourceTarget, bind_eq_ok]
  by_cases hself : target = selfTarget
  · simp [hself, pure_eq_ok, discard_eq_ok]
  · simp [hself, discard_eq_ok]

theorem checkConditional_eq_ok {place : Option Conditional} :
    p.checkConditional place = .ok () ↔
      ∀ c, place = some c → ∀ name ∈ c.condition.booleans, ∃ b, p.lookupBoolean name = .ok b := by
  cases place with
  | none => simp [checkConditional]
  | some c =>
    rw [checkConditional, forM_eq_ok]
    simp only [discard_eq_ok, Std.ExtTreeSet.mem_toList, Option.some.injEq, forall_eq']

/-- Only an access rule resolves to an access rule, namely to itself. -/
theorem resolveRule_eq_access {r : Rule} (h : p.resolveRule r = .ok (.access rule)) :
    r = .access rule ∧ p.Declares rule := by
  cases r with
  | access r =>
    simp only [resolveRule, bind_eq_ok, pure_eq_ok, Rule.access.injEq] at h
    obtain ⟨⟨⟩, hends, ⟨⟩, hclass, ⟨⟩, hconditional, rfl⟩ := h
    obtain ⟨hsources, htargets⟩ := checkSourceTarget_eq_ok.mp hends
    exact ⟨rfl, hsources, htargets, discard_eq_ok.mp hclass, checkConditional_eq_ok.mp hconditional⟩
  | extended _ | type _ | role _ | range _ | bound _ | default _ | constraint _ | filesystem _ | path _
  | port _ | node _ | interface _ | pkey _ | endport _ =>
    simp only [resolveRule, bind_eq_ok, pure_eq_ok, reduceCtorEq, and_false, exists_false] at h

theorem mem_filterMap_iff {ρ : Type} {pick : Rule → Option ρ} {make : ρ → Rule} {rules : List Rule} {rule : ρ}
    (hpick : ∀ r, pick r = some rule ↔ r = make rule) :
    rule ∈ rules.filterMap pick ↔ make rule ∈ rules := by
  rw [List.mem_filterMap]
  constructor
  · intro ⟨r, hr, h⟩
    rwa [← (hpick r).mp h]
  · intro hr
    exact ⟨make rule, hr, (hpick _).mpr rfl⟩

theorem mem_accessRules : rule ∈ p.accessRules ↔ .access rule ∈ p.rules :=
  mem_filterMap_iff fun r => by cases r <;> simp

theorem mem_extendedRules {rule : ExtendedRule} : rule ∈ p.extendedRules ↔ .extended rule ∈ p.rules :=
  mem_filterMap_iff fun r => by cases r <;> simp

theorem mem_typeRules {rule : TypeRule} : rule ∈ p.typeRules ↔ .type rule ∈ p.rules :=
  mem_filterMap_iff fun r => by cases r <;> simp

theorem mem_roleRules {rule : RoleRule} : rule ∈ p.roleRules ↔ .role rule ∈ p.rules :=
  mem_filterMap_iff fun r => by cases r <;> simp

theorem mem_rangeRules {rule : RangeRule} : rule ∈ p.rangeRules ↔ .range rule ∈ p.rules :=
  mem_filterMap_iff fun r => by cases r <;> simp

theorem declares_of_mem_accessRules (h : d.build = .ok p) (hrule : rule ∈ p.accessRules) :
    p.Declares rule := by
  obtain ⟨r, -, hr⟩ := (mem_iff_of_mapM (Draft.rules_of_build h)).mp (mem_accessRules.mp hrule)
  exact (resolveRule_eq_access hr).2

theorem exists_expandPairs (hsources : ∃ ids, p.expand source = .ok ids)
    (htargets : target ≠ selfTarget → ∃ ids, p.expand target = .ok ids) :
    ∃ pairs, p.expandPairs source target = .ok pairs := by
  obtain ⟨sources, hsources⟩ := hsources
  rw [expandPairs, hsources]
  by_cases hself : target = selfTarget
  · simp only [hself, if_true]
    exact ⟨_, rfl⟩
  · obtain ⟨targets, htargets⟩ := htargets hself
    simp only [hself, if_false, htargets]
    exact ⟨_, rfl⟩

theorem Declares.exists_expandPairs (h : p.Declares rule) :
    ∃ pairs, p.expandPairs rule.source rule.target = .ok pairs :=
  Policy.exists_expandPairs h.sources h.targets

theorem checkSourceTarget_of_resolveRule {r r' : Rule} (h : p.resolveRule r = .ok r')
    (hends : r'.ends? = some (source, target)) : p.checkSourceTarget source target = .ok () := by
  cases r with
  | access rule =>
    simp only [resolveRule, bind_eq_ok, pure_eq_ok] at h
    obtain ⟨⟨⟩, hcheck, -, -, -, -, rfl⟩ := h
    cases hends
    exact hcheck
  | extended rule =>
    simp only [resolveRule, bind_eq_ok, pure_eq_ok] at h
    obtain ⟨⟨⟩, hcheck, -, -, rfl⟩ := h
    cases hends
    exact hcheck
  | type rule =>
    simp only [resolveRule, bind_eq_ok, pure_eq_ok] at h
    obtain ⟨⟨⟩, hcheck, -, -, default, -, -, -, rfl⟩ := h
    cases hends
    exact hcheck
  | range rule =>
    simp only [resolveRule, bind_eq_ok, pure_eq_ok] at h
    obtain ⟨⟨⟩, hcheck, -, -, default, -, rfl⟩ := h
    cases hends
    exact hcheck
  | role _ | bound _ | default _ | constraint _ | filesystem _ | path _ | port _ | node _ | interface _
  | pkey _ | endport _ =>
    simp only [resolveRule, bind_eq_ok, pure_eq_ok] at h
    grind [Rule.ends?]

theorem exists_expandPairs_of_mem (h : d.build = .ok p) {r : Rule} (hr : r ∈ p.rules)
    (hends : r.ends? = some (source, target)) : ∃ pairs, p.expandPairs source target = .ok pairs := by
  obtain ⟨r₀, -, hr₀⟩ := (mem_iff_of_mapM (Draft.rules_of_build h)).mp hr
  obtain ⟨hsources, htargets⟩ := checkSourceTarget_eq_ok.mp (checkSourceTarget_of_resolveRule hr₀ hends)
  exact exists_expandPairs hsources htargets

theorem exists_lookupType_of_resolveType (h : p.DistinctNames) {name name' : String}
    (hname : p.resolveType name = .ok name') : ∃ id, p.lookupType name' = .ok id := by
  obtain ⟨id, hid, -⟩ := resolveType_eq_ok.mp (h.resolveType hname)
  exact ⟨id, hid⟩

/-- The default of a type rule is stored under the primary name of its type. -/
theorem exists_lookupType_default (h : d.build = .ok p) {rule : TypeRule} (hrule : rule ∈ p.typeRules) :
    ∃ id, p.lookupType rule.default = .ok id := by
  obtain ⟨r, -, hr⟩ := (mem_iff_of_mapM (Draft.rules_of_build h)).mp (mem_typeRules.mp hrule)
  cases r with
  | type r =>
    simp only [resolveRule, bind_eq_ok, pure_eq_ok, Rule.type.injEq] at hr
    obtain ⟨⟨⟩, -, -, -, default, hdefault, -, -, rfl⟩ := hr
    exact exists_lookupType_of_resolveType (distinctNames_of_build h) hdefault
  | access _ | extended _ | role _ | range _ | bound _ | default _ | constraint _ | filesystem _ | path _
  | port _ | node _ | interface _ | pkey _ | endport _ =>
    simp only [resolveRule, bind_eq_ok, pure_eq_ok, reduceCtorEq, and_false, exists_false] at hr

theorem exists_expand_target (h : d.build = .ok p) {rule : RoleRule} (hrule : rule ∈ p.roleRules)
    {objectClass : String} (hclass : rule.objectClass = some objectClass) :
    ∃ ids, p.expand rule.target = .ok ids := by
  obtain ⟨r, -, hr⟩ := (mem_iff_of_mapM (Draft.rules_of_build h)).mp (mem_roleRules.mp hrule)
  cases r with
  | role r =>
    simp only [resolveRule, bind_eq_ok, pure_eq_ok, Rule.role.injEq] at hr
    obtain ⟨⟨⟩, hcheck, rfl⟩ := hr
    simp only [checkRoleRule, hclass, bind_eq_ok, discard_eq_ok] at hcheck
    obtain ⟨-, -, -, htarget, -⟩ := hcheck
    exact htarget
  | access _ | extended _ | type _ | range _ | bound _ | default _ | constraint _ | filesystem _ | path _
  | port _ | node _ | interface _ | pkey _ | endport _ =>
    simp only [resolveRule, bind_eq_ok, pure_eq_ok, reduceCtorEq, and_false, exists_false] at hr

end Policy

end PolicyAnalysis
