import PolicyAnalysis.Proofs.Policy.Levels
import PolicyAnalysis.Proofs.Policy.Names
import PolicyAnalysis.Proofs.Policy.Synonyms
import PolicyAnalysis.Proofs.Policy.Tables

/-!
# Stored names are primary names

What a built policy stores has been resolved: the types that rules result in and that are bounded, the levels and
ranges of users and rules, and all contexts. Resolved again it stays as it is, always as far as types are
concerned, and in levels where no sensitivity and no category is shadowed by an earlier one.
-/

namespace PolicyAnalysis

open Checked

/-- Something that a policy stores with names in it. -/
inductive Mention where
  | type (name : String)
  | sensitivity (name : String)
  | category (name : String)
  | level (l : Level)
  | range (r : Range)
  | context (c : Context)
deriving DecidableEq

def Mention.isLeveled : Mention → Bool
  | type _ => false
  | context c => c.range.isSome
  | sensitivity _ | category _ | level _ | range _ => true

/-- What stands in a rule by primary names. -/
def Rule.mentions : Rule → List Mention
  | type rule => [.type rule.default]
  | range rule => [.range rule.default]
  | bound rule => [.type rule.parent, .type rule.child]
  | filesystem label => [.context label.context]
  | path label => [.context label.context]
  | port label => [.context label.context]
  | node label => [.context label.context]
  | interface label => [.context label.context, .context label.packet]
  | pkey label => [.context label.context]
  | endport label => [.context label.context]
  | access _ | extended _ | role _ | default _ | constraint _ => []

def User.mentions (user : User) : List Mention :=
  user.level.toList.map .level ++ user.range.toList.map .range

namespace Policy

variable {d : Draft} {p q : Policy} {m m' : Mention}

/-- What stands in a policy by primary names. -/
def mentions (p : Policy) : List Mention :=
  p.users.values.flatMap User.mentions ++ p.levels.map .level ++
    p.initialSids.values.map (fun sid => .context sid.context) ++ p.rules.flatMap Rule.mentions

def resolve (p : Policy) : Mention → Except PolicyError Mention
  | .type name => .type <$> p.resolveType name
  | .sensitivity name => .sensitivity <$> p.resolveSensitivity name
  | .category name => .category <$> p.resolveCategory name
  | .level l => .level <$> p.resolveLevel l
  | .range r => .range <$> p.resolveRange r
  | .context c => .context <$> p.resolveContext c

/-- The names in a mention are those of declared symbols, and no aliases. -/
def Primary (p : Policy) : Mention → Prop
  | .type name => ∃ t ∈ p.types, t.name = name
  | .sensitivity name => ∃ s ∈ p.sensitivities, s.name = name
  | .category name => ∃ s ∈ p.categories, s.name = name
  | .level l => p.PrimaryLevel l
  | .range r => p.PrimaryRange r
  | .context c => (∃ t ∈ p.types, t.name = c.type) ∧ ∀ r ∈ c.range, p.PrimaryRange r

/-- Two mentions of the same things, perhaps by other names. -/
inductive SameMention (p : Policy) : Mention → Mention → Prop
  | type {name name' : String} : Synonyms p.lookupType name name' → SameMention p (.type name) (.type name')
  | sensitivity {name name' : String} : Synonyms p.resolveSensitivity name name' →
      SameMention p (.sensitivity name) (.sensitivity name')
  | category {name name' : String} : Synonyms p.resolveCategory name name' →
      SameMention p (.category name) (.category name')
  | level {l l' : Level} : p.SameLevel l l' → SameMention p (.level l) (.level l')
  | range {r r' : Range} : p.SameRange r r' → SameMention p (.range r) (.range r')
  | context {c c' : Context} : p.SameContext c c' → SameMention p (.context c) (.context c')

theorem SameMention.parallel (h : p.SameMention m m') : Parallel Eq (p.resolve m) (p.resolve m') := by
  cases h with
  | type h =>
    rw [resolve, resolve, resolveType_eq h]
    exact .refl Eq.refl _
  | sensitivity h =>
    rw [resolve, resolve, h.resolve_eq]
    exact .refl Eq.refl _
  | category h =>
    rw [resolve, resolve, h.resolve_eq]
    exact .refl Eq.refl _
  | level h => exact h.parallel.map fun _ _ => congrArg _
  | range h => exact h.parallel.map fun _ _ => congrArg _
  | context h => exact h.parallel.map fun _ _ => congrArg _

theorem SameMention.isLeveled_eq (h : p.SameMention m m') : m.isLeveled = m'.isLeveled := by
  cases h with
  | @context c c' h =>
    obtain ⟨user, role, type, range⟩ := c
    obtain ⟨user', role', type', range'⟩ := c'
    obtain ⟨-, -, -, hrange⟩ := h
    cases hrange <;> rfl
  | type | sensitivity | category | level | range => rfl

theorem primary_of_resolve (hm : p.resolve m = .ok m') : p.Primary m' := by
  cases m with
  | type name =>
    obtain ⟨type, htype, rfl⟩ := map_eq_ok.mp hm
    exact exists_type_of_resolveType htype
  | sensitivity name =>
    obtain ⟨name', hname, rfl⟩ := map_eq_ok.mp hm
    exact exists_name_of_resolveSensitivity hname
  | category name =>
    obtain ⟨name', hname, rfl⟩ := map_eq_ok.mp hm
    exact exists_name_of_resolveCategory hname
  | level l =>
    obtain ⟨l', hl, rfl⟩ := map_eq_ok.mp hm
    exact primaryLevel_of_resolveLevel hl
  | range r =>
    obtain ⟨r', hr, rfl⟩ := map_eq_ok.mp hm
    exact primaryRange_of_resolveRange hr
  | context c =>
    obtain ⟨c', hc, rfl⟩ := map_eq_ok.mp hm
    simp only [resolveContext, bind_eq_ok, pure_eq_ok] at hc
    obtain ⟨-, -, -, -, type, htype, range, hrange, rfl⟩ := hc
    refine ⟨exists_type_of_resolveType htype, fun r hr => ?_⟩
    obtain ⟨r₀, -, hr₀⟩ := exists_of_option_mapM hrange hr
    exact primaryRange_of_resolveRange hr₀

theorem DistinctNames.resolveContext (h : p.DistinctNames) {c c' : Context}
    (hclear : c'.range.isSome → p.ClearLevels) (hc : p.resolveContext c = .ok c') :
    p.resolveContext c' = .ok c' := by
  simp only [Policy.resolveContext, bind_eq_ok, pure_eq_ok] at hc
  obtain ⟨⟨⟩, huser, ⟨⟩, hrole, type, htype, range, hrange, rfl⟩ := hc
  have hrange' : range.mapM p.resolveRange = .ok range := by
    cases range with
    | none => rfl
    | some r =>
      obtain ⟨r₀, -, hr⟩ := exists_of_option_mapM hrange rfl
      exact map_eq_ok.mpr ⟨r, (hclear rfl).resolveRange hr, rfl⟩
  simp only [Policy.resolveContext, bind_eq_ok, pure_eq_ok]
  exact ⟨(), huser, (), hrole, type, h.resolveType htype, range, hrange', rfl⟩

theorem DistinctNames.resolve (h : p.DistinctNames) (hclear : m'.isLeveled → p.ClearLevels)
    (hm : p.resolve m = .ok m') : p.resolve m' = .ok m' := by
  cases m with
  | type name =>
    obtain ⟨type, htype, rfl⟩ := map_eq_ok.mp hm
    exact map_eq_ok.mpr ⟨type, h.resolveType htype, rfl⟩
  | sensitivity name =>
    obtain ⟨name', hname, rfl⟩ := map_eq_ok.mp hm
    exact map_eq_ok.mpr ⟨name', (hclear rfl).resolveSensitivity hname, rfl⟩
  | category name =>
    obtain ⟨name', hname, rfl⟩ := map_eq_ok.mp hm
    exact map_eq_ok.mpr ⟨name', (hclear rfl).resolveCategory hname, rfl⟩
  | level l =>
    obtain ⟨l', hl, rfl⟩ := map_eq_ok.mp hm
    exact map_eq_ok.mpr ⟨l', (hclear rfl).resolveLevel hl, rfl⟩
  | range r =>
    obtain ⟨r', hr, rfl⟩ := map_eq_ok.mp hm
    exact map_eq_ok.mpr ⟨r', (hclear rfl).resolveRange hr, rfl⟩
  | context c =>
    obtain ⟨c', hc, rfl⟩ := map_eq_ok.mp hm
    exact map_eq_ok.mpr ⟨c', h.resolveContext hclear hc, rfl⟩

theorem forall₂_mentions {rule rule' : Rule} (h : p.resolveRule rule = .ok rule') :
    List.Forall₂ (fun m m' => p.resolve m = .ok m') rule.mentions rule'.mentions := by
  have hcontext {c c' : Context} (hc : p.resolveContext c = .ok c') :
      p.resolve (.context c) = .ok (.context c') := map_eq_ok.mpr ⟨c', hc, rfl⟩
  have htype {name type : String} (hname : p.resolveType name = .ok type) :
      p.resolve (.type name) = .ok (.type type) := map_eq_ok.mpr ⟨type, hname, rfl⟩
  cases rule with
  | access rule =>
    simp only [resolveRule, bind_eq_ok, pure_eq_ok] at h
    obtain ⟨-, -, -, -, -, -, rfl⟩ := h
    exact .nil
  | extended rule =>
    simp only [resolveRule, bind_eq_ok, pure_eq_ok] at h
    obtain ⟨-, -, -, -, rfl⟩ := h
    exact .nil
  | type rule =>
    simp only [resolveRule, bind_eq_ok, pure_eq_ok] at h
    obtain ⟨-, -, -, -, default, hdefault, -, -, rfl⟩ := h
    exact .cons (htype hdefault) .nil
  | role rule =>
    simp only [resolveRule, bind_eq_ok, pure_eq_ok] at h
    obtain ⟨-, -, rfl⟩ := h
    exact .nil
  | range rule =>
    simp only [resolveRule, bind_eq_ok, pure_eq_ok] at h
    obtain ⟨-, -, -, -, default, hdefault, rfl⟩ := h
    exact .cons (map_eq_ok.mpr ⟨default, hdefault, rfl⟩) .nil
  | bound rule =>
    simp only [resolveRule, bind_eq_ok, pure_eq_ok] at h
    obtain ⟨parent, hparent, child, hchild, rfl⟩ := h
    exact .cons (htype hparent) (.cons (htype hchild) .nil)
  | default rule =>
    simp only [resolveRule, bind_eq_ok, pure_eq_ok] at h
    obtain ⟨-, -, rfl⟩ := h
    exact .nil
  | constraint rule =>
    simp only [resolveRule, bind_eq_ok, pure_eq_ok] at h
    obtain ⟨-, -, rfl⟩ := h
    exact .nil
  | interface label =>
    simp only [resolveRule, bind_eq_ok, pure_eq_ok] at h
    obtain ⟨context, hc, packet, hpacket, rfl⟩ := h
    exact .cons (hcontext hc) (.cons (hcontext hpacket) .nil)
  | filesystem label | path label | port label | node label | pkey label | endport label =>
    simp only [resolveRule, bind_eq_ok, pure_eq_ok] at h
    obtain ⟨context, hc, rfl⟩ := h
    exact .cons (hcontext hc) .nil

/-- The levels and ranges of users are resolved as they are added, before there are labels. -/
theorem exists_resolve_users (h : d.build = .ok p) :
    ∀ user ∈ p.users.values, ∀ m ∈ user.mentions, ∃ written, p.resolve written = .ok m := by
  have stages := Draft.stages_of_build h
  refine (foldlM_induction (fun q => q = { d.start with types := p.types, roles := p.roles, users := q.users } ∧
    ∀ user ∈ q.users.values, ∀ m ∈ user.mentions, ∃ written, p.resolve written = .ok m) stages.users ?_ ?_).2
  · exact ⟨rfl, by simp [mem_values, Draft.start, Draft.ofTables]⟩
  · rintro user - q q' ⟨hq, hall⟩ hadd
    have hlevel : q.resolveLevel = p.resolveLevel := by
      rw [hq, stages.parts]
      rfl
    have hrange : q.resolveRange = p.resolveRange := by
      rw [hq, stages.parts]
      rfl
    simp only [addUser, bind_eq_ok, pure_eq_ok, hlevel, hrange] at hadd
    obtain ⟨-, -, level, hl, range, hr, users, hinsert, rfl⟩ := hadd
    refine ⟨by rw [hq], forall_mem_values_insertUnique hall ?_ hinsert⟩
    intro m hm
    rcases List.mem_append.mp hm with hm | hm
    · obtain ⟨l, hmem, rfl⟩ := List.mem_map.mp hm
      obtain ⟨l₀, -, hl₀⟩ := exists_of_option_mapM hl (Option.mem_toList.mp hmem)
      exact ⟨.level l₀, map_eq_ok.mpr ⟨l, hl₀, rfl⟩⟩
    · obtain ⟨r, hmem, rfl⟩ := List.mem_map.mp hm
      obtain ⟨r₀, -, hr₀⟩ := exists_of_option_mapM hr (Option.mem_toList.mp hmem)
      exact ⟨.range r₀, map_eq_ok.mpr ⟨r, hr₀, rfl⟩⟩

theorem exists_resolve_initialSids (h : d.build = .ok p) :
    ∀ sid ∈ p.initialSids.values, ∃ written, p.resolve written = .ok (.context sid.context) := by
  have hsids := (Draft.stages_of_build h).initialSids
  refine (foldlM_induction (fun q => q = { p with initialSids := q.initialSids, rules := [] } ∧
    ∀ sid ∈ q.initialSids.values, ∃ written, p.resolve written = .ok (.context sid.context)) hsids ?_ ?_).2
  · exact ⟨rfl, by simp [mem_values]⟩
  · rintro sid - q q' ⟨hq, hall⟩ hadd
    have hcontext : q.resolveContext = p.resolveContext := by
      rw [hq]
      rfl
    simp only [addInitialSid, bind_eq_ok, pure_eq_ok, hcontext] at hadd
    obtain ⟨context, hc, initialSids, hinsert, rfl⟩ := hadd
    refine ⟨by rw [hq], forall_mem_values_insertUnique hall ?_ hinsert⟩
    exact ⟨.context sid.context, map_eq_ok.mpr ⟨context, hc, rfl⟩⟩

theorem exists_resolve_mentions (h : d.build = .ok p) :
    ∀ m ∈ p.mentions, ∃ written, p.resolve written = .ok m := by
  intro m hm
  simp only [mentions, List.mem_append, List.mem_flatMap, List.mem_map] at hm
  rcases hm with ((⟨user, huser, hm⟩ | ⟨l, hl, rfl⟩) | ⟨sid, hsid, rfl⟩) | ⟨rule, hrule, hm⟩
  · exact exists_resolve_users h user huser m hm
  · have hlevels := (Draft.stages_of_build h).levels
    obtain ⟨l₀, -, hl₀⟩ := (mem_iff_of_mapM hlevels).mp hl
    exact ⟨.level l₀, map_eq_ok.mpr ⟨l, hl₀, rfl⟩⟩
  · exact exists_resolve_initialSids h sid hsid
  · obtain ⟨rule₀, -, hrule₀⟩ := (mem_iff_of_mapM (Draft.rules_of_build h)).mp hrule
    obtain ⟨written, -, hwritten⟩ := exists_mem_of_forall₂ (forall₂_mentions hrule₀).flip m hm
    exact ⟨written, hwritten⟩

/-- What a built policy stores has been resolved to primary names. Resolved again, it stays as it is, and so does
anything that resolves at all. So no two stored mentions are of the same things by different names. Where there are
levels, no sensitivity and no category may be shadowed. -/
theorem mentions_canonical {name : String} {statements : List Statement}
    (built : Policy.build name statements = .ok p) :
    (∀ m ∈ p.mentions, p.Primary m ∧ ∃ written, p.resolve written = .ok m) ∧
    (∀ m m', (m'.isLeveled → p.ClearLevels) → p.resolve m = .ok m' → p.resolve m' = .ok m') ∧
    (∀ m ∈ p.mentions, (m.isLeveled → p.ClearLevels) → p.resolve m = .ok m) ∧
    ∀ m ∈ p.mentions, ∀ m' ∈ p.mentions, (m.isLeveled → p.ClearLevels) → p.SameMention m m' → m = m' := by
  have stored := exists_resolve_mentions built
  have distinct := distinctNames_of_build built
  have fixed : ∀ m ∈ p.mentions, (m.isLeveled → p.ClearLevels) → p.resolve m = .ok m := by
    intro m hm hclear
    obtain ⟨written, hwritten⟩ := stored m hm
    exact distinct.resolve hclear hwritten
  have primary : ∀ m ∈ p.mentions, p.Primary m := by
    intro m hm
    obtain ⟨written, hwritten⟩ := stored m hm
    exact primary_of_resolve hwritten
  refine ⟨fun m hm => ⟨primary m hm, stored m hm⟩, fun m m' hclear hm => distinct.resolve hclear hm, fixed, ?_⟩
  intro m hm m' hm' hclear hsame
  exact hsame.parallel.related (fixed m hm hclear) (fixed m' hm' (hsame.isLeveled_eq ▸ hclear))

def aliasedStatements : List Statement := [
  .type "new_t" ∅,
  .type "child_t" ∅,
  .alias "new_t" "old_t",
  .role "object_r" (.ofList ["new_t"]),
  .sensitivity "s0" (.ofList ["public"]),
  .sensitivity "s1" (.ofList ["secret"]),
  .category "c0" (.ofList ["medical"]),
  .level ⟨"secret", .ofList ["medical"]⟩,
  .user "staff_u" (.ofList ["object_r"]),
  .clearance "staff_u" ⟨"public", ∅⟩ ⟨⟨"public", ∅⟩, ⟨"secret", .ofList ["c0"]⟩⟩,
  .initialSid "kernel" ⟨"staff_u", "object_r", "old_t", some (.single ⟨"s1", .ofList ["medical"]⟩)⟩,
  .rule (.bound ⟨"old_t", "child_t"⟩)]

/-- Written with aliases of a type, of sensitivities and of a category. -/
def aliased : Policy :=
  match Policy.build "aliased" aliasedStatements with
  | .ok p => p
  | .error _ => (Draft.ofStatements "aliased" []).start

theorem build_aliased : Policy.build "aliased" aliasedStatements = .ok aliased := by rfl

theorem clearLevels_aliased : aliased.ClearLevels :=
  ⟨by decide +kernel, by decide +kernel⟩

/-- The declared level is stored by its primary names, and so is the parent. -/
theorem exists_mentions_canonical_aliased :
    Policy.build "aliased" aliasedStatements = .ok aliased ∧ aliased.ClearLevels ∧
      .level ⟨"s1", .ofList ["c0"]⟩ ∈ aliased.mentions ∧
      aliased.resolve (.level ⟨"s1", .ofList ["c0"]⟩) = .ok (.level ⟨"s1", .ofList ["c0"]⟩) ∧
      .type "new_t" ∈ aliased.mentions ∧ aliased.resolve (.type "new_t") = .ok (.type "new_t") ∧
      ∀ m ∈ aliased.mentions, ∀ m' ∈ aliased.mentions, aliased.SameMention m m' → m = m' := by
  obtain ⟨-, -, fixed, same⟩ := mentions_canonical build_aliased
  have hlevel : .level ⟨"s1", .ofList ["c0"]⟩ ∈ aliased.mentions := by decide +kernel
  have htype : .type "new_t" ∈ aliased.mentions := by decide +kernel
  exact ⟨build_aliased, clearLevels_aliased, hlevel, fixed _ hlevel fun _ => clearLevels_aliased, htype,
    fixed _ htype nofun, fun m hm m' hm' => same m hm m' hm' fun _ => clearLevels_aliased⟩

def shadowedStatements : List Statement := [
  .sensitivity "s0" (.ofList ["s1"]),
  .sensitivity "s1" (.ofList ["secret"]),
  .level ⟨"secret", ∅⟩,
  .level ⟨"s1", ∅⟩]

/-- The name of the second sensitivity is an alias of the first. -/
def shadowed : Policy :=
  match Policy.build "shadowed" shadowedStatements with
  | .ok p => p
  | .error _ => (Draft.ofStatements "shadowed" []).start

theorem build_shadowed : Policy.build "shadowed" shadowedStatements = .ok shadowed := by rfl

/-- An alias of the second sensitivity is resolved to its name, and this name to the first. So the two declared
levels are stored under different names, although they are the same. -/
theorem not_mentions_canonical_shadowed :
    Policy.build "shadowed" shadowedStatements = .ok shadowed ∧
      shadowed.resolve (.sensitivity "secret") = .ok (.sensitivity "s1") ∧
      shadowed.resolve (.sensitivity "s1") = .ok (.sensitivity "s0") ∧
      .level ⟨"s1", ∅⟩ ∈ shadowed.mentions ∧ .level ⟨"s0", ∅⟩ ∈ shadowed.mentions ∧
      shadowed.resolve (.level ⟨"s1", ∅⟩) = .ok (.level ⟨"s0", ∅⟩) ∧
      shadowed.resolve (.level ⟨"s0", ∅⟩) = .ok (.level ⟨"s0", ∅⟩) := by
  refine ⟨build_shadowed, ?_⟩
  decide +kernel

end Policy

end PolicyAnalysis
