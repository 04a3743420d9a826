import PolicyAnalysis.Proofs.Policy.TypeTables

/-!
# What a built policy is made of

Each stage of a build changes one part of the policy and leaves the others alone. So the types and the table
of attributes of a built policy are those of its draft, and its rules are the rules of the draft resolved
against the built policy itself.
-/

namespace PolicyAnalysis

open Checked

variable {d : Draft} {p q : Policy}

namespace Policy

theorem addType_eq_ok {t : TypeSymbol} :
    p.addType t = .ok q ↔ p.clash? t = none ∧ { p with types := p.types ++ [t] } = q := by
  rw [addType]
  cases p.clash? t <;> simp

theorem eq_of_addRole {role : Role} (h : p.addRole role = .ok q) : q = { p with roles := q.roles } := by
  simp only [addRole, bind_eq_ok, pure_eq_ok] at h
  obtain ⟨-, -, roles, -, rfl⟩ := h
  rfl

theorem eq_of_addUser {user : User} (h : p.addUser user = .ok q) : q = { p with users := q.users } := by
  simp only [addUser, bind_eq_ok, pure_eq_ok] at h
  obtain ⟨-, -, level, -, range, -, users, -, rfl⟩ := h
  rfl

theorem eq_of_addBoolean {boolean : Boolean} (h : p.addBoolean boolean = .ok q) :
    q = { p with booleans := q.booleans } := by
  simp only [addBoolean, bind_eq_ok, pure_eq_ok] at h
  obtain ⟨booleans, -, rfl⟩ := h
  rfl

theorem eq_of_addCommon {common : CommonPerms} (h : p.addCommon common = .ok q) :
    q = { p with commons := q.commons } := by
  simp only [addCommon, bind_eq_ok, pure_eq_ok] at h
  obtain ⟨commons, -, rfl⟩ := h
  rfl

theorem insertUnique_of_addClass {objectClass : ObjectClass} (h : p.addClass objectClass = .ok q) :
    ∃ classes, insertUnique p.classes objectClass.name objectClass = .ok classes ∧ { p with classes } = q := by
  have hrest : (do return { p with classes := ← insertUnique p.classes objectClass.name objectClass } :
      Except PolicyError Policy) = .ok q := by
    rw [addClass] at h
    split at h
    · split at h
      · cases h
      · exact h
    · exact h
  simpa only [bind_eq_ok, pure_eq_ok] using hrest

theorem eq_of_addClass {objectClass : ObjectClass} (h : p.addClass objectClass = .ok q) :
    q = { p with classes := q.classes } := by
  obtain ⟨classes, -, rfl⟩ := insertUnique_of_addClass h
  rfl

theorem eq_of_addInitialSid {sid : InitialSid} (h : p.addInitialSid sid = .ok q) :
    q = { p with initialSids := q.initialSids } := by
  simp only [addInitialSid, bind_eq_ok, pure_eq_ok] at h
  obtain ⟨context, -, initialSids, -, rfl⟩ := h
  rfl

end Policy

/-- Stages that each put a new value in the same part of the policy do so together. -/
theorem eq_of_foldlM {α β : Type} {step : Policy → α → Except PolicyError Policy} {l : List α}
    (part : Policy → β) (put : Policy → β → Policy) (hstep : ∀ a p q, step p a = .ok q → q = put p (part q))
    (put_part : ∀ p, put p (part p) = p) (put_put : ∀ p b b', put (put p b) b' = put p b')
    (h : l.foldlM step p = .ok q) : q = put p (part q) := by
  refine foldlM_induction (fun q => q = put p (part q)) h (put_part p).symm fun a _ q q' hq hq' => ?_
  have := hstep a q q' hq'
  rw [hq, put_put] at this
  exact this

/-- The draft's declarations and rules and the policies between the stages of its build. -/
theorem Draft.build_stages (h : d.build = .ok p) :
    d.fault = none ∧ ∃ p₁ p₂ p₃ p₄ p₅ p₆ p₇ : Policy, ∃ levels,
      d.types.foldlM Policy.addType d.start = .ok p₁ ∧
      d.roles.foldlM Policy.addRole p₁ = .ok p₂ ∧
      d.users.foldlM Policy.addUser p₂ = .ok p₃ ∧
      d.booleans.foldlM Policy.addBoolean p₃ = .ok p₄ ∧
      d.commons.foldlM Policy.addCommon p₄ = .ok p₅ ∧
      d.classes.foldlM Policy.addClass p₅ = .ok p₆ ∧
      d.levels.mapM p₆.resolveLevel = .ok levels ∧
      d.initialSids.foldlM Policy.addInitialSid { p₆ with levels } = .ok p₇ ∧
      d.rules.mapM p₇.resolveRule = .ok p.rules ∧ p = { p₇ with rules := p.rules } := by
  rw [Draft.build_eq_addTypes] at h
  split at h
  · cases h
  next hfault =>
    simp only [Draft.complete, bind_eq_ok, pure_eq_ok] at h
    obtain ⟨p₁, h₁, p₂, h₂, p₃, h₃, p₄, h₄, p₅, h₅, p₆, h₆, levels, hlevels, p₇, h₇, rules, hrules,
      rfl⟩ := h
    exact ⟨Option.eq_none_iff_forall_ne_some.mpr hfault, p₁, p₂, p₃, p₄, p₅, p₆, p₇, levels,
      h₁, h₂, h₃, h₄, h₅, h₆, hlevels, h₇, hrules, rfl⟩

theorem eq_of_foldlM_addType {types : List TypeSymbol} (h : types.foldlM Policy.addType p = .ok q) :
    q = { p with types := p.types ++ types } := by
  induction types generalizing p with
  | nil =>
    rw [List.append_nil]
    exact (pure_eq_ok.mp h).symm
  | cons t types ih =>
    rw [List.foldlM_cons, bind_eq_ok] at h
    obtain ⟨p', hp', h⟩ := h
    obtain ⟨-, rfl⟩ := Policy.addType_eq_ok.mp hp'
    rw [ih h]
    simp

/-- What a draft declares is in the built policy. Each stage starts from a policy with the parts that the built
one has by then. -/
structure Draft.Stages (d : Draft) (p : Policy) : Prop where
  parts : p = { d.start with
    types := d.types, roles := p.roles, users := p.users, booleans := p.booleans, commons := p.commons
    classes := p.classes, levels := p.levels, initialSids := p.initialSids, rules := p.rules }
  types : d.types.foldlM Policy.addType d.start = .ok { d.start with types := p.types }
  roles : d.roles.foldlM Policy.addRole { d.start with types := p.types } =
    .ok { d.start with types := p.types, roles := p.roles }
  users : d.users.foldlM Policy.addUser { d.start with types := p.types, roles := p.roles } =
    .ok { d.start with types := p.types, roles := p.roles, users := p.users }
  booleans : d.booleans.foldlM Policy.addBoolean { p with
      booleans := ∅, commons := ∅, classes := ∅, levels := [], initialSids := ∅, rules := [] } =
    .ok { p with commons := ∅, classes := ∅, levels := [], initialSids := ∅, rules := [] }
  commons : d.commons.foldlM Policy.addCommon { p with
      commons := ∅, classes := ∅, levels := [], initialSids := ∅, rules := [] } =
    .ok { p with classes := ∅, levels := [], initialSids := ∅, rules := [] }
  classes : d.classes.foldlM Policy.addClass { p with
      classes := ∅, levels := [], initialSids := ∅, rules := [] } =
    .ok { p with levels := [], initialSids := ∅, rules := [] }
  levels : d.levels.mapM p.resolveLevel = .ok p.levels
  initialSids : d.initialSids.foldlM Policy.addInitialSid { p with initialSids := ∅, rules := [] } =
    .ok { p with rules := [] }

theorem Draft.stages_of_build (h : d.build = .ok p) : d.Stages p := by
  obtain ⟨-, p₁, p₂, p₃, p₄, p₅, p₆, p₇, levels, h₁, h₂, h₃, h₄, h₅, h₆, hlevels, h₇, -, hp⟩ :=
    Draft.build_stages h
  have e₁ := eq_of_foldlM_addType h₁
  have e₂ := eq_of_foldlM Policy.roles (fun p roles => { p with roles })
    (fun _ _ _ => Policy.eq_of_addRole) (fun _ => rfl) (fun _ _ _ => rfl) h₂
  have e₃ := eq_of_foldlM Policy.users (fun p users => { p with users })
    (fun _ _ _ => Policy.eq_of_addUser) (fun _ => rfl) (fun _ _ _ => rfl) h₃
  have e₄ := eq_of_foldlM Policy.booleans (fun p booleans => { p with booleans })
    (fun _ _ _ => Policy.eq_of_addBoolean) (fun _ => rfl) (fun _ _ _ => rfl) h₄
  have e₅ := eq_of_foldlM Policy.commons (fun p commons => { p with commons })
    (fun _ _ _ => Policy.eq_of_addCommon) (fun _ => rfl) (fun _ _ _ => rfl) h₅
  have e₆ := eq_of_foldlM Policy.classes (fun p classes => { p with classes })
    (fun _ _ _ => Policy.eq_of_addClass) (fun _ => rfl) (fun _ _ _ => rfl) h₆
  have e₇ := eq_of_foldlM Policy.initialSids (fun p initialSids => { p with initialSids })
    (fun _ _ _ => Policy.eq_of_addInitialSid) (fun _ => rfl) (fun _ _ _ => rfl) h₇
  -- Each policy is the one before with a new part, which is all that is left to know about it.
  generalize p₂.roles = roles at e₂
  generalize p₃.users = users at e₃
  generalize p₄.booleans = booleans at e₄
  generalize p₅.commons = commons at e₅
  generalize p₆.classes = classes at e₆
  generalize p₇.initialSids = initialSids at e₇
  generalize p.rules = rules at hp
  subst e₁ e₂ e₃ e₄ e₅ e₆ e₇ hp
  exact ⟨rfl, h₁, h₂, h₃, h₄, h₅, h₆, hlevels, h₇⟩

/-- The stages after that of the types change no type and no attribute. -/
theorem Draft.types_of_build (h : d.build = .ok p) :
    d.types.foldlM Policy.addType d.start = .ok { d.start with types := p.types } ∧ p.types = d.types ∧
      p.attributes = d.attributeTable := by
  have stages := Draft.stages_of_build h
  exact ⟨stages.types, congrArg Policy.types stages.parts, congrArg Policy.attributes stages.parts⟩

theorem Policy.resolveRule_congr_rules (p : Policy) (rules : List Rule) (rule : Rule) :
    ({ p with rules } : Policy).resolveRule rule = p.resolveRule rule := by
  cases rule <;> rfl

/-- Each rule of a built policy is a rule of its draft, resolved against the built policy. -/
theorem Draft.rules_of_build (h : d.build = .ok p) : d.rules.mapM p.resolveRule = .ok p.rules := by
  obtain ⟨-, p₁, p₂, p₃, p₄, p₅, p₆, p₇, levels, -, -, -, -, -, -, -, -, hrules, hp⟩ := Draft.build_stages h
  have hresolve : p.resolveRule = p₇.resolveRule := by
    rw [hp]
    funext rule
    exact p₇.resolveRule_congr_rules p.rules rule
  rw [hresolve]
  exact hrules

end PolicyAnalysis
