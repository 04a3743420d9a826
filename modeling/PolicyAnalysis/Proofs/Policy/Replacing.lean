import PolicyAnalysis.Proofs.Policy.Build

/-!
# Replacing a rule

A statement that adds a rule to a draft adds nothing else, and the rules are resolved against the policy of all
other statements. So if one rule of a policy is replaced, the new policy differs from the old one in that rule
alone.
-/

namespace PolicyAnalysis

open Checked

variable {d : Draft} {p : Policy}

def Statement.rules : Statement → List Rule
  | .rule r => [r]
  | _ => []

theorem Draft.updateType_setRules (d : Draft) (rules : List Rule) (name : String)
    (change : TypeSymbol → TypeSymbol) :
    ({ d with rules } : Draft).updateType name change = { d.updateType name change with rules } := by
  simp only [updateType]
  cases updateFirst? (·.name == name) change d.types <;> rfl

/-- A statement is added to a draft in the same way whatever rules the draft has. -/
theorem Draft.add_setRules (d : Draft) (rules : List Rule) (s : Statement) :
    ({ d with rules } : Draft).add s = { d.add s with rules := rules ++ s.rules } := by
  match s with
  | .rule _ => rfl
  | .alias .. | .permissive .. => simp only [add, Statement.rules, updateType_setRules, List.append_nil]
  | .clearance name .. =>
    simp only [add, Statement.rules, List.append_nil]
    cases updateFirst? (·.name == name) _ d.users <;> rfl
  | .initialSidNumber number _ =>
    simp only [add, Statement.rules, List.append_nil]
    cases initialSidName? number <;> rfl
  | .properties .. | .type .. | .attribute .. | .role .. | .user .. | .boolean .. | .common .. | .objectClass ..
  | .sensitivity .. | .category .. | .level .. | .capability .. | .initialSid .. =>
    simp only [add, addInitialSid, Statement.rules, List.append_nil]

theorem Draft.foldl_add_setRules (statements : List Statement) (d : Draft) (rules : List Rule) :
    statements.foldl add { d with rules } =
      { statements.foldl add d with rules := rules ++ statements.flatMap Statement.rules } := by
  induction statements generalizing d rules with
  | nil => simp
  | cons s statements ih =>
    rw [List.foldl_cons, List.foldl_cons, add_setRules, ih, List.flatMap_cons, List.append_assoc]

/-- Of a statement that adds a rule, nothing else is kept. -/
theorem Draft.ofStatements_rule (name : String) (before after : List Statement) (r : Rule) :
    ofStatements name (before ++ .rule r :: after) = { ofStatements name (before ++ after) with
      rules := before.flatMap Statement.rules ++ r :: after.flatMap Statement.rules } := by
  have hrules : (before.foldl add { name }).rules = before.flatMap Statement.rules := by
    have h := congrArg Draft.rules (foldl_add_setRules before { name } [])
    exact h
  rw [ofStatements, ofStatements, List.foldl_append, List.foldl_append, List.foldl_cons]
  have hadd : (before.foldl add { name }).add (.rule r) =
      { before.foldl add { name } with rules := before.flatMap Statement.rules ++ [r] } := by
    rw [← hrules]
    rfl
  rw [hadd, foldl_add_setRules]
  simp

/-- The rules of a draft are resolved against the policy of everything else. -/
theorem Draft.build_setRules {rules : List Rule} :
    ({ d with rules } : Draft).build = .ok p ↔
      ∃ base, ({ d with rules := [] } : Draft).build = .ok base ∧
        ∃ resolved, rules.mapM base.resolveRule = .ok resolved ∧ { base with rules := resolved } = p := by
  cases d.fault with
  | some e => simp [Draft.build, throw, throwThe, MonadExceptOf.throw, bind, Except.bind]
  | none =>
    simp only [Draft.build, Draft.complete, bind_eq_ok, pure_eq_ok, List.mapM_nil]
    constructor
    · rintro ⟨tables, htables, p₂, h₂, p₃, h₃, p₄, h₄, p₅, h₅, p₆, h₆, levels, hlevels, p₇, h₇, resolved, hrules, rfl⟩
      exact ⟨{ p₇ with rules := [] }, ⟨tables, htables, p₂, h₂, p₃, h₃, p₄, h₄, p₅, h₅, p₆, h₆, levels, hlevels, p₇, h₇,
        [], rfl, rfl⟩, resolved, hrules, rfl⟩
    · rintro ⟨base, ⟨tables, htables, p₂, h₂, p₃, h₃, p₄, h₄, p₅, h₅, p₆, h₆, levels, hlevels, p₇, h₇, _, rfl, rfl⟩,
        resolved, hrules, rfl⟩
      exact ⟨tables, htables, p₂, h₂, p₃, h₃, p₄, h₄, p₅, h₅, p₆, h₆, levels, hlevels, p₇, h₇, resolved, hrules, rfl⟩

/-- A rule among other statements can be replaced by any rule whose names are declared. Nothing but the rule
itself changes in the policy. -/
theorem Policy.build_replace {name : String} {before after : List Statement} {r : Rule}
    (built : Policy.build name (before ++ .rule r :: after) = .ok p) :
    ∃ first resolved last, p.rules = first ++ resolved :: last ∧ p.resolveRule r = .ok resolved ∧
      (before.flatMap Statement.rules).mapM p.resolveRule = .ok first ∧
      (after.flatMap Statement.rules).mapM p.resolveRule = .ok last ∧
      ∀ r' resolved', p.resolveRule r' = .ok resolved' → Policy.build name (before ++ .rule r' :: after) =
        .ok { p with rules := first ++ resolved' :: last } := by
  rw [Policy.build, Draft.ofStatements_rule, Draft.build_setRules] at built
  obtain ⟨base, hbase, rules, hrules, rfl⟩ := built
  simp only [List.mapM_append, List.mapM_cons, bind_eq_ok, pure_eq_ok] at hrules
  obtain ⟨first, hfirst, _, ⟨resolved, hresolved, last, hlast, rfl⟩, rfl⟩ := hrules
  refine ⟨first, resolved, last, rfl, hresolved, hfirst, hlast, ?_⟩
  intro r' resolved' hresolved'
  rw [Policy.build, Draft.ofStatements_rule, Draft.build_setRules]
  refine ⟨base, hbase, first ++ resolved' :: last, ?_, rfl⟩
  simp only [List.mapM_append, List.mapM_cons, bind_eq_ok, pure_eq_ok]
  exact ⟨first, hfirst, _, ⟨resolved', hresolved', last, hlast, rfl⟩, rfl⟩

end PolicyAnalysis
