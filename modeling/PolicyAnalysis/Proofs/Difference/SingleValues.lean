import PolicyAnalysis.Proofs.Difference.Agreement

/-!
# Single values under equal views

Many aspects compare one value under each key: the default of a type rule, the parent of a type, the context of
a label. A policy may state several, and the first of them is compared. So policies that do not differ state
something under the same keys, have the same first value under each, and share all that they state under a key
for which they state one value only.
-/

namespace PolicyAnalysis

variable {p q : Policy}

namespace Reading

/-- The readings that see one value under each key, the first of those that are stated. -/
def singleValued : List Reading :=
  [typeRules "type_transitions" .transition, typeRules "type_changes" .change, typeRules "type_members" .member,
    roleTransitions, rangeTransitions, bounds, defaults, levels,
    filesystems, paths, ports, nodes, interfaces, pkeys, endports]

theorem first_of_singleValued {R : Reading} (hR : R ∈ singleValued) : R ∈ all ∧ R.gather = List.head? := by
  simp only [singleValued, List.mem_cons, List.not_mem_nil, or_false] at hR
  rcases hR with rfl | rfl | rfl | rfl | rfl | rfl | rfl | rfl | rfl | rfl | rfl | rfl | rfl | rfl | rfl <;>
    exact ⟨by simp [all], rfl⟩

end Reading

namespace Comparison

/-- Policies that do not differ state something under the same keys, and the first of it is the same. A value that
one of them states alone under its key is stated by the other. -/
theorem sameStatements_of_isEmpty {name name' : String} {statements statements' : List Statement} {c : Comparison}
    (hp : Policy.build name statements = .ok p) (hq : Policy.build name' statements' = .ok q)
    (hc : between p q = .ok c) (hempty : c.isEmpty) :
    ∀ R ∈ Reading.singleValued, ∀ k,
      ((∃ v, R.States p k v) ↔ ∃ v, R.States q k v) ∧ (∀ v, R.Leads p k v ↔ R.Leads q k v) ∧
      (∀ v, R.States p k v → (∀ v', R.States p k v' → v' = v) → R.States q k v) ∧
      ∀ v, R.States q k v → (∀ v', R.States q k v' → v' = v) → R.States p k v := by
  intro R hR k
  obtain ⟨hall, hfirst⟩ := Reading.first_of_singleValued hR
  have hview := view_eq_of_isEmpty hp hq hc hempty R hall
  have hleads (v : R.gauge.Value) : R.Leads p k v ↔ R.Leads q k v := by
    rw [← Reading.view_eq_some_iff hfirst, ← Reading.view_eq_some_iff hfirst, hview]
  refine ⟨?_, hleads, fun v => Reading.states_of_view_eq hfirst hview,
    fun v => Reading.states_of_view_eq hfirst hview.symm⟩
  rw [← Reading.exists_leads_iff hfirst, ← Reading.exists_leads_iff hfirst]
  exact exists_congr hleads

def processStatements : List Statement := [
  .attribute "domain",
  .type "a_t" (.ofList ["domain"]),
  .type "b_t" (.ofList ["domain"]),
  .type "x_t" ∅,
  .type "y_t" ∅,
  .objectClass "process" none (.ofList ["transition"])]

def processRule (source default : String) : Statement :=
  .rule (.type ⟨.transition, source, "x_t", "process", default, none, none⟩)

def processPolicy (name : String) (rules : List Statement) : Policy :=
  match Policy.build name (processStatements ++ rules) with
  | .ok p => p
  | .error _ => (Draft.ofStatements name []).start

/-- One rule for an attribute. -/
def grouped : Policy :=
  processPolicy "grouped" [processRule "domain" "y_t"]

/-- A rule for each type that has the attribute. -/
def spelled : Policy :=
  processPolicy "spelled" [processRule "b_t" "y_t", processRule "a_t" "y_t"]

theorem build_grouped :
    Policy.build "grouped" (processStatements ++ [processRule "domain" "y_t"]) = .ok grouped := by rfl

theorem build_spelled :
    Policy.build "spelled" (processStatements ++ [processRule "b_t" "y_t", processRule "a_t" "y_t"]) =
      .ok spelled := by rfl

/-- What a default for the processes of a type that run `x_t` is matched by. -/
def processKey (source : String) : RuleKey :=
  ⟨source, "x_t", "process", none, none⟩

/-- What the rule for the attribute states for a member, the other policy states by a rule of its own. -/
theorem exists_sameStatements_of_isEmpty_spelled :
    ∃ c, between grouped spelled = .ok c ∧ c.isEmpty ∧
      (Reading.typeRules "type_transitions" .transition).States grouped (processKey "b_t") "y_t" ∧
      (Reading.typeRules "type_transitions" .transition).States spelled (processKey "b_t") "y_t" := by
  obtain ⟨c, hc⟩ := exists_between build_grouped build_spelled
  have hempty : c.isEmpty := by
    cases hc
    decide +kernel
  have hgrouped : (Reading.typeRules "type_transitions" .transition).States grouped (processKey "b_t") "y_t" := by
    refine ⟨⟨.transition, "b_t", "x_t", "process", "y_t", none, none⟩, ?_, rfl, rfl⟩
    show _ ∈ grouped.singleTypeRules .transition
    decide +kernel
  have honly : ∀ rule ∈ grouped.singleTypeRules .transition, rule.default = "y_t" := by decide +kernel
  obtain ⟨-, -, hstates, -⟩ := sameStatements_of_isEmpty build_grouped build_spelled hc hempty
    (.typeRules "type_transitions" .transition) (by simp [Reading.singleValued]) (processKey "b_t")
  refine ⟨c, hc, hempty, hgrouped, hstates "y_t" hgrouped ?_⟩
  rintro _ ⟨rule, hrule, -, rfl⟩
  exact honly rule hrule

/-- Two rules with different defaults for the same processes. -/
def double : Policy :=
  processPolicy "double" [processRule "a_t" "b_t", processRule "a_t" "y_t"]

def single : Policy :=
  processPolicy "single" [processRule "a_t" "b_t"]

theorem build_double :
    Policy.build "double" (processStatements ++ [processRule "a_t" "b_t", processRule "a_t" "y_t"]) =
      .ok double := by rfl

theorem build_single :
    Policy.build "single" (processStatements ++ [processRule "a_t" "b_t"]) = .ok single := by rfl

/-- What a second rule states under the key of a first is not compared. -/
theorem not_sameStatements_of_isEmpty_double :
    ∃ c, between double single = .ok c ∧ c.isEmpty ∧
      (Reading.typeRules "type_transitions" .transition).States double (processKey "a_t") "y_t" ∧
      ¬ (Reading.typeRules "type_transitions" .transition).States single (processKey "a_t") "y_t" := by
  obtain ⟨c, hc⟩ := exists_between build_double build_single
  have hempty : c.isEmpty := by
    cases hc
    decide +kernel
  have honly : ∀ rule ∈ single.singleTypeRules .transition, rule.default ≠ "y_t" := by decide +kernel
  refine ⟨c, hc, hempty, ⟨⟨.transition, "a_t", "x_t", "process", "y_t", none, none⟩, ?_, rfl, rfl⟩, ?_⟩
  · show _ ∈ double.singleTypeRules .transition
    decide +kernel
  · rintro ⟨rule, hrule, -, hvalue⟩
    exact honly rule hrule hvalue

end Comparison

end PolicyAnalysis
