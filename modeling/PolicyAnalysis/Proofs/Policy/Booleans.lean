import PolicyAnalysis.Proofs.Condition.TruthTable
import PolicyAnalysis.Proofs.Policy.Rules

/-!
# Conditional rules of a built policy

Whether a conditional rule of a built policy counts can always be found out, for any choice of states for
some of the declared booleans. Only a choice for one that is not declared makes the question fail.
-/

namespace PolicyAnalysis

def Rule.conditional? : Rule → Option Conditional
  | access rule => rule.conditional
  | type rule => rule.conditional
  | _ => none

namespace Policy

open Checked

variable {d : Draft} {p : Policy} {rule : AccessRule} {overrides : NameTable Bool} {place : Conditional}

/-- The rules at a place count when some booleans are not in their declared state. -/
def Active (p : Policy) (overrides : NameTable Bool) (place : Conditional) : Prop :=
  ∃ values : NameTable Bool, place.isEnabled values = .ok true ∧
    ∀ name : String, values[name]? = (overrides[name]?).or ((p.booleans[name]?).map Boolean.state)

theorem lookupBoolean_eq_ok {name : String} {b : Boolean} :
    p.lookupBoolean name = .ok b ↔ p.booleans[name]? = some b := by
  rw [lookupBoolean]
  cases p.booleans[name]? <;> simp

theorem booleanValues_eq_ok {values : NameTable Bool} :
    p.booleanValues overrides = .ok values ↔
      (∀ name ∈ overrides, ∃ b, p.lookupBoolean name = .ok b) ∧
        p.booleanDefaults.insertMany overrides.toList = values := by
  rw [booleanValues, bind_eq_ok, Std.ExtTreeMap.foldl_eq_foldl_toList,
    ← Std.ExtTreeMap.insertMany_list_eq_foldl]
  simp only [forM_eq_ok, discard_eq_ok, Std.ExtTreeMap.mem_keys, pure_eq_ok, exists_and_right, exists_const]

theorem getElem?_booleanValues {values : NameTable Bool} (h : p.booleanValues overrides = .ok values)
    (name : String) : values[name]? = (overrides[name]?).or ((p.booleans[name]?).map Boolean.state) := by
  obtain ⟨-, rfl⟩ := booleanValues_eq_ok.mp h
  cases hname : overrides[name]? with
  | some v =>
    have hmem : (name, v) ∈ overrides.toList := Std.ExtTreeMap.mem_toList_iff_getElem?_eq_some.mpr hname
    rw [Std.ExtTreeMap.getElem?_insertMany_list_of_mem Std.ReflCmp.compare_self
      overrides.distinct_keys_toList hmem, Option.some_or]
  | none =>
    have hkeys : (overrides.toList.map Prod.fst).contains name = false := by
      rw [Std.ExtTreeMap.map_fst_toList_eq_keys, Std.ExtTreeMap.contains_keys,
        Std.ExtTreeMap.contains_eq_isSome_getElem?, hname, Option.isSome_none]
    rw [Std.ExtTreeMap.getElem?_insertMany_list_of_contains_eq_false hkeys, Option.none_or, booleanDefaults,
      Std.ExtTreeMap.getElem?_map]

theorem exists_booleanValues (hoverrides : ∀ name ∈ overrides, name ∈ p.booleans) :
    ∃ values, p.booleanValues overrides = .ok values := by
  refine ⟨_, booleanValues_eq_ok.mpr ⟨?_, rfl⟩⟩
  intro name hname
  exact ⟨_, lookupBoolean_eq_ok.mpr (Std.ExtTreeMap.getElem?_eq_some_getElem (hoverrides name hname))⟩

theorem isEnabled_eq_ok_true_iff (hoverrides : ∀ name ∈ overrides, name ∈ p.booleans) :
    p.isEnabled place overrides = .ok true ↔ p.Active overrides place := by
  obtain ⟨values, hvalues⟩ := exists_booleanValues hoverrides
  have hlookup := getElem?_booleanValues hvalues
  rw [isEnabled, hvalues]
  constructor
  · intro henabled
    exact ⟨values, henabled, hlookup⟩
  · intro ⟨values', henabled, hlookup'⟩
    have heq : values' = values := by
      apply Std.ExtTreeMap.ext_getElem?
      intro name
      rw [hlookup, hlookup']
    rw [heq] at henabled
    exact henabled

theorem assigns_of_declared {values : NameTable Bool} {names : NameSet}
    (hvalues : ∀ name : String, values[name]? = (overrides[name]?).or ((p.booleans[name]?).map Boolean.state))
    (hdeclared : ∀ name ∈ names, ∃ b, p.lookupBoolean name = .ok b) : Assigns values names := by
  intro name hname
  obtain ⟨b, hb⟩ := hdeclared name hname
  rw [hvalues, lookupBoolean_eq_ok.mp hb]
  cases overrides[name]? with
  | some v => exact ⟨v, rfl⟩
  | none => exact ⟨b.state, rfl⟩

/-- Once the overrides are accepted, the booleans that a condition names all have values. -/
theorem exists_isEnabled_of_booleanValues {values : NameTable Bool}
    (hdeclared : ∀ name ∈ place.condition.booleans, ∃ b, p.lookupBoolean name = .ok b)
    (hvalues : p.booleanValues overrides = .ok values) : ∃ active, place.isEnabled values = .ok active := by
  have hassigns := assigns_of_declared (getElem?_booleanValues hvalues) hdeclared
  obtain ⟨v, hv⟩ := place.condition.exists_evaluate hassigns
  refine ⟨v == place.branch, ?_⟩
  simp only [bind, Except.bind, Conditional.isEnabled, hv]
  rfl

theorem exists_isEnabled (hdeclared : ∀ name ∈ place.condition.booleans, ∃ b, p.lookupBoolean name = .ok b)
    (hoverrides : ∀ name ∈ overrides, name ∈ p.booleans) :
    ∃ active, p.isEnabled place overrides = .ok active := by
  obtain ⟨values, hvalues⟩ := exists_booleanValues hoverrides
  rw [isEnabled, hvalues]
  exact exists_isEnabled_of_booleanValues hdeclared hvalues

theorem exists_of_booleanValues_eq_error {e : PolicyError} (h : p.booleanValues overrides = .error e) :
    ∃ name ∈ overrides, name ∉ p.booleans ∧ .unknownBoolean name = e := by
  rw [booleanValues, bind_eq_error] at h
  rcases h with h | ⟨-, -, h⟩
  · obtain ⟨name, hname, h⟩ := exists_of_forM_eq_error h
    rw [discard_eq_error, lookupBoolean] at h
    refine ⟨name, Std.ExtTreeMap.mem_keys.mp hname, ?_⟩
    rw [Std.ExtTreeMap.mem_iff_isSome_getElem?]
    cases hb : p.booleans[name]? with
    | some b => simp [hb] at h
    | none => simpa [hb] using h
  · cases h

theorem exists_of_isEnabled_eq_error {e : PolicyError}
    (hdeclared : ∀ name ∈ place.condition.booleans, ∃ b, p.lookupBoolean name = .ok b)
    (h : p.isEnabled place overrides = .error e) :
    ∃ name ∈ overrides, name ∉ p.booleans ∧ .unknownBoolean name = e := by
  rcases bind_eq_error.mp h with h | ⟨values, hvalues, h⟩
  · exact exists_of_booleanValues_eq_error h
  · obtain ⟨active, hactive⟩ := exists_isEnabled_of_booleanValues hdeclared hvalues
    cases hactive.symm.trans h

theorem active_congr {place' : Conditional} (hidentity : place.identity = place'.identity)
    (hdeclared : ∀ name ∈ place.condition.booleans, ∃ b, p.lookupBoolean name = .ok b) :
    p.Active overrides place ↔ p.Active overrides place' := by
  refine exists_congr fun values => and_congr_left fun hvalues => ?_
  rw [Conditional.isEnabled_congr hidentity (assigns_of_declared hvalues hdeclared)]

theorem checkConditional_of_resolveRule {r r' : Rule} (h : p.resolveRule r = .ok r')
    (hplace : r'.conditional? = some place) : p.checkConditional (some place) = .ok () := by
  cases r with
  | access rule =>
    simp only [resolveRule, bind_eq_ok, pure_eq_ok] at h
    obtain ⟨⟨⟩, -, -, -, ⟨⟩, hcheck, rfl⟩ := h
    rwa [← show rule.conditional = some place from hplace]
  | type rule =>
    simp only [resolveRule, bind_eq_ok, pure_eq_ok] at h
    obtain ⟨⟨⟩, -, -, -, default, -, ⟨⟩, hcheck, rfl⟩ := h
    rwa [← show rule.conditional = some place from hplace]
  | extended _ | role _ | range _ | bound _ | default _ | constraint _ | filesystem _ | path _ | port _ | node _
  | interface _ | pkey _ | endport _ =>
    simp only [resolveRule, bind_eq_ok, pure_eq_ok] at h
    grind [Rule.conditional?]

theorem exists_lookupBoolean_of_mem (h : d.build = .ok p) {r : Rule} (hr : r ∈ p.rules)
    (hplace : r.conditional? = some place) :
    ∀ name ∈ place.condition.booleans, ∃ b, p.lookupBoolean name = .ok b := by
  obtain ⟨r₀, -, hr₀⟩ := (mem_iff_of_mapM (Draft.rules_of_build h)).mp hr
  exact checkConditional_eq_ok.mp (checkConditional_of_resolveRule hr₀ hplace) place rfl

end Policy

end PolicyAnalysis
