import PolicyAnalysis.PermissionMap.Form
import PolicyAnalysis.Policy.Form
import PolicyAnalysis.Proofs.Address.Text
import PolicyAnalysis.Proofs.Json.Form
import PolicyAnalysis.Settings.Form

/-!
# Records are read back

Rules, symbols, permission maps and settings are read back from their JSON form, whatever they hold. The check that
is made of a condition when it is read refuses none, and addresses are read back from their text.
-/

namespace PolicyAnalysis

instance : WellNamed AccessKind :=
  ⟨fun a => by cases a <;> decide, by decide⟩

instance : WellNamed ExtendedKind :=
  ⟨fun a => by cases a <;> decide, by decide⟩

instance : WellNamed TypeRuleKind :=
  ⟨fun a => by cases a <;> decide, by decide⟩

instance : WellNamed RoleRuleKind :=
  ⟨fun a => by cases a <;> decide, by decide⟩

instance : WellNamed DefaultKind :=
  ⟨fun a => by cases a <;> decide, by decide⟩

instance : WellNamed DefaultSide :=
  ⟨fun a => by cases a <;> decide, by decide⟩

instance : WellNamed RangePart :=
  ⟨fun a => by cases a <;> decide, by decide⟩

instance : WellNamed ConstraintKind :=
  ⟨fun a => by cases a <;> decide, by decide⟩

instance : WellNamed FilesystemUse :=
  ⟨fun a => by cases a <;> decide, by decide⟩

instance : WellNamed Protocol :=
  ⟨fun a => by cases a <;> decide, by decide⟩

instance : WellNamed Direction :=
  ⟨fun a => by cases a <;> decide, by decide⟩

instance : WellNamed LogLevel :=
  ⟨fun a => by cases a <;> decide, by decide⟩

instance : Lossless Level where
  ofJson?_toJson l := by simp +instances [instToJsonLevel, instOfJsonLevel]

instance : NeverNull Level :=
  ⟨nofun⟩

/-- Levels, ports and keys all have ranges, which are written alike. -/
theorem record_ends {α ρ : Type} [ToJson α] [OfJson α] [Lossless α] (make : α → α → ρ) (low high : α) :
    (do
      let [low, high] ← Json.record? ["low", "high"] (.obj [("low", toJson low), ("high", toJson high)]) | none
      return make (← low.required?) (← high.required?)) = some (make low high) := by
  simp

instance : Lossless Range where
  ofJson?_toJson r := record_ends Range.mk r.low r.high

instance : NeverNull Range :=
  ⟨nofun⟩

instance : Lossless Context where
  ofJson?_toJson c := by simp +instances [instToJsonContext, instOfJsonContext]

namespace Condition

instance : Lossless Token where
  ofJson?_toJson
    | .boolean _ => rfl
    | .not => rfl
    | .binary op => by cases op <;> rfl

theorem ofTokens_tokens (c : Condition) : ofTokens c.tokens = .ok c := by
  rw [ofTokens, dif_pos c.balanced, dif_pos c.size_booleans_le]

end Condition

instance : Lossless Condition where
  ofJson?_toJson c := by
    show (ofJson? (toJson c.tokens)).bind (fun tokens => (Condition.ofTokens tokens).toOption) = some c
    rw [ofJson?_toJson, Option.bind_some, c.ofTokens_tokens]
    rfl

instance : Lossless Conditional where
  ofJson?_toJson c := by simp +instances [instToJsonConditional, instOfJsonConditional]

instance : NeverNull Conditional :=
  ⟨nofun⟩

instance : Lossless AccessRule where
  ofJson?_toJson r := by simp +instances [instToJsonAccessRule, instOfJsonAccessRule]

instance : Lossless ExtendedRule where
  ofJson?_toJson r := by simp +instances [instToJsonExtendedRule, instOfJsonExtendedRule]

instance : Lossless TypeRule where
  ofJson?_toJson r := by simp +instances [instToJsonTypeRule, instOfJsonTypeRule]

instance : Lossless RoleRule where
  ofJson?_toJson r := by simp +instances [instToJsonRoleRule, instOfJsonRoleRule]

instance : Lossless RangeRule where
  ofJson?_toJson r := by simp +instances [instToJsonRangeRule, instOfJsonRangeRule]

instance : Lossless Bound where
  ofJson?_toJson b := by simp +instances [instToJsonBound, instOfJsonBound]

instance : Lossless DefaultRule where
  ofJson?_toJson r := by simp +instances [instToJsonDefaultRule, instOfJsonDefaultRule]

instance : Lossless Constraint where
  ofJson?_toJson c := by simp +instances [instToJsonConstraint, instOfJsonConstraint]

instance : Lossless Address where
  ofJson?_toJson := Address.ofText?_text

instance : Lossless Network where
  ofJson?_toJson n := by simp +instances [instToJsonNetwork, instOfJsonNetwork]

instance : Lossless PortRange where
  ofJson?_toJson r := record_ends PortRange.mk r.low r.high

instance : Lossless PkeyRange where
  ofJson?_toJson r := record_ends PkeyRange.mk r.low r.high

instance : Lossless FilesystemLabel where
  ofJson?_toJson l := by simp +instances [instToJsonFilesystemLabel, instOfJsonFilesystemLabel]

instance : Lossless PathLabel where
  ofJson?_toJson l := by simp +instances [instToJsonPathLabel, instOfJsonPathLabel]

instance : Lossless PortLabel where
  ofJson?_toJson l := by simp +instances [instToJsonPortLabel, instOfJsonPortLabel]

instance : Lossless NodeLabel where
  ofJson?_toJson l := by simp +instances [instToJsonNodeLabel, instOfJsonNodeLabel]

instance : Lossless InterfaceLabel where
  ofJson?_toJson l := by simp +instances [instToJsonInterfaceLabel, instOfJsonInterfaceLabel]

instance : Lossless PkeyLabel where
  ofJson?_toJson l := by simp +instances [instToJsonPkeyLabel, instOfJsonPkeyLabel]

instance : Lossless EndportLabel where
  ofJson?_toJson l := by simp +instances [instToJsonEndportLabel, instOfJsonEndportLabel]

/-- A rule is told by the name of its only field. -/
instance : Lossless Rule where
  ofJson?_toJson rule := by
    cases rule <;> simp +instances [instToJsonRule, instOfJsonRule, Json.variant?, ofJson?_toJson]

instance : Lossless TypeSymbol where
  ofJson?_toJson t := by simp +instances [instToJsonTypeSymbol, instOfJsonTypeSymbol]

instance : Lossless User where
  ofJson?_toJson u := by simp +instances [instToJsonUser, instOfJsonUser]

instance : Lossless ObjectClass where
  ofJson?_toJson c := by simp +instances [instToJsonObjectClass, instOfJsonObjectClass]

instance : Lossless Mapping where
  ofJson?_toJson x := by simp +instances [instToJsonMapping, instOfJsonMapping]

instance : Lossless PermissionMap where
  ofJson?_toJson m := by
    show (ofJson? (toJson m.classes)).map PermissionMap.mk = some m
    rw [ofJson?_toJson, Option.map_some]

instance : Lossless FlowSettings where
  ofJson?_toJson s := by simp +instances [instToJsonFlowSettings, instOfJsonFlowSettings]

instance : Lossless TransitionSettings where
  ofJson?_toJson s := by simp +instances [instToJsonTransitionSettings, instOfJsonTransitionSettings]

instance : Lossless PathSettings where
  ofJson?_toJson s := by simp +instances [instToJsonPathSettings, instOfJsonPathSettings]

instance : Lossless LogSettings where
  ofJson?_toJson s := by simp +instances [instToJsonLogSettings, instOfJsonLogSettings]

instance : Lossless Settings where
  ofJson?_toJson s := by simp +instances [instToJsonSettings, instOfJsonSettings]

/-- Nothing is lost in the JSON form of a value. -/
theorem json_lossless :
    (∀ rule : Rule, ofJson? (toJson rule) = some rule) ∧
      (∀ m : PermissionMap, ofJson? (toJson m) = some m) ∧
      (∀ t : TypeSymbol, ofJson? (toJson t) = some t) ∧
      (∀ u : User, ofJson? (toJson u) = some u) ∧
      (∀ c : ObjectClass, ofJson? (toJson c) = some c) ∧
      (∀ s : Settings, ofJson? (toJson s) = some s) ∧
      (∀ c : Condition, Condition.ofTokens c.tokens = .ok c) ∧
      ∀ a : Address, Address.ofText? a.text = some a :=
  ⟨ofJson?_toJson, ofJson?_toJson, ofJson?_toJson, ofJson?_toJson, ofJson?_toJson, ofJson?_toJson,
    Condition.ofTokens_tokens, Address.ofText?_text⟩

end PolicyAnalysis
