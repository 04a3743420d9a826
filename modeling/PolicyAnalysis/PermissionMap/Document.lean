import PolicyAnalysis.PermissionMap.Basic
import PolicyAnalysis.Toml.Form
import PolicyAnalysis.Toml.Parser

/-!
# Permission map documents

A permission map is kept in a TOML document with a table for each class. Reading one checks its weights.
-/

namespace PolicyAnalysis

instance : OfToml Mapping where
  ofToml? v := do
    let [direction, weight, enabled] ← v.record? ["direction", "weight", "enabled"] | none
    return ⟨← Toml.required? direction, ← Toml.required? weight, ← Toml.orElse? true enabled⟩

def PermissionMap.ofText (text : String) : Except Error PermissionMap := do
  match (Toml.parse? text).bind fun entries => ofToml? (.table entries) with
  | some classes =>
    let m := PermissionMap.mk classes
    m.checkWeights
    return m
  | none => throw (SettingsError.unreadable : Error)

end PolicyAnalysis
