import PolicyAnalysis.Json.Form
import PolicyAnalysis.PermissionMap.Basic

/-!
# The JSON form of permission maps

An object of objects. A mapping counts unless it says otherwise; weights are not checked.
-/

namespace PolicyAnalysis

instance : ToJson Mapping where
  toJson x := .obj [
    ("direction", toJson x.direction),
    ("weight", toJson x.weight),
    ("enabled", toJson x.enabled)]

instance : OfJson Mapping where
  ofJson? j := do
    let [direction, weight, enabled] ← j.record? ["direction", "weight", "enabled"] | none
    return ⟨← direction.required?, ← weight.required?, ← enabled.orElse? true⟩

instance : ToJson PermissionMap := ⟨fun m => toJson m.classes⟩

instance : OfJson PermissionMap := ⟨fun j => (ofJson? j).map PermissionMap.mk⟩

end PolicyAnalysis
