import PolicyAnalysis.Json.Form
import PolicyAnalysis.Settings.Basic

/-!
# The JSON form of settings

Whatever is missing takes the value it has when nothing is said.
-/

namespace PolicyAnalysis

instance : ToJson FlowSettings where
  toJson s := .obj [
    ("min_weight", toJson s.minWeight),
    ("exclude", toJson s.exclude),
    ("booleans", toJson s.booleans)]

instance : OfJson FlowSettings where
  ofJson? j := do
    let [minWeight, exclude, booleans] ← j.record? ["min_weight", "exclude", "booleans"] | none
    return ⟨← minWeight.orElse? 1, ← exclude.orElse? [], ← booleans.orElse? none⟩

instance : ToJson TransitionSettings where
  toJson s := .obj [("reverse", toJson s.reverse), ("exclude", toJson s.exclude)]

instance : OfJson TransitionSettings where
  ofJson? j := do
    let [reverse, exclude] ← j.record? ["reverse", "exclude"] | none
    return ⟨← reverse.orElse? false, ← exclude.orElse? []⟩

instance : ToJson PathSettings where
  toJson s := .obj [("max_length", toJson s.maxLength)]

instance : OfJson PathSettings where
  ofJson? j := do
    let [maxLength] ← j.record? ["max_length"] | none
    return ⟨← maxLength.orElse? none⟩

instance : ToJson LogSettings where
  toJson s := .obj [("level", toJson s.level)]

instance : OfJson LogSettings where
  ofJson? j := do
    let [level] ← j.record? ["level"] | none
    return ⟨← level.orElse? .info⟩

instance : ToJson Settings where
  toJson s := .obj [
    ("infoflow", toJson s.flow),
    ("dta", toJson s.transition),
    ("paths", toJson s.path),
    ("logging", toJson s.log)]

instance : OfJson Settings where
  ofJson? j := do
    let [flow, transition, path, log] ← j.record? ["infoflow", "dta", "paths", "logging"] | none
    return ⟨← flow.orElse? {}, ← transition.orElse? {}, ← path.orElse? {}, ← log.orElse? {}⟩

end PolicyAnalysis
