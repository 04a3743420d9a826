import PolicyAnalysis.Flow.Graph
import PolicyAnalysis.Json.Form

/-!
# The JSON form of flow edges
-/

namespace PolicyAnalysis

instance : ToJson Contribution where
  toJson c := .obj [
    ("rule", toJson c.rule),
    ("direction", toJson c.direction),
    ("weight", toJson c.weight)]

instance : ToJson FlowEdge where
  toJson e := .obj [
    ("contributions", toJson e.contributions),
    ("read_weight", toJson (e.weightIn .read)),
    ("write_weight", toJson (e.weightIn .write))]

end PolicyAnalysis
