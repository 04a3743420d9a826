import PolicyAnalysis.Digraph.Basic
import PolicyAnalysis.Json.Form

/-!
# The JSON form of the size of a graph
-/

namespace PolicyAnalysis

instance : ToJson GraphSize where
  toJson s := .obj [("nodes", toJson s.nodes), ("edges", toJson s.edges)]

end PolicyAnalysis
