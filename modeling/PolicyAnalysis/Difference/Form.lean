import PolicyAnalysis.Difference.Basic
import PolicyAnalysis.Json.Form

/-!
# The JSON form of changes
-/

namespace PolicyAnalysis

instance {α : Type} [Ord α] [Std.TransOrd α] [ToJson α] : ToJson (SetChange α) where
  toJson c := .obj [
    ("added", toJson c.added),
    ("removed", toJson c.removed),
    ("matched", toJson c.matched)]

instance {α : Type} [ToJson α] : ToJson (ValueChange α) where
  toJson c := .obj [
    ("added", toJson c.added),
    ("removed", toJson c.removed)]

instance : ToJson DifferenceSize where
  toJson s := .obj [
    ("added", toJson s.added),
    ("removed", toJson s.removed),
    ("modified", toJson s.modified)]

end PolicyAnalysis
