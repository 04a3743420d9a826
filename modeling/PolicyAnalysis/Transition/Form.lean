import PolicyAnalysis.Json.Form
import PolicyAnalysis.Transition.Graph

/-!
# The JSON form of transition edges

Both ways of a transition are written in one object; one that is not complete is written with empty lists.
-/

namespace PolicyAnalysis

instance : ToJson Entrypoint where
  toJson e := .obj [
    ("entrypoint", toJson e.entrypoint),
    ("execute", toJson e.execute),
    ("type_transition", toJson e.typeTransition)]

instance : ToJson TransitionEdge where
  toJson e :=
    let standard := e.standard.getD ⟨[], [], ∅⟩
    let dynamic := e.dynamic.getD ⟨[], []⟩
    .obj [
      ("transition", toJson standard.transition),
      ("setexec", toJson standard.setexec),
      ("dyntransition", toJson dynamic.dyntransition),
      ("setcurrent", toJson dynamic.setcurrent),
      ("entrypoints", .obj (standard.entrypoints.toList.map fun entry =>
        (toString entry.1, toJson entry.2)))]

end PolicyAnalysis
