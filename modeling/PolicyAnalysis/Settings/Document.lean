import PolicyAnalysis.Settings.Basic
import PolicyAnalysis.Toml.Form
import PolicyAnalysis.Toml.Parser
import PolicyAnalysis.Toml.Printer

/-!
# Settings documents

Settings are kept in a TOML document with a table for each part. Reading one checks its values.
-/

namespace PolicyAnalysis

instance : OfToml FlowSettings where
  ofToml? v := do
    let [minWeight, exclude, booleans] ← v.record? ["min_weight", "exclude", "booleans"] | none
    return ⟨← Toml.orElse? 1 minWeight, ← Toml.orElse? [] exclude, ← Toml.orElse? none booleans⟩

instance : OfToml TransitionSettings where
  ofToml? v := do
    let [reverse, exclude] ← v.record? ["reverse", "exclude"] | none
    return ⟨← Toml.orElse? false reverse, ← Toml.orElse? [] exclude⟩

instance : OfToml PathSettings where
  ofToml? v := do
    let [maxLength] ← v.record? ["max_length"] | none
    return ⟨← Toml.orElse? none maxLength⟩

instance : OfToml LogSettings where
  ofToml? v := do
    let [level] ← v.record? ["level"] | none
    return ⟨← Toml.orElse? .info level⟩

instance : OfToml Settings where
  ofToml? v := do
    let [flow, transition, path, log] ← v.record? ["infoflow", "dta", "paths", "logging"] | none
    return ⟨← Toml.orElse? {} flow, ← Toml.orElse? {} transition, ← Toml.orElse? {} path,
      ← Toml.orElse? {} log⟩

namespace Settings

def toToml (s : Settings) : List (String × Toml) :=
  let names (l : List String) := Toml.arr (l.map .str)
  let booleans := s.flow.booleans.toList.map fun (states : NameTable Bool) =>
    ("booleans", Toml.table (states.toList.map fun e => (e.1, .bool e.2)))
  let maxLength := s.path.maxLength.toList.map fun length => ("max_length", Toml.int length.toInt)
  [("infoflow", .table ([
      ("min_weight", .int s.flow.minWeight.toInt),
      ("exclude", names s.flow.exclude)] ++ booleans)),
    ("dta", .table [
      ("reverse", .bool s.transition.reverse),
      ("exclude", names s.transition.exclude)]),
    ("paths", .table maxLength),
    ("logging", .table [("level", .str (Named.name s.log.level))])]

def text (s : Settings) : String :=
  Toml.print s.toToml

def ofText (text : String) : Except Error Settings := do
  match (Toml.parse? text).bind fun entries => ofToml? (.table entries) with
  | some (s : Settings) =>
    s.validate
    return s
  | none => throw (SettingsError.unreadable : Error)

end Settings

end PolicyAnalysis
