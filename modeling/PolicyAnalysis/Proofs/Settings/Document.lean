import PolicyAnalysis.Proofs.Checked
import PolicyAnalysis.Proofs.Json.Records
import PolicyAnalysis.Proofs.Toml.Document
import PolicyAnalysis.Settings.Document

/-!
# Settings are kept in their documents

What is written for settings is a document in the order that is read back, and each part of the settings is found in
it again: a value that is not set is not written, and booleans without any states are still a table.
-/

namespace PolicyAnalysis

namespace Settings

def flowValues (s : FlowSettings) : List (String × Toml) :=
  [("min_weight", .int s.minWeight.toInt), ("exclude", .arr (s.exclude.map .str))]

def flowTables (s : FlowSettings) : List (String × List (String × Toml)) :=
  s.booleans.toList.map fun states => ("booleans", states.toList.map fun e => (e.1, .bool e.2))

def flowEntries (s : FlowSettings) : List (String × Toml) :=
  flowValues s ++ Toml.tableEntries (flowTables s)

def transitionValues (s : TransitionSettings) : List (String × Toml) :=
  [("reverse", .bool s.reverse), ("exclude", .arr (s.exclude.map .str))]

def pathValues (s : PathSettings) : List (String × Toml) :=
  s.maxLength.toList.map fun length => ("max_length", .int length.toInt)

def logValues (s : LogSettings) : List (String × Toml) :=
  [("level", .str (Named.name s.level))]

def tables (s : Settings) : List (String × List (String × Toml)) :=
  [("infoflow", flowEntries s.flow), ("dta", transitionValues s.transition), ("paths", pathValues s.path),
    ("logging", logValues s.log)]

theorem toToml_eq (s : Settings) : s.toToml = Toml.tableEntries s.tables := by
  simp [toToml, tables, Toml.tableEntries, flowEntries, flowValues, flowTables, transitionValues, pathValues, logValues]

section Order

open Toml

theorem inline_names (names : List String) : Inline (.arr (names.map .str)) := by
  refine ⟨1, by decide, .arr ?_⟩
  rw [List.forall_mem_map]
  exact fun name _ => .str 0 name

theorem inline_int (n : Int64) : Inline (.int n.toInt) :=
  ⟨0, by decide, .int 0 n.minValue_le_toInt n.toInt_lt⟩

theorem canonical_flow (s : FlowSettings) : Canonical 2 (flowEntries s) := by
  refine .intro ?_ ?_ ?_
  · rw [flowTables]
    cases s.booleans with
    | none => exact show (["min_weight", "exclude"] : List String).Nodup by decide
    | some states => exact show (["min_weight", "exclude", "booleans"] : List String).Nodup by decide
  · rw [flowValues, List.forall_mem_cons, List.forall_mem_singleton]
    exact ⟨inline_int _, inline_names _⟩
  · rw [flowTables, List.forall_mem_map]
    intro states _
    refine canonical_values ?_ ?_
    · rw [List.map_map]
      exact nodup_names_toList states
    · rw [List.forall_mem_map]
      exact fun e _ => ⟨0, by decide, .bool 0 e.2⟩

theorem canonical_transition (s : TransitionSettings) : Canonical 2 (transitionValues s) := by
  refine canonical_values (show (["reverse", "exclude"] : List String).Nodup by decide) ?_
  rw [transitionValues, List.forall_mem_cons, List.forall_mem_singleton]
  exact ⟨⟨0, by decide, .bool 0 s.reverse⟩, inline_names _⟩

theorem canonical_path (s : PathSettings) : Canonical 2 (pathValues s) := by
  refine canonical_values ?_ ?_
  · rw [pathValues]
    cases s.maxLength with
    | none => exact List.nodup_nil
    | some length => exact List.nodup_singleton _
  · rw [pathValues, List.forall_mem_map]
    exact fun length _ => inline_int length

theorem canonical_log (s : LogSettings) : Canonical 2 (logValues s) := by
  refine canonical_values (List.nodup_singleton _) ?_
  rw [logValues, List.forall_mem_singleton]
  exact ⟨0, by decide, .str 0 _⟩

theorem canonical_toToml (s : Settings) : Canonical 3 s.toToml := by
  rw [toToml_eq]
  refine @Canonical.intro 2 [] s.tables
    (show (["infoflow", "dta", "paths", "logging"] : List String).Nodup by decide) (List.forall_mem_nil _) ?_
  rw [tables, List.forall_mem_cons, List.forall_mem_cons, List.forall_mem_cons, List.forall_mem_singleton]
  exact ⟨canonical_flow s.flow, canonical_transition s.transition, canonical_path s.path, canonical_log s.log⟩

theorem parse?_text (s : Settings) : parse? s.text = some s.toToml :=
  parse?_print s.canonical_toToml (by decide)

end Order

section Values

open Toml

variable {α : Type} [OfToml α]

@[simp]
theorem record?_table (names : List String) (entries : List (String × Toml)) :
    record? names (.table entries) = some (names.map fun name => entries.lookup name) :=
  rfl

@[simp]
theorem orElse?_some (a : α) (v : Toml) : orElse? a (some v) = ofToml? v :=
  rfl

@[simp]
theorem orElse?_none (a : α) : orElse? a none = some a :=
  rfl

/-- A value that may be missing is written as itself if it is there. -/
@[simp]
theorem ofToml?_optional (v : Toml) : (ofToml? v : Option (Option α)) = (ofToml? v).map some :=
  rfl

@[simp]
theorem ofToml?_names (names : List String) : ofToml? (arr (names.map .str)) = some names :=
  mapM_map_eq_some (f := Toml.str) (g := ofToml?) (fun _ => rfl) names

@[simp]
theorem ofToml?_int (n : Int64) : ofToml? (int n.toInt) = some n :=
  congrArg some (Int64.ofInt_toInt n)

@[simp]
theorem ofToml?_bool (b : Bool) : ofToml? (bool b) = some b :=
  rfl

@[simp]
theorem ofToml?_states (states : NameTable Bool) :
    ofToml? (table (states.toList.map fun e => (e.1, bool e.2))) = some states := by
  have hread := mapM_map_eq_some (f := fun e : String × Bool => (e.1, bool e.2))
    (g := fun e => (ofToml? e.2 : Option Bool).map (Prod.mk e.1)) (fun _ => rfl) states.toList
  refine (congrArg (Option.map (Std.ExtTreeMap.ofList ·)) hread).trans ?_
  rw [Option.map_some, ofList_toList]

@[simp]
theorem ofToml?_level (level : LogLevel) : ofToml? (str (Named.name level)) = some level :=
  ofName?_name level

theorem ofToml?_flow (s : FlowSettings) : ofToml? (table (flowEntries s)) = some s := by
  obtain ⟨minWeight, exclude, booleans⟩ := s
  cases booleans <;>
    simp +instances [instOfTomlFlowSettings, flowEntries, flowValues, flowTables, tableEntries, List.lookup_cons]

theorem ofToml?_transition (s : TransitionSettings) : ofToml? (table (transitionValues s)) = some s := by
  simp +instances [instOfTomlTransitionSettings, transitionValues, List.lookup_cons]

theorem ofToml?_path (s : PathSettings) : ofToml? (table (pathValues s)) = some s := by
  obtain ⟨maxLength⟩ := s
  cases maxLength <;> simp +instances [instOfTomlPathSettings, pathValues, List.lookup_cons]

theorem ofToml?_log (s : LogSettings) : ofToml? (table (logValues s)) = some s := by
  simp +instances [instOfTomlLogSettings, logValues, List.lookup_cons]

theorem ofToml?_toToml (s : Settings) : ofToml? (table s.toToml) = some s := by
  rw [toToml_eq]
  simp +instances [instOfTomlSettings, tables, tableEntries, List.lookup_cons, ofToml?_flow, ofToml?_transition,
    ofToml?_path, ofToml?_log]

end Values

/-- What settings must be like: a weight on the scale, paths of a step at least, and no blank names of types. -/
structure Valid (s : Settings) : Prop where
  minWeight : Weight.InRange s.flow.minWeight.toInt
  maxLength : ∀ length ∈ s.path.maxLength, 1 ≤ length
  names : ∀ name ∈ s.flow.exclude ++ s.transition.exclude, ¬ Text.isBlankText name

theorem limit_eq_ok_iff (s : PathSettings) : (∃ n, s.limit = .ok n) ↔ ∀ length ∈ s.maxLength, 1 ≤ length := by
  rw [PathSettings.limit]
  cases s.maxLength with
  | none => simp
  | some length =>
    by_cases h : length < 1
    · simp [h]
    · simp [h, Int64.not_lt.mp h]

/-- The checks in their order: each is made only if those before it succeed. -/
theorem validate_eq (s : Settings) :
    s.validate =
      if Weight.InRange s.flow.minWeight.toInt then
        s.path.limit.bind fun _ =>
          if (s.flow.exclude ++ s.transition.exclude).any Text.isBlankText then
            .error (SettingsError.badValue "exclude" "empty type name" : Error)
          else .ok ()
      else .error (AnalysisError.minWeightOutOfRange s.flow.minWeight.toInt : Error) := by
  rw [validate]
  by_cases hweight : Weight.InRange s.flow.minWeight.toInt
  · rw [if_neg (not_not.mpr hweight), if_pos hweight]
    cases s.path.limit <;> rfl
  · rw [if_pos hweight, if_neg hweight]
    rfl

theorem validate_eq_ok_iff (s : Settings) : s.validate = .ok () ↔ s.Valid := by
  have hnames : ¬ (s.flow.exclude ++ s.transition.exclude).any Text.isBlankText ↔
      ∀ name ∈ s.flow.exclude ++ s.transition.exclude, ¬ Text.isBlankText name := by
    rw [List.any_eq_true]
    exact ⟨fun h name hname hblank => h ⟨name, hname, hblank⟩, fun h ⟨name, hname, hblank⟩ => h name hname hblank⟩
  rw [validate_eq]
  constructor
  · intro h
    obtain ⟨hweight, h⟩ | ⟨-, h⟩ := ite_eq_iff.mp h
    · obtain ⟨n, hlimit, h⟩ := Checked.bind_eq_ok.mp h
      obtain ⟨-, h⟩ | ⟨hblank, -⟩ := ite_eq_iff.mp h
      · cases h
      · exact ⟨hweight, (limit_eq_ok_iff s.path).mp ⟨n, hlimit⟩, hnames.mp hblank⟩
    · cases h
  · intro h
    obtain ⟨n, hlimit⟩ := (limit_eq_ok_iff s.path).mpr h.maxLength
    rw [if_pos h.minWeight, hlimit, Except.bind, if_neg (hnames.mpr h.names)]

theorem read_text (s : Settings) : ((Toml.parse? s.text).bind fun entries => ofToml? (.table entries)) = some s := by
  rw [parse?_text, Option.bind_some, ofToml?_toToml]

theorem ofText_text (s : Settings) : ofText s.text = s.validate.map fun _ => s := by
  rw [ofText, s.read_text]
  rfl

/-- What becomes of settings that are saved and reloaded. -/
structure Reloads (s : Settings) : Prop where
  validate_iff : s.validate = .ok () ↔ s.Valid
  /-- The tables of the document give the settings, whatever text they are kept in. -/
  ofTables : ofToml? (.table s.toToml) = some s
  /-- The text of the document is read as these tables. -/
  parse : Toml.parse? s.text = some s.toToml
  /-- Settings that are accepted come back as they were. -/
  accepted : s.validate = .ok () → ofText s.text = .ok s
  /-- Others are refused for the same reason as before. -/
  refused : ∀ e, s.validate = .error e → ofText s.text = .error e

theorem reloads (s : Settings) : s.Reloads where
  validate_iff := s.validate_eq_ok_iff
  ofTables := s.ofToml?_toToml
  parse := s.parse?_text
  accepted h := by
    rw [s.ofText_text, h]
    rfl
  refused e h := by
    rw [s.ofText_text, h]
    rfl

/-- Settings with names that cannot be written as they are, or look like something else. -/
def awkward : Settings where
  flow :=
    { minWeight := 10
      exclude := ["a \"quoted\" name", "'", "\\", "two\nlines, '''three''' \"\"\"\"quotes\"\"\"\"", "\x7f\x01", "\tü"]
      booleans := some (.ofList [("", true), ("a.b", false), ("line\nbreak", true), ("'\"", false), ("plain", true)]) }
  transition := { reverse := true, exclude := ["# no comment", "[logging]", "level = \"error\""] }
  path := { maxLength := some Int64.maxValue }
  log := { level := .trace }

/-- Settings with a weight that is off the scale, and with no states of booleans. -/
def heavy : Settings where
  flow := { minWeight := 11, booleans := some ∅ }

theorem reloads_awkward_and_heavy :
    awkward.validate = .ok () ∧ ofText awkward.text = .ok awkward ∧
      ofText heavy.text = .error (AnalysisError.minWeightOutOfRange 11 : Error) := by
  have hlength : ∀ length ∈ awkward.path.maxLength, 1 ≤ length := by
    rintro _ ⟨⟩
    decide
  have hvalid : awkward.Valid := ⟨by decide, hlength, by decide +kernel⟩
  have haccepted : awkward.validate = .ok () := (reloads awkward).validate_iff.mpr hvalid
  exact ⟨haccepted, (reloads awkward).accepted haccepted, (reloads heavy).refused _ rfl⟩

end Settings

end PolicyAnalysis
