import PolicyAnalysis.Error
import PolicyAnalysis.Name
import PolicyAnalysis.Text.Blank
import PolicyAnalysis.Weight

/-!
# Settings

What the analyses are to look at. Each part has values that it takes when nothing is said.
-/

namespace PolicyAnalysis

structure FlowSettings where
  /-- Lighter flows do not count. -/
  minWeight : Int64 := 1
  /-- The types whose flows do not count. -/
  exclude : List String := []
  /-- The states of booleans. Without them, all conditional rules count. -/
  booleans : Option (NameTable Bool) := none
deriving DecidableEq

structure TransitionSettings where
  /-- Whether to look at the transitions into a type. -/
  reverse : Bool := false
  exclude : List String := []
deriving DecidableEq

structure PathSettings where
  /-- The most steps of a path. -/
  maxLength : Option Int64 := none
deriving DecidableEq

inductive LogLevel where
  | error
  | warn
  | info
  | debug
  | trace
deriving DecidableEq

namespace LogLevel

instance : Ord LogLevel :=
  ordByKey LogLevel.ctorIdx

instance : Std.TransOrd LogLevel :=
  transOrd_ordByKey _

instance : Std.LawfulEqOrd LogLevel :=
  lawfulEqOrd_ordByKey _ fun a b h => by
    cases a <;> cases b <;> cases h <;> rfl

instance : Named LogLevel where
  all := [.error, .warn, .info, .debug, .trace]
  name
    | error => "error"
    | warn => "warn"
    | info => "info"
    | debug => "debug"
    | trace => "trace"

def text (l : LogLevel) : String :=
  (Named.name l).toUpper

/-- The level with a name, in small letters or capitals; the error is its own text. -/
def ofText (s : String) : Except String LogLevel :=
  let name := s.toLower
  match (Named.ofName? (if name = "warning" then "warn" else name) : Option LogLevel) with
  | some level => .ok level
  | none => .error ("Invalid log level: " ++ s)

end LogLevel

structure LogSettings where
  level : LogLevel := .info
deriving DecidableEq

structure Settings where
  flow : FlowSettings := {}
  transition : TransitionSettings := {}
  path : PathSettings := {}
  log : LogSettings := {}
deriving DecidableEq

/-- The most steps of a path, which must allow for one. -/
def PathSettings.limit (s : PathSettings) : Except Error (Option Nat) :=
  match s.maxLength with
  | none => .ok none
  | some length =>
    if length < 1 then .error (AnalysisError.maxLengthTooSmall length.toInt : Error)
    else .ok (some length.toInt.toNat)

namespace Settings

def validate (s : Settings) : Except Error Unit := do
  if ¬ Weight.InRange s.flow.minWeight.toInt then
    throw (AnalysisError.minWeightOutOfRange s.flow.minWeight.toInt : Error)
  discard s.path.limit
  if (s.flow.exclude ++ s.transition.exclude).any Text.isBlankText then
    throw (SettingsError.badValue "exclude" "empty type name" : Error)

end Settings

end PolicyAnalysis
