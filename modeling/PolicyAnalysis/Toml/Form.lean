import PolicyAnalysis.Name
import PolicyAnalysis.Toml.Basic

/-!
# Values with a TOML form

A record is read from a table, whatever else that has, or from a list that starts with its parts. A date has
parts of its own, so it is read as a record that gives none.
-/

namespace PolicyAnalysis

/-- How values of a type are read; `none` if the TOML value stands for none of them. -/
class OfToml (α : Type) where
  ofToml? : Toml → Option α

export OfToml (ofToml?)

variable {α : Type}

instance : OfToml String where
  ofToml?
    | .str s => some s
    | _ => none

instance : OfToml Bool where
  ofToml?
    | .bool b => some b
    | _ => none

instance : OfToml Int64 where
  ofToml?
    | .int n => some (.ofInt n)
    | _ => none

instance : OfToml UInt8 where
  ofToml?
    | .int n => if 0 ≤ n ∧ n < UInt8.size then some (.ofNat n.toNat) else none
    | _ => none

instance [OfToml α] : OfToml (Option α) := ⟨fun v => (ofToml? v).map some⟩

instance [OfToml α] : OfToml (List α) where
  ofToml?
    | .arr items => items.mapM ofToml?
    | _ => none

instance [OfToml α] : OfToml (NameTable α) where
  ofToml?
    | .table entries =>
      (entries.mapM fun entry => (ofToml? entry.2).map (Prod.mk entry.1)).map (Std.ExtTreeMap.ofList ·)
    | _ => none

namespace Toml

/-- A name: a string, or a table that gives the name an empty list or table. -/
def name? : Toml → Option String
  | str s => some s
  | table [(name, arr [])] => some name
  | table [(name, table [])] => some name
  | _ => none

def record? (names : List String) : Toml → Option (List (Option Toml))
  | table entries => some (names.map fun name => entries.lookup name)
  | arr items => some ((List.range names.length).map fun i => items[i]?)
  | date _ => some (names.map fun _ => none)
  | _ => none

def required? [OfToml α] (part : Option Toml) : Option α :=
  part.bind ofToml?

def orElse? [OfToml α] (a : α) : Option Toml → Option α
  | some v => ofToml? v
  | none => some a

end Toml

instance (priority := low) [Named α] : OfToml α := ⟨fun v => v.name?.bind Named.ofName?⟩

end PolicyAnalysis
