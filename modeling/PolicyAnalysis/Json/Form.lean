import PolicyAnalysis.Json.Basic
import PolicyAnalysis.Name

/-!
# Values with a JSON form

`ToJson` writes a value and `OfJson` reads one back. A record is written as an object with a field for each
of its parts; it is read from such an object, whatever other fields that has, or from a list that holds the
parts in order.
-/

namespace PolicyAnalysis

class ToJson (α : Type) where
  toJson : α → Json

/-- How values of a type are read; `none` if the JSON value stands for none of them. -/
class OfJson (α : Type) where
  ofJson? : Json → Option α

export ToJson (toJson)
export OfJson (ofJson?)

variable {α : Type}

instance : ToJson Json := ⟨id⟩

instance : ToJson String := ⟨.str⟩

instance : OfJson String where
  ofJson?
    | .str s => some s
    | _ => none

instance : ToJson Bool := ⟨.bool⟩

instance : OfJson Bool where
  ofJson?
    | .bool b => some b
    | _ => none

instance : ToJson Nat := ⟨fun n => .int n⟩

namespace Json

def natBelow? (bound : Nat) : Json → Option Nat
  | int n => if 0 ≤ n && n < bound then some n.toNat else none
  | _ => none

end Json

instance : ToJson UInt8 := ⟨fun n => .int n.toNat⟩

instance : OfJson UInt8 := ⟨fun j => (j.natBelow? UInt8.size).map UInt8.ofNat⟩

instance : ToJson UInt16 := ⟨fun n => .int n.toNat⟩

instance : OfJson UInt16 := ⟨fun j => (j.natBelow? UInt16.size).map UInt16.ofNat⟩

instance : ToJson UInt32 := ⟨fun n => .int n.toNat⟩

instance : OfJson UInt32 := ⟨fun j => (j.natBelow? UInt32.size).map UInt32.ofNat⟩

instance : ToJson Int64 := ⟨fun n => .int n.toInt⟩

instance : OfJson Int64 where
  ofJson?
    | .int n => if Int64.minValue.toInt ≤ n && n ≤ Int64.maxValue.toInt then some (.ofInt n) else none
    | _ => none

instance [ToJson α] : ToJson (Option α) where
  toJson
    | none => .null
    | some a => toJson a

instance [OfJson α] : OfJson (Option α) where
  ofJson?
    | .null => some none
    | j => (ofJson? j).map some

instance [ToJson α] : ToJson (List α) := ⟨fun l => .arr (l.map toJson)⟩

instance [OfJson α] : OfJson (List α) where
  ofJson?
    | .arr items => items.mapM ofJson?
    | _ => none

instance [Ord α] [Std.TransOrd α] [ToJson α] : ToJson (Std.ExtTreeSet α) :=
  ⟨fun s => toJson s.toList⟩

instance [Ord α] [Std.TransOrd α] [OfJson α] : OfJson (Std.ExtTreeSet α) :=
  ⟨fun j => (ofJson? j : Option (List α)).map (Std.ExtTreeSet.ofList ·)⟩

instance [ToJson α] : ToJson (NameTable α) :=
  ⟨fun t => .obj (t.toList.map fun entry => (entry.1, toJson entry.2))⟩

instance [OfJson α] : OfJson (NameTable α) where
  ofJson?
    | .obj fields =>
      (fields.mapM fun field => (ofJson? field.2).map (Prod.mk field.1)).map (Std.ExtTreeMap.ofList ·)
    | _ => none

/-- What a record's text says of one of its fields. -/
inductive Json.Field where
  | given (j : Json)
  /-- The record is an object without this field. -/
  | absent
  /-- The record is a list that ends before this field. -/
  | cutOff

namespace Json

/-- The fields of a record, in the order of their names. A list may not be longer than the record. -/
def record? (names : List String) : Json → Option (List Field)
  | obj fields => some (names.map fun name => ((fields.lookup name).map Field.given).getD .absent)
  | arr items =>
    if items.length ≤ names.length then
      some (items.map Field.given ++ List.replicate (names.length - items.length) .cutOff)
    else none
  | _ => none

/-- The single name of an object with one field, and its value; or a bare name. -/
def variant? : Json → Option (String × Option Json)
  | str name => some (name, none)
  | obj [(name, j)] => some (name, some j)
  | _ => none

/-- A variant that carries nothing: its name, or an object that gives the name no value. -/
def name? (j : Json) : Option String :=
  match j.variant? with
  | some (name, none) => some name
  | some (name, some null) => some name
  | _ => none

end Json

instance (priority := low) [Named α] : ToJson α := ⟨fun a => .str (Named.name a)⟩

instance (priority := low) [Named α] : OfJson α := ⟨fun j => j.name?.bind Named.ofName?⟩

namespace Json.Field

def required? [OfJson α] : Field → Option α
  | given j => ofJson? j
  | _ => none

def optional? [OfJson α] : Field → Option (Option α)
  | given j => ofJson? j
  | absent => some none
  | cutOff => none

/-- A field that takes a stated value wherever it is missing. -/
def orElse? [OfJson α] (value : α) : Field → Option α
  | given j => ofJson? j
  | _ => some value

end Json.Field

end PolicyAnalysis
