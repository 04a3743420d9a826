import PolicyAnalysis.Name

/-!
# Differences

What differs between two tables, one on the left and one on the right: items under keys that only one side
has, and items that both sides have under one key but that are not the same. Everything is listed in the
order of the keys.
-/

namespace PolicyAnalysis

structure SetChange (α : Type) [Ord α] [Std.TransOrd α] where
  added : Std.ExtTreeSet α
  removed : Std.ExtTreeSet α
  /-- What both sides have. -/
  matched : Std.ExtTreeSet α

structure ValueChange (α : Type) where
  /-- The value on the right. -/
  added : α
  /-- The value on the left. -/
  removed : α
deriving DecidableEq

namespace SetChange

variable {α : Type} [Ord α] [Std.TransOrd α] [Std.LawfulEqOrd α]

def between (left right : Std.ExtTreeSet α) : SetChange α :=
  ⟨right \ left, left \ right, left ∩ right⟩

def between? [DecidableEq (Std.ExtTreeSet α)] (left right : Std.ExtTreeSet α) : Option (SetChange α) :=
  if left = right then none else some (between left right)

end SetChange

def ValueChange.between? {α : Type} [DecidableEq α] (left right : α) : Option (ValueChange α) :=
  if left = right then none else some ⟨right, left⟩

/-- An item on the left, and how the one on the right under its key differs from it. -/
structure Modified (ι δ : Type) where
  item : ι
  change : δ
deriving DecidableEq

structure Difference (ι δ : Type) where
  /-- What only the right has. -/
  added : List ι
  /-- What only the left has. -/
  removed : List ι
  modified : List (Modified ι δ)
deriving DecidableEq

structure DifferenceSize where
  added : Nat
  removed : Nat
  modified : Nat
deriving DecidableEq

namespace Difference

variable {κ ι δ : Type} [Ord κ] [Std.TransOrd κ]

/-- Matches an item on the left with what is left on the right, and takes what it matches from there. -/
def consume (change? : ι → ι → Option δ) (s : Difference ι δ × Std.ExtTreeMap κ ι) (entry : κ × ι) :
    Difference ι δ × Std.ExtTreeMap κ ι :=
  let (d, right) := s
  let (k, item) := entry
  match right[k]? with
  | some item' =>
    let modified := ((change? item item').map (Modified.mk item)).toList
    ({ d with modified := d.modified ++ modified }, right.erase k)
  | none => ({ d with removed := d.removed ++ [item] }, right)

/-- What differs between two tables, where a function gives the change between two items under one key. -/
def between (change? : ι → ι → Option δ) (left right : Std.ExtTreeMap κ ι) : Difference ι δ :=
  let (d, rest) := left.toList.foldl (consume change?) (⟨[], [], []⟩, right)
  { d with added := rest.values }

def size (d : Difference ι δ) : DifferenceSize :=
  ⟨d.added.length, d.removed.length, d.modified.length⟩

def isEmpty (d : Difference ι δ) : Bool :=
  d.added.isEmpty && d.removed.isEmpty && d.modified.isEmpty

end Difference

end PolicyAnalysis
