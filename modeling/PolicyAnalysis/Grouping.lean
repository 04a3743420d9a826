import PolicyAnalysis.Order
import Std.Data.ExtTreeMap

/-!
# Items by key

A list of items with keys as a table: of all items under each key, or of one item made of them.
-/

namespace PolicyAnalysis

variable {κ α : Type} [Ord κ] [Std.TransOrd κ]

/-- The items under each key, in their order. -/
def groupByKey (l : List (κ × α)) : Std.ExtTreeMap κ (List α) :=
  l.foldr (fun e table => table.alter e.1 fun items => some (e.2 :: items.getD [])) ∅

theorem getD_groupByKey (l : List (κ × α)) (k : κ) :
    (groupByKey l).getD k [] = (l.filter fun e => compare e.1 k == .eq).map (·.2) := by
  induction l with
  | nil => simp [groupByKey]
  | cons e l ih =>
    have hstep : groupByKey (e :: l) =
        (groupByKey l).alter e.1 fun items => some (e.2 :: items.getD []) := rfl
    rw [hstep, Std.ExtTreeMap.getD_alter]
    by_cases h : compare e.1 k = .eq
    · have hk : (groupByKey l).getD e.1 [] = (groupByKey l).getD k [] := Std.ExtTreeMap.getD_congr h
      simp [h, ← ih, ← hk, Std.ExtTreeMap.getD_eq_getD_getElem?]
    · simp [h, ← ih]

/-- One item for each key: the first under it, with the others merged into it. -/
def mergeByKey (merge : α → α → α) (l : List (κ × α)) : Std.ExtTreeMap κ α :=
  (groupByKey l).filterMap fun _ items =>
    match items with
    | [] => none
    | a :: rest => some (rest.foldl merge a)

def firstByKey (l : List (κ × α)) : Std.ExtTreeMap κ α :=
  mergeByKey (fun first _ => first) l

def tableBy (key : α → κ) (l : List α) : Std.ExtTreeMap κ α :=
  firstByKey (l.map fun a => (key a, a))

end PolicyAnalysis
