import PolicyAnalysis.LazyList

/-!
# Draining lazy lists

A lazy list is drained by asking for its next item until there is none. This always comes to an end, and
what it gives is the list of all items.
-/

namespace PolicyAnalysis.LazyList

variable {α : Type}

/-- The items that are met until the list is used up. -/
inductive Drains : LazyList α → List α → Prop
  | done {l : LazyList α} : l.next? = none → Drains l []
  | next {l rest : LazyList α} {a : α} {items : List α} :
      l.next? = some (a, rest) → Drains rest items → Drains l (a :: items)

theorem drains_toList (l : LazyList α) : l.Drains l.toList := by
  induction l with
  | nil => exact .done rfl
  | cons head tail ih => exact .next rfl (ih ())

end PolicyAnalysis.LazyList
