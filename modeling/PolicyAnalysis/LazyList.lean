/-!
# Lazy lists

A list whose items are worked out one by one. Each operation is that on lists, seen through `toList`.
-/

namespace PolicyAnalysis

inductive LazyList (α : Type) where
  | nil
  | cons (head : α) (tail : Unit → LazyList α)

namespace LazyList

variable {α β : Type}

def toList : LazyList α → List α
  | nil => []
  | cons head tail => head :: (tail ()).toList

@[simp]
theorem toList_nil : (nil : LazyList α).toList = [] :=
  rfl

@[simp]
theorem toList_cons (head : α) (tail : Unit → LazyList α) :
    (cons head tail).toList = head :: (tail ()).toList :=
  rfl

def map (f : α → β) : LazyList α → LazyList β
  | nil => nil
  | cons head tail => cons (f head) fun _ => map f (tail ())

@[simp]
theorem toList_map (f : α → β) (l : LazyList α) : (map f l).toList = l.toList.map f := by
  induction l with
  | nil => rfl
  | cons head tail ih => simp [map, ih]

/-- The first items; no later ones are worked out. -/
def take : Nat → LazyList α → List α
  | 0, _ => []
  | _, nil => []
  | 1, cons head _ => [head]
  | n + 2, cons head tail => head :: take (n + 1) (tail ())

theorem take_eq_take_toList (n : Nat) (l : LazyList α) : l.take n = l.toList.take n := by
  induction l generalizing n with
  | nil => cases n <;> simp [take]
  | cons head tail ih =>
    match n with
    | 0 => simp [take]
    | 1 => simp [take]
    | n + 2 => simp [take, ih]

def next? : LazyList α → Option (α × LazyList α)
  | nil => none
  | cons head tail => some (head, tail ())

end LazyList

end PolicyAnalysis
