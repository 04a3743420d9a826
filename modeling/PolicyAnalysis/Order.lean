/-!
# Orders on composite keys

Pairs are compared lexicographically, and a record is compared by a key that determines it.
-/

namespace PolicyAnalysis

variable {α β : Type}

scoped instance instOrdPair [Ord α] [Ord β] : Ord (α × β) := lexOrd

/-- The order in which `a` comes before `b` when the key of `a` comes before the key of `b`. -/
abbrev ordByKey [Ord β] (key : α → β) : Ord α := ⟨compareOn key⟩

theorem transOrd_ordByKey [Ord β] [Std.TransOrd β] (key : α → β) :
    letI := ordByKey key
    Std.TransOrd α :=
  inferInstanceAs (Std.TransCmp (compareOn key))

theorem lawfulEqOrd_ordByKey [Ord β] [Std.LawfulEqOrd β] (key : α → β)
    (injective : ∀ a b, key a = key b → a = b) :
    letI := ordByKey key
    Std.LawfulEqOrd α :=
  letI := ordByKey key
  { compare_self := by
      intro a
      show compare (key a) (key a) = .eq
      exact Std.ReflOrd.compare_self
    eq_of_compare := by
      intro a b h
      have h : compare (key a) (key b) = .eq := h
      exact injective a b (Std.LawfulEqOrd.eq_of_compare h) }

/-- The positions of the items of a list, the least item first and equal items as they stand. -/
def ascendingPositions [Ord α] (items : List α) : List Nat :=
  (items.zipIdx.mergeSort fun a b => (compare a.1 b.1).isLE).map (·.2)

end PolicyAnalysis
