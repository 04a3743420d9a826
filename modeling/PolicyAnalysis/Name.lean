import PolicyAnalysis.Order
import Std.Data.ExtTreeMap
import Std.Data.ExtTreeSet

/-!
# Names

Sets and tables of names keep them in the order of their code points, so equal sets are the same value and
a listing of a set or table is always in that order. `Named` is for types of a few values that all have names.
-/

namespace PolicyAnalysis

abbrev NameSet := Std.ExtTreeSet String

abbrev NameTable (α : Type) := Std.ExtTreeMap String α

theorem nodup_toList (names : NameSet) : names.toList.Nodup := by
  refine names.distinct_toList.imp fun hne heq => hne ?_
  rw [heq]
  exact Std.ReflCmp.compare_self

variable {α : Type}

/-- Sets are compared as the ascending lists of their members. -/
instance instOrdSet [Ord α] [Std.TransOrd α] : Ord (Std.ExtTreeSet α) :=
  ordByKey Std.ExtTreeSet.toList

instance instTransOrdSet [Ord α] [Std.TransOrd α] : Std.TransOrd (Std.ExtTreeSet α) :=
  transOrd_ordByKey _

instance instLawfulEqOrdSet [Ord α] [Std.TransOrd α] [Std.LawfulEqOrd α] :
    Std.LawfulEqOrd (Std.ExtTreeSet α) :=
  lawfulEqOrd_ordByKey _ fun a b (h : a.toList = b.toList) =>
    Std.ExtTreeSet.ext_toList (h ▸ List.Perm.refl _)

/-- A type whose values can be listed and told apart by name. -/
class Named (α : Type) where
  all : List α
  name : α → String

def Named.ofName? [Named α] (name : String) : Option α :=
  Named.all.find? fun a => Named.name a == name

end PolicyAnalysis
