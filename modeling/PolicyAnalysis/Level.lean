import PolicyAnalysis.Name

/-!
# Levels and ranges

A level is a sensitivity with a set of categories; a range runs from one level to another.
-/

namespace PolicyAnalysis

structure Level where
  sensitivity : String
  categories : NameSet
deriving DecidableEq

namespace Level

instance : Ord Level :=
  ordByKey fun l => (l.sensitivity, l.categories)

instance : Std.TransOrd Level :=
  transOrd_ordByKey _

instance : Std.LawfulEqOrd Level :=
  lawfulEqOrd_ordByKey _ fun a b h => by
    cases a; cases b; simp_all

def text (l : Level) : String :=
  if l.categories.isEmpty then l.sensitivity
  else l.sensitivity ++ ":" ++ ",".intercalate l.categories.toList

end Level

structure Range where
  low : Level
  high : Level
deriving DecidableEq

namespace Range

def single (l : Level) : Range :=
  ⟨l, l⟩

instance : Ord Range :=
  ordByKey fun r => (r.low, r.high)

instance : Std.TransOrd Range :=
  transOrd_ordByKey _

instance : Std.LawfulEqOrd Range :=
  lawfulEqOrd_ordByKey _ fun a b h => by
    cases a; cases b; simp_all

/-- A range of one level is written as that level. -/
def text (r : Range) : String :=
  if r.low = r.high then r.low.text else r.low.text ++ " - " ++ r.high.text

end Range

end PolicyAnalysis
