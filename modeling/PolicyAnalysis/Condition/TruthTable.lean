import PolicyAnalysis.Condition.Basic

/-!
# Truth tables

The table of a condition lists its value for all values of its booleans. Rows count up in binary over the
sorted names, the first name being the highest digit, so conditions that differ only in how they are spelled
have one table.
-/

namespace PolicyAnalysis

structure TruthTable where
  booleans : List String
  results : List Bool
deriving DecidableEq

namespace TruthTable

instance : Ord TruthTable :=
  ordByKey fun t => (t.booleans, t.results)

instance : Std.TransOrd TruthTable :=
  transOrd_ordByKey _

instance : Std.LawfulEqOrd TruthTable :=
  lawfulEqOrd_ordByKey _ fun a b h => by
    cases a; cases b; simp_all

/-- The assignments that extend one by values for further names. -/
def assignments (values : NameTable Bool) : List String → List (NameTable Bool)
  | [] => [values]
  | name :: names =>
    assignments (values.insert name false) names ++ assignments (values.insert name true) names

end TruthTable

def Condition.truthTable (c : Condition) : TruthTable where
  booleans := c.booleans.toList
  results := (TruthTable.assignments ∅ c.booleans.toList).map fun values =>
    (c.evaluate values).toOption.getD false

/-- What two places must share to be one place. -/
def Conditional.identity (c : Conditional) : TruthTable × Bool :=
  (c.condition.truthTable, c.branch)

end PolicyAnalysis
