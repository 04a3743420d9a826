/-!
# The scale of weights

Weights go from 1, for a permission through which hardly anything flows, to 10.
-/

namespace PolicyAnalysis.Weight

def min : Nat :=
  1

def max : Nat :=
  10

def InRange (weight : Int) : Prop :=
  min ≤ weight ∧ weight ≤ max

instance (weight : Int) : Decidable (InRange weight) :=
  inferInstanceAs (Decidable (_ ∧ _))

end PolicyAnalysis.Weight
