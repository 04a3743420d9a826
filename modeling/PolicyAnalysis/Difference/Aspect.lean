import PolicyAnalysis.Difference.Form
import PolicyAnalysis.Grouping
import PolicyAnalysis.Policy.Form

/-!
# Aspects of policies

An aspect is one kind of thing that policies are compared by: how its items are found in a policy and told
apart, and when two items under one key differ.
-/

namespace PolicyAnalysis

structure Aspect where
  name : String
  Key : Type
  Item : Type
  Change : Type
  [ordKey : Ord Key]
  [transOrdKey : Std.TransOrd Key]
  [itemForm : ToJson Item]
  /-- The items of a policy by the keys that they are matched by. -/
  table : Policy → Except PolicyError (Std.ExtTreeMap Key Item)
  change? : Item → Item → Option Change
  /-- How an item that has changed is shown. -/
  changeForm : Item → Change → List (String × Json)

namespace Aspect

attribute [instance] ordKey transOrdKey itemForm

def difference (a : Aspect) (left right : Policy) :
    Except PolicyError (Difference a.Item a.Change) := do
  return .between a.change? (← a.table left) (← a.table right)

end Aspect

end PolicyAnalysis
