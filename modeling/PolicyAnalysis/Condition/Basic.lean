import PolicyAnalysis.Error
import PolicyAnalysis.Name

/-!
# Conditions

A condition is an expression over booleans whose operators stand behind their operands. A list of tokens is
one if every operator finds its operands on the stack and a single value is left, and if it names few
enough booleans for a table of all its values.
-/

namespace PolicyAnalysis

inductive Connective where
  | and
  | or
  | xor
  | eq
  | neq
deriving DecidableEq

namespace Connective

def apply : Connective → Bool → Bool → Bool
  | and, a, b => a && b
  | or, a, b => a || b
  | xor, a, b => a ^^ b
  | eq, a, b => a == b
  | neq, a, b => a != b

def symbol : Connective → String
  | and => "&&"
  | or => "||"
  | xor => "^"
  | eq => "=="
  | neq => "!="

end Connective

namespace Condition

inductive Token where
  | boolean (name : String)
  | not
  | binary (op : Connective)
deriving DecidableEq

namespace Token

def key : Token → Nat × String
  | boolean name => (0, name)
  | not => (1, "")
  | binary op => (op.ctorIdx + 2, "")

theorem key_injective (a b : Token) (h : a.key = b.key) : a = b := by
  cases a with
  | boolean name => cases b <;> simp_all [key]
  | not => cases b <;> simp_all [key]
  | binary op =>
    cases b with
    | boolean name => simp_all [key]
    | not => simp_all [key]
    | binary op' => cases op <;> cases op' <;> cases h <;> rfl

instance : Ord Token :=
  ordByKey key

instance : Std.TransOrd Token :=
  transOrd_ordByKey _

instance : Std.LawfulEqOrd Token :=
  lawfulEqOrd_ordByKey _ key_injective

def text : Token → String
  | boolean name => name
  | not => "!"
  | binary op => op.symbol

def name? : Token → Option String
  | boolean name => some name
  | _ => none

/-- The height of the stack after a token; `none` if the token finds too few operands. -/
def heightAfter? (height : Nat) : Token → Option Nat
  | boolean _ => some (height + 1)
  | not => if height < 1 then none else some height
  | binary _ => if height < 2 then none else some (height - 1)

end Token

def textOf (tokens : List Token) : String :=
  " ".intercalate (tokens.map Token.text)

def booleansOf (tokens : List Token) : NameSet :=
  .ofList (tokens.filterMap Token.name?)

/-- Each operator finds its operands, and one value is left. -/
def Balanced (tokens : List Token) : Prop :=
  tokens.foldlM Token.heightAfter? 0 = some 1

instance (tokens : List Token) : Decidable (Balanced tokens) :=
  inferInstanceAs (Decidable (_ = _))

def maxBooleans : Nat :=
  20

end Condition

structure Condition where
  tokens : List Condition.Token
  balanced : Condition.Balanced tokens
  size_booleans_le : (Condition.booleansOf tokens).size ≤ Condition.maxBooleans
deriving DecidableEq

namespace Condition

def ofTokens (tokens : List Token) : Except PolicyError Condition :=
  if balanced : Balanced tokens then
    if few : (booleansOf tokens).size ≤ maxBooleans then .ok ⟨tokens, balanced, few⟩
    else .error (.tooManyBooleans (booleansOf tokens).size maxBooleans)
  else .error (.badExpression (textOf tokens))

def boolean (name : String) : Condition where
  tokens := [.boolean name]
  balanced := rfl
  size_booleans_le := Nat.le_trans Std.ExtTreeSet.size_ofList_le (by decide : 1 ≤ maxBooleans)

instance : Ord Condition :=
  ordByKey tokens

instance : Std.TransOrd Condition :=
  transOrd_ordByKey _

instance : Std.LawfulEqOrd Condition :=
  lawfulEqOrd_ordByKey _ fun a b h => by
    cases a; cases b; simp_all

def text (c : Condition) : String :=
  textOf c.tokens

def booleans (c : Condition) : NameSet :=
  booleansOf c.tokens

def step (c : Condition) (values : NameTable Bool) :
    List Bool → Token → Except PolicyError (List Bool)
  | stack, .boolean name =>
    match values[name]? with
    | some value => .ok (value :: stack)
    | none => .error (.unknownBoolean name)
  | a :: stack, .not => .ok ((!a) :: stack)
  | b :: a :: stack, .binary op => .ok (op.apply a b :: stack)
  | _, _ => .error (.badExpression c.text)

def evaluate (c : Condition) (values : NameTable Bool) : Except PolicyError Bool := do
  match ← c.tokens.foldlM (c.step values) [] with
  | value :: _ => return value
  | [] => throw (.badExpression c.text)

end Condition

/-- A place in a conditional block: in the branch for a true or in that for a false condition. -/
structure Conditional where
  condition : Condition
  branch : Bool
deriving DecidableEq

namespace Conditional

/-- Whether the rules at this place count when the booleans have the given values. -/
def isEnabled (c : Conditional) (values : NameTable Bool) : Except PolicyError Bool :=
  return (← c.condition.evaluate values) == c.branch

end Conditional

end PolicyAnalysis
