import PolicyAnalysis.Level

/-!
# Security contexts

What an object is labelled with: a user, a role and a type, and in a multi-level policy a range.
-/

namespace PolicyAnalysis

structure Context where
  user : String
  role : String
  type : String
  range : Option Range
deriving DecidableEq

namespace Context

instance : Ord Context :=
  ordByKey fun c => (c.user, c.role, c.type, c.range)

instance : Std.TransOrd Context :=
  transOrd_ordByKey _

instance : Std.LawfulEqOrd Context :=
  lawfulEqOrd_ordByKey _ fun a b h => by
    cases a; cases b; simp_all

def text (c : Context) : String :=
  c.user ++ ":" ++ c.role ++ ":" ++ c.type ++
    match c.range with
    | some range => ":" ++ range.text
    | none => ""

end Context

end PolicyAnalysis
