import PolicyAnalysis.Level

/-!
# Symbols

What a policy declares before its rules.
-/

namespace PolicyAnalysis

structure TypeSymbol where
  name : String
  aliases : NameSet
  attributes : NameSet
  /-- Whether a refused access is only reported. -/
  permissive : Bool
deriving DecidableEq

/-- A name for all types that list it. -/
structure Attribute where
  name : String
  types : NameSet
deriving DecidableEq

structure Role where
  name : String
  types : NameSet
deriving DecidableEq

structure User where
  name : String
  roles : NameSet
  level : Option Level
  range : Option Range
deriving DecidableEq

structure Boolean where
  name : String
  state : Bool
deriving DecidableEq

structure CommonPerms where
  name : String
  perms : NameSet
deriving DecidableEq

structure ObjectClass where
  name : String
  common : Option String
  /-- The permissions that the class does not share. -/
  perms : NameSet
deriving DecidableEq

/-- A sensitivity or a category: a name with other names for it. -/
structure MlsSymbol where
  name : String
  aliases : NameSet
deriving DecidableEq

def TypeSymbol.answersTo (t : TypeSymbol) (name : String) : Bool :=
  t.name == name || t.aliases.contains name

def MlsSymbol.answersTo (s : MlsSymbol) (name : String) : Bool :=
  s.name == name || s.aliases.contains name

end PolicyAnalysis
