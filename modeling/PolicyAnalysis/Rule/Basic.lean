import PolicyAnalysis.Condition.Basic
import PolicyAnalysis.Label

/-!
# Rules

The statements of a policy that come after its declarations. A source or target of a rule between types is
the name of a type, an alias or an attribute; as a target, `self` stands for the source.
-/

namespace PolicyAnalysis

/-- Permissions of subjects of a type on objects of a type. -/
structure AccessRule where
  kind : AccessKind
  source : String
  target : String
  objectClass : String
  perms : NameSet
  conditional : Option Conditional
deriving DecidableEq

/-- The numbers that a permission such as `ioctl` may be used with. -/
structure ExtendedRule where
  kind : ExtendedKind
  source : String
  target : String
  objectClass : String
  perm : String
  numbers : Std.ExtTreeSet UInt16
deriving DecidableEq

structure TypeRule where
  kind : TypeRuleKind
  source : String
  target : String
  objectClass : String
  default : String
  /-- The only object name that the rule is for. -/
  fileName : Option String
  conditional : Option Conditional
deriving DecidableEq

/-- A step between two roles, or the role of a process that runs a file: the target is then a type, and
the rule has a class and a default. -/
structure RoleRule where
  kind : RoleRuleKind
  source : String
  target : String
  objectClass : Option String
  default : Option String
deriving DecidableEq

structure RangeRule where
  source : String
  target : String
  objectClass : String
  default : Range
deriving DecidableEq

/-- The child type may do no more than its parent. -/
structure Bound where
  parent : String
  child : String
deriving DecidableEq

structure DefaultRule where
  kind : DefaultKind
  objectClass : String
  side : DefaultSide
  part : Option RangePart
deriving DecidableEq

structure Constraint where
  kind : ConstraintKind
  objectClass : String
  perms : NameSet
  /-- The words of the expression, operators behind their operands. -/
  words : List String
deriving DecidableEq

instance : Ord Constraint :=
  ordByKey fun c => (c.kind, c.objectClass, c.perms, c.words)

instance : Std.TransOrd Constraint :=
  transOrd_ordByKey _

instance : Std.LawfulEqOrd Constraint :=
  lawfulEqOrd_ordByKey _ fun a b h => by
    cases a; cases b; simp_all

inductive Rule where
  | access (rule : AccessRule)
  | extended (rule : ExtendedRule)
  | type (rule : TypeRule)
  | role (rule : RoleRule)
  | range (rule : RangeRule)
  | bound (rule : Bound)
  | default (rule : DefaultRule)
  | constraint (rule : Constraint)
  | filesystem (label : FilesystemLabel)
  | path (label : PathLabel)
  | port (label : PortLabel)
  | node (label : NodeLabel)
  | interface (label : InterfaceLabel)
  | pkey (label : PkeyLabel)
  | endport (label : EndportLabel)
deriving DecidableEq

def Rule.keyword : Rule → String
  | access rule => Named.name rule.kind
  | extended rule => Named.name rule.kind
  | type rule => Named.name rule.kind
  | role rule => Named.name rule.kind
  | range _ => "range_transition"
  | bound _ => "typebounds"
  | default rule => Named.name rule.kind
  | constraint rule => Named.name rule.kind
  | filesystem label => Named.name label.use
  | path _ => "genfscon"
  | port _ => "portcon"
  | node _ => "nodecon"
  | interface _ => "netifcon"
  | pkey _ => "ibpkeycon"
  | endport _ => "ibendportcon"

end PolicyAnalysis
