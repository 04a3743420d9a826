import PolicyAnalysis.Name

/-!
# Keywords

What rules are called in a policy's text. Each kind of rule comes before those listed after it.
-/

namespace PolicyAnalysis

inductive AccessKind where
  | allow
  | auditallow
  | dontaudit
  | neverallow
deriving DecidableEq

namespace AccessKind

instance : Ord AccessKind :=
  ordByKey AccessKind.ctorIdx

instance : Std.TransOrd AccessKind :=
  transOrd_ordByKey _

instance : Std.LawfulEqOrd AccessKind :=
  lawfulEqOrd_ordByKey _ fun a b h => by
    cases a <;> cases b <;> cases h <;> rfl

instance : Named AccessKind where
  all := [.allow, .auditallow, .dontaudit, .neverallow]
  name
    | allow => "allow"
    | auditallow => "auditallow"
    | dontaudit => "dontaudit"
    | neverallow => "neverallow"

end AccessKind

inductive ExtendedKind where
  | allow
  | auditallow
  | dontaudit
  | neverallow
deriving DecidableEq

namespace ExtendedKind

instance : Ord ExtendedKind :=
  ordByKey ExtendedKind.ctorIdx

instance : Std.TransOrd ExtendedKind :=
  transOrd_ordByKey _

instance : Std.LawfulEqOrd ExtendedKind :=
  lawfulEqOrd_ordByKey _ fun a b h => by
    cases a <;> cases b <;> cases h <;> rfl

instance : Named ExtendedKind where
  all := [.allow, .auditallow, .dontaudit, .neverallow]
  name
    | allow => "allowxperm"
    | auditallow => "auditallowxperm"
    | dontaudit => "dontauditxperm"
    | neverallow => "neverallowxperm"

end ExtendedKind

/-- What a type rule decides: the type of a new object, of a relabelled one, or of a member. -/
inductive TypeRuleKind where
  | transition
  | change
  | member
deriving DecidableEq

namespace TypeRuleKind

instance : Ord TypeRuleKind :=
  ordByKey TypeRuleKind.ctorIdx

instance : Std.TransOrd TypeRuleKind :=
  transOrd_ordByKey _

instance : Std.LawfulEqOrd TypeRuleKind :=
  lawfulEqOrd_ordByKey _ fun a b h => by
    cases a <;> cases b <;> cases h <;> rfl

instance : Named TypeRuleKind where
  all := [.transition, .change, .member]
  name
    | transition => "type_transition"
    | change => "type_change"
    | member => "type_member"

end TypeRuleKind

inductive RoleRuleKind where
  | allow
  | transition
deriving DecidableEq

namespace RoleRuleKind

instance : Ord RoleRuleKind :=
  ordByKey RoleRuleKind.ctorIdx

instance : Std.TransOrd RoleRuleKind :=
  transOrd_ordByKey _

instance : Std.LawfulEqOrd RoleRuleKind :=
  lawfulEqOrd_ordByKey _ fun a b h => by
    cases a <;> cases b <;> cases h <;> rfl

instance : Named RoleRuleKind where
  all := [.allow, .transition]
  name
    | allow => "allow"
    | transition => "role_transition"

end RoleRuleKind

/-- The part of a new object's context that a default rule is about. -/
inductive DefaultKind where
  | user
  | role
  | type
  | range
deriving DecidableEq

namespace DefaultKind

instance : Ord DefaultKind :=
  ordByKey DefaultKind.ctorIdx

instance : Std.TransOrd DefaultKind :=
  transOrd_ordByKey _

instance : Std.LawfulEqOrd DefaultKind :=
  lawfulEqOrd_ordByKey _ fun a b h => by
    cases a <;> cases b <;> cases h <;> rfl

instance : Named DefaultKind where
  all := [.user, .role, .type, .range]
  name
    | user => "default_user"
    | role => "default_role"
    | type => "default_type"
    | range => "default_range"

end DefaultKind

inductive DefaultSide where
  | source
  | target
  | glblub
deriving DecidableEq

namespace DefaultSide

instance : Ord DefaultSide :=
  ordByKey DefaultSide.ctorIdx

instance : Std.TransOrd DefaultSide :=
  transOrd_ordByKey _

instance : Std.LawfulEqOrd DefaultSide :=
  lawfulEqOrd_ordByKey _ fun a b h => by
    cases a <;> cases b <;> cases h <;> rfl

instance : Named DefaultSide where
  all := [.source, .target, .glblub]
  name
    | source => "source"
    | target => "target"
    | glblub => "glblub"

end DefaultSide

inductive RangePart where
  | low
  | high
  | both
deriving DecidableEq

namespace RangePart

instance : Ord RangePart :=
  ordByKey RangePart.ctorIdx

instance : Std.TransOrd RangePart :=
  transOrd_ordByKey _

instance : Std.LawfulEqOrd RangePart :=
  lawfulEqOrd_ordByKey _ fun a b h => by
    cases a <;> cases b <;> cases h <;> rfl

instance : Named RangePart where
  all := [.low, .high, .both]
  name
    | low => "low"
    | high => "high"
    | both => "low_high"

def keyword : RangePart → String
  | low => "low"
  | high => "high"
  | both => "low-high"

end RangePart

inductive ConstraintKind where
  | constrain
  | mlsconstrain
  | validatetrans
  | mlsvalidatetrans
deriving DecidableEq

namespace ConstraintKind

instance : Ord ConstraintKind :=
  ordByKey ConstraintKind.ctorIdx

instance : Std.TransOrd ConstraintKind :=
  transOrd_ordByKey _

instance : Std.LawfulEqOrd ConstraintKind :=
  lawfulEqOrd_ordByKey _ fun a b h => by
    cases a <;> cases b <;> cases h <;> rfl

instance : Named ConstraintKind where
  all := [.constrain, .mlsconstrain, .validatetrans, .mlsvalidatetrans]
  name
    | constrain => "constrain"
    | mlsconstrain => "mlsconstrain"
    | validatetrans => "validatetrans"
    | mlsvalidatetrans => "mlsvalidatetrans"

end ConstraintKind

/-- How the files of a file system get their labels. -/
inductive FilesystemUse where
  | xattr
  | trans
  | task
deriving DecidableEq

namespace FilesystemUse

instance : Ord FilesystemUse :=
  ordByKey FilesystemUse.ctorIdx

instance : Std.TransOrd FilesystemUse :=
  transOrd_ordByKey _

instance : Std.LawfulEqOrd FilesystemUse :=
  lawfulEqOrd_ordByKey _ fun a b h => by
    cases a <;> cases b <;> cases h <;> rfl

instance : Named FilesystemUse where
  all := [.xattr, .trans, .task]
  name
    | xattr => "fs_use_xattr"
    | trans => "fs_use_trans"
    | task => "fs_use_task"

end FilesystemUse

inductive Protocol where
  | tcp
  | udp
  | dccp
  | sctp
deriving DecidableEq

namespace Protocol

instance : Ord Protocol :=
  ordByKey Protocol.ctorIdx

instance : Std.TransOrd Protocol :=
  transOrd_ordByKey _

instance : Std.LawfulEqOrd Protocol :=
  lawfulEqOrd_ordByKey _ fun a b h => by
    cases a <;> cases b <;> cases h <;> rfl

instance : Named Protocol where
  all := [.tcp, .udp, .dccp, .sctp]
  name
    | tcp => "tcp"
    | udp => "udp"
    | dccp => "dccp"
    | sctp => "sctp"

end Protocol

end PolicyAnalysis
