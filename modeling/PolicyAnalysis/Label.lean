import PolicyAnalysis.Context
import PolicyAnalysis.Keyword
import PolicyAnalysis.Network

/-!
# Labels

Statements that give a context to something outside the policy: the files of a file system, a network port,
a node, an interface, a partition key. `of` builds a range of ports or keys whose ends are in order; the types
admit others, since a range may come from a file.
-/

namespace PolicyAnalysis

/-- All ports between two, both included. -/
structure PortRange where
  low : UInt16
  high : UInt16
deriving DecidableEq

namespace PortRange

def of (low high : UInt16) : Except PolicyError PortRange :=
  if high < low then .error (.portsOutOfOrder low high) else .ok ⟨low, high⟩

instance : Ord PortRange :=
  ordByKey fun r => (r.low.toNat, r.high.toNat)

instance : Std.TransOrd PortRange :=
  transOrd_ordByKey _

instance : Std.LawfulEqOrd PortRange :=
  lawfulEqOrd_ordByKey _ fun a b h => by
    cases a; cases b; simp_all [UInt16.toNat_inj]

end PortRange

structure PkeyRange where
  low : UInt16
  high : UInt16
deriving DecidableEq

namespace PkeyRange

def of (low high : UInt16) : Except PolicyError PkeyRange :=
  if high < low then .error (.pkeysOutOfOrder low high) else .ok ⟨low, high⟩

instance : Ord PkeyRange :=
  ordByKey fun r => (r.low.toNat, r.high.toNat)

instance : Std.TransOrd PkeyRange :=
  transOrd_ordByKey _

instance : Std.LawfulEqOrd PkeyRange :=
  lawfulEqOrd_ordByKey _ fun a b h => by
    cases a; cases b; simp_all [UInt16.toNat_inj]

end PkeyRange

structure FilesystemLabel where
  use : FilesystemUse
  filesystem : String
  context : Context
deriving DecidableEq

/-- The label of the files below a path of a file system that stores no labels. -/
structure PathLabel where
  filesystem : String
  path : String
  /-- The only type of file that the label is for. -/
  fileType : Option String
  context : Context
deriving DecidableEq

structure PortLabel where
  protocol : Protocol
  ports : PortRange
  context : Context
deriving DecidableEq

structure NodeLabel where
  network : Network
  context : Context
deriving DecidableEq

structure InterfaceLabel where
  interface : String
  context : Context
  /-- The context of the packets that come in. -/
  packet : Context
deriving DecidableEq

structure PkeyLabel where
  /-- The address of version 6 that stands for the subnet. -/
  subnet : BitVec 128
  pkeys : PkeyRange
  context : Context
deriving DecidableEq

structure EndportLabel where
  device : String
  port : UInt8
  context : Context
deriving DecidableEq

/-- The label of an object that is there before any rule is read. -/
structure InitialSid where
  name : String
  context : Context
deriving DecidableEq

/-- The names of the initial objects, the one with number 1 first. -/
def initialSidNames : List String :=
  ["kernel", "security", "unlabeled", "fs", "file", "file_labels", "init", "any_socket", "port", "netif",
    "netmsg", "node", "igmp_packet", "icmp_socket", "tcp_socket", "sysctl_modprobe", "sysctl", "sysctl_fs",
    "sysctl_kernel", "sysctl_net", "sysctl_net_unix", "sysctl_vm", "sysctl_dev", "kmod", "policy",
    "scmp_packet", "devnull"]

/-- The name of an initial object with a number; no object has number 0. -/
def initialSidName? (number : UInt32) : Option String :=
  if number = 0 then none else initialSidNames[number.toNat - 1]?

end PolicyAnalysis
