import PolicyAnalysis.Difference.Rules

/-!
# Differences in labels

Labels are matched by what they are on. They differ when they give it another context.
-/

namespace PolicyAnalysis

structure InterfaceChange where
  context : Option (ValueChange Context)
  packet : Option (ValueChange Context)

def InterfaceLabel.change? (left right : InterfaceLabel) : Option InterfaceChange :=
  if left.context = right.context ∧ left.packet = right.packet then none
  else some {
    context := ValueChange.between? left.context right.context
    packet := ValueChange.between? left.packet right.packet }

namespace Aspect

def filesystems : Aspect where
  name := "fs_uses"
  Key := FilesystemUse × String
  Item := FilesystemLabel
  Change := ValueChange Context
  table p := .ok (tableBy (fun label => (label.use, label.filesystem)) p.filesystemLabels)
  change? left right := ValueChange.between? left.context right.context
  changeForm := ruleForm "context"

def paths : Aspect where
  name := "genfscons"
  Key := String × String × Option String
  Item := PathLabel
  Change := ValueChange Context
  table p := .ok (tableBy (fun label => (label.filesystem, label.path, label.fileType)) p.pathLabels)
  change? left right := ValueChange.between? left.context right.context
  changeForm := ruleForm "context"

def ports : Aspect where
  name := "portcons"
  Key := Protocol × UInt16 × UInt16
  Item := PortLabel
  Change := ValueChange Context
  table p := .ok (tableBy (fun label => (label.protocol, label.ports.low, label.ports.high)) p.portLabels)
  change? left right := ValueChange.between? left.context right.context
  changeForm := ruleForm "context"

def nodes : Aspect where
  name := "nodecons"
  Key := Network
  Item := NodeLabel
  Change := ValueChange Context
  table p := .ok (tableBy NodeLabel.network p.nodeLabels)
  change? left right := ValueChange.between? left.context right.context
  changeForm := ruleForm "context"

def interfaces : Aspect where
  name := "netifcons"
  Key := String
  Item := InterfaceLabel
  Change := InterfaceChange
  table p := .ok (tableBy InterfaceLabel.interface p.interfaceLabels)
  change? := InterfaceLabel.change?
  changeForm label change := [
    ("netif", .str label.interface),
    ("context", toJson change.context),
    ("packet", toJson change.packet)]

def pkeys : Aspect where
  name := "ibpkeycons"
  Key := BitVec 128 × UInt16 × UInt16
  Item := PkeyLabel
  Change := ValueChange Context
  table p := .ok (tableBy (fun label => (label.subnet, label.pkeys.low, label.pkeys.high)) p.pkeyLabels)
  change? left right := ValueChange.between? left.context right.context
  changeForm := ruleForm "context"

def endports : Aspect where
  name := "ibendportcons"
  Key := String × UInt8
  Item := EndportLabel
  Change := ValueChange Context
  table p := .ok (tableBy (fun label => (label.device, label.port)) p.endportLabels)
  change? left right := ValueChange.between? left.context right.context
  changeForm := ruleForm "context"

def initialSids : Aspect where
  name := "initial_sids"
  Key := String
  Item := InitialSid
  Change := ValueChange Context
  table p := .ok p.initialSids
  change? left right := ValueChange.between? left.context right.context
  changeForm := ruleForm "context"

def ofLabels : List Aspect :=
  [filesystems, paths, ports, nodes, interfaces, pkeys, endports, initialSids]

end Aspect

end PolicyAnalysis
