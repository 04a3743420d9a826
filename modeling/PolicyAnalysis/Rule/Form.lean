import PolicyAnalysis.Json.Form
import PolicyAnalysis.Rule.Basic

/-!
# The JSON form of rules

A rule is an object whose one field is named for its kind and holds its parts. Reading checks conditions, and
takes ranges of ports and keys, and networks, as they come.
-/

namespace PolicyAnalysis

instance : ToJson Level where
  toJson l := .obj [
    ("sensitivity", toJson l.sensitivity),
    ("categories", toJson l.categories)]

instance : OfJson Level where
  ofJson? j := do
    let [sensitivity, categories] ← j.record? ["sensitivity", "categories"] | none
    return ⟨← sensitivity.required?, ← categories.required?⟩

instance : ToJson Range where
  toJson r := .obj [
    ("low", toJson r.low),
    ("high", toJson r.high)]

instance : OfJson Range where
  ofJson? j := do
    let [low, high] ← j.record? ["low", "high"] | none
    return ⟨← low.required?, ← high.required?⟩

instance : ToJson Context where
  toJson c := .obj [
    ("user", toJson c.user),
    ("role", toJson c.role),
    ("type", toJson c.type),
    ("range", toJson c.range)]

instance : OfJson Context where
  ofJson? j := do
    let [user, role, type, range] ← j.record? ["user", "role", "type", "range"] | none
    return ⟨← user.required?, ← role.required?, ← type.required?, ← range.optional?⟩

instance : ToJson Address := ⟨fun a => .str a.text⟩

instance : OfJson Address where
  ofJson?
    | .str s => Address.ofText? s
    | _ => none

instance : ToJson Network where
  toJson n := .obj [
    ("address", toJson n.address),
    ("prefix_len", toJson n.bits)]

instance : OfJson Network where
  ofJson? j := do
    let [address, bits] ← j.record? ["address", "prefix_len"] | none
    return ⟨← address.required?, ← bits.required?⟩

instance : ToJson PortRange where
  toJson r := .obj [
    ("low", toJson r.low),
    ("high", toJson r.high)]

instance : OfJson PortRange where
  ofJson? j := do
    let [low, high] ← j.record? ["low", "high"] | none
    return ⟨← low.required?, ← high.required?⟩

instance : ToJson PkeyRange where
  toJson r := .obj [
    ("low", toJson r.low),
    ("high", toJson r.high)]

instance : OfJson PkeyRange where
  ofJson? j := do
    let [low, high] ← j.record? ["low", "high"] | none
    return ⟨← low.required?, ← high.required?⟩

def Connective.jsonName : Connective → String
  | and => "And"
  | or => "Or"
  | xor => "Xor"
  | eq => "Eq"
  | neq => "Neq"

namespace Condition.Token

instance : ToJson Token where
  toJson
    | boolean name => .obj [("Bool", .str name)]
    | not => .str "Not"
    | binary op => .str op.jsonName

/-- The operator with a name. -/
def ofName? (name : String) : Option Token :=
  if name = "Not" then some .not
  else
    ([.and, .or, .xor, .eq, .neq].find? fun (op : Connective) => op.jsonName == name).map .binary

instance : OfJson Token where
  ofJson? j :=
    match j.variant? with
    | some ("Bool", some (.str name)) => some (.boolean name)
    | _ => j.name?.bind ofName?

end Condition.Token

instance : ToJson Condition := ⟨fun c => toJson c.tokens⟩

instance : OfJson Condition where
  ofJson? j := do
    let tokens ← ofJson? j
    (Condition.ofTokens tokens).toOption

instance : ToJson Conditional where
  toJson c := .obj [
    ("expr", toJson c.condition),
    ("branch", toJson c.branch)]

instance : OfJson Conditional where
  ofJson? j := do
    let [condition, branch] ← j.record? ["expr", "branch"] | none
    return ⟨← condition.required?, ← branch.required?⟩

instance : ToJson AccessRule where
  toJson r := .obj [
    ("ruletype", toJson r.kind),
    ("source", toJson r.source),
    ("target", toJson r.target),
    ("tclass", toJson r.objectClass),
    ("perms", toJson r.perms),
    ("conditional", toJson r.conditional)]

instance : OfJson AccessRule where
  ofJson? j := do
    let [kind, source, target, objectClass, perms, conditional] ←
      j.record? ["ruletype", "source", "target", "tclass", "perms", "conditional"]
      | none
    return ⟨← kind.required?, ← source.required?, ← target.required?,
      ← objectClass.required?, ← perms.required?, ← conditional.optional?⟩

instance : ToJson ExtendedRule where
  toJson r := .obj [
    ("ruletype", toJson r.kind),
    ("source", toJson r.source),
    ("target", toJson r.target),
    ("tclass", toJson r.objectClass),
    ("xperm_type", toJson r.perm),
    ("perms", toJson r.numbers)]

instance : OfJson ExtendedRule where
  ofJson? j := do
    let [kind, source, target, objectClass, perm, numbers] ←
      j.record? ["ruletype", "source", "target", "tclass", "xperm_type", "perms"]
      | none
    return ⟨← kind.required?, ← source.required?, ← target.required?,
      ← objectClass.required?, ← perm.required?, ← numbers.required?⟩

instance : ToJson TypeRule where
  toJson r := .obj [
    ("ruletype", toJson r.kind),
    ("source", toJson r.source),
    ("target", toJson r.target),
    ("tclass", toJson r.objectClass),
    ("default", toJson r.default),
    ("filename", toJson r.fileName),
    ("conditional", toJson r.conditional)]

instance : OfJson TypeRule where
  ofJson? j := do
    let [kind, source, target, objectClass, default, fileName, conditional] ←
      j.record? ["ruletype", "source", "target", "tclass", "default", "filename", "conditional"]
      | none
    return ⟨← kind.required?, ← source.required?, ← target.required?, ← objectClass.required?,
      ← default.required?, ← fileName.optional?, ← conditional.optional?⟩

instance : ToJson RoleRule where
  toJson r := .obj [
    ("ruletype", toJson r.kind),
    ("source", toJson r.source),
    ("target", toJson r.target),
    ("tclass", toJson r.objectClass),
    ("default", toJson r.default)]

instance : OfJson RoleRule where
  ofJson? j := do
    let [kind, source, target, objectClass, default] ←
      j.record? ["ruletype", "source", "target", "tclass", "default"]
      | none
    return ⟨← kind.required?, ← source.required?, ← target.required?,
      ← objectClass.optional?, ← default.optional?⟩

instance : ToJson RangeRule where
  toJson r := .obj [
    ("source", toJson r.source),
    ("target", toJson r.target),
    ("tclass", toJson r.objectClass),
    ("default", toJson r.default)]

instance : OfJson RangeRule where
  ofJson? j := do
    let [source, target, objectClass, default] ← j.record? ["source", "target", "tclass", "default"] | none
    return ⟨← source.required?, ← target.required?, ← objectClass.required?, ← default.required?⟩

instance : ToJson Bound where
  toJson b := .obj [
    ("parent", toJson b.parent),
    ("child", toJson b.child)]

instance : OfJson Bound where
  ofJson? j := do
    let [parent, child] ← j.record? ["parent", "child"] | none
    return ⟨← parent.required?, ← child.required?⟩

instance : ToJson DefaultRule where
  toJson r := .obj [
    ("ruletype", toJson r.kind),
    ("tclass", toJson r.objectClass),
    ("default", toJson r.side),
    ("default_range", toJson r.part)]

instance : OfJson DefaultRule where
  ofJson? j := do
    let [kind, objectClass, side, part] ←
      j.record? ["ruletype", "tclass", "default", "default_range"]
      | none
    return ⟨← kind.required?, ← objectClass.required?, ← side.required?, ← part.optional?⟩

instance : ToJson Constraint where
  toJson c := .obj [
    ("ruletype", toJson c.kind),
    ("tclass", toJson c.objectClass),
    ("perms", toJson c.perms),
    ("expr", toJson c.words)]

instance : OfJson Constraint where
  ofJson? j := do
    let [kind, objectClass, perms, words] ← j.record? ["ruletype", "tclass", "perms", "expr"] | none
    return ⟨← kind.required?, ← objectClass.required?, ← perms.required?, ← words.required?⟩

instance : ToJson FilesystemLabel where
  toJson l := .obj [
    ("ruletype", toJson l.use),
    ("fs", toJson l.filesystem),
    ("context", toJson l.context)]

instance : OfJson FilesystemLabel where
  ofJson? j := do
    let [use, filesystem, context] ← j.record? ["ruletype", "fs", "context"] | none
    return ⟨← use.required?, ← filesystem.required?, ← context.required?⟩

instance : ToJson PathLabel where
  toJson l := .obj [
    ("fs", toJson l.filesystem),
    ("path", toJson l.path),
    ("filetype", toJson l.fileType),
    ("context", toJson l.context)]

instance : OfJson PathLabel where
  ofJson? j := do
    let [filesystem, path, fileType, context] ← j.record? ["fs", "path", "filetype", "context"] | none
    return ⟨← filesystem.required?, ← path.required?, ← fileType.optional?, ← context.required?⟩

instance : ToJson PortLabel where
  toJson l := .obj [
    ("protocol", toJson l.protocol),
    ("ports", toJson l.ports),
    ("context", toJson l.context)]

instance : OfJson PortLabel where
  ofJson? j := do
    let [protocol, ports, context] ← j.record? ["protocol", "ports", "context"] | none
    return ⟨← protocol.required?, ← ports.required?, ← context.required?⟩

instance : ToJson NodeLabel where
  toJson l := .obj [
    ("network", toJson l.network),
    ("context", toJson l.context)]

instance : OfJson NodeLabel where
  ofJson? j := do
    let [network, context] ← j.record? ["network", "context"] | none
    return ⟨← network.required?, ← context.required?⟩

instance : ToJson InterfaceLabel where
  toJson l := .obj [
    ("netif", toJson l.interface),
    ("context", toJson l.context),
    ("packet", toJson l.packet)]

instance : OfJson InterfaceLabel where
  ofJson? j := do
    let [interface, context, packet] ← j.record? ["netif", "context", "packet"] | none
    return ⟨← interface.required?, ← context.required?, ← packet.required?⟩

instance : ToJson PkeyLabel where
  toJson l := .obj [
    ("subnet_prefix", toJson (Address.v6 l.subnet)),
    ("pkeys", toJson l.pkeys),
    ("context", toJson l.context)]

instance : OfJson PkeyLabel where
  ofJson? j := do
    let [subnet, pkeys, context] ← j.record? ["subnet_prefix", "pkeys", "context"] | none
    let Address.v6 subnet ← subnet.required? | none
    return ⟨subnet, ← pkeys.required?, ← context.required?⟩

instance : ToJson EndportLabel where
  toJson l := .obj [
    ("name", toJson l.device),
    ("port", toJson l.port),
    ("context", toJson l.context)]

instance : OfJson EndportLabel where
  ofJson? j := do
    let [device, port, context] ← j.record? ["name", "port", "context"] | none
    return ⟨← device.required?, ← port.required?, ← context.required?⟩

instance : ToJson InitialSid where
  toJson s := .obj [
    ("name", toJson s.name),
    ("context", toJson s.context)]

instance : OfJson InitialSid where
  ofJson? j := do
    let [name, context] ← j.record? ["name", "context"] | none
    return ⟨← name.required?, ← context.required?⟩

instance : ToJson Rule where
  toJson
    | .access rule => .obj [("Av", toJson rule)]
    | .extended rule => .obj [("Xperm", toJson rule)]
    | .type rule => .obj [("Type", toJson rule)]
    | .role rule => .obj [("Rbac", toJson rule)]
    | .range rule => .obj [("RangeTransition", toJson rule)]
    | .bound rule => .obj [("Bounds", toJson rule)]
    | .default rule => .obj [("Default", toJson rule)]
    | .constraint rule => .obj [("Constraint", toJson rule)]
    | .filesystem label => .obj [("FsUse", toJson label)]
    | .path label => .obj [("Genfscon", toJson label)]
    | .port label => .obj [("Portcon", toJson label)]
    | .node label => .obj [("Nodecon", toJson label)]
    | .interface label => .obj [("Netifcon", toJson label)]
    | .pkey label => .obj [("Ibpkeycon", toJson label)]
    | .endport label => .obj [("Ibendportcon", toJson label)]

instance : OfJson Rule where
  ofJson? j := do
    let (kind, some j) ← j.variant? | none
    match kind with
    | "Av" => return .access (← ofJson? j)
    | "Xperm" => return .extended (← ofJson? j)
    | "Type" => return .type (← ofJson? j)
    | "Rbac" => return .role (← ofJson? j)
    | "RangeTransition" => return .range (← ofJson? j)
    | "Bounds" => return .bound (← ofJson? j)
    | "Default" => return .default (← ofJson? j)
    | "Constraint" => return .constraint (← ofJson? j)
    | "FsUse" => return .filesystem (← ofJson? j)
    | "Genfscon" => return .path (← ofJson? j)
    | "Portcon" => return .port (← ofJson? j)
    | "Nodecon" => return .node (← ofJson? j)
    | "Netifcon" => return .interface (← ofJson? j)
    | "Ibpkeycon" => return .pkey (← ofJson? j)
    | "Ibendportcon" => return .endport (← ofJson? j)
    | _ => none

end PolicyAnalysis
