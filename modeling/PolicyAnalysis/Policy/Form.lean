import PolicyAnalysis.Policy.Basic
import PolicyAnalysis.Rule.Form

/-!
# The JSON form of policies

The symbols of a policy and the policy as a whole, with its rules listed by kind.
-/

namespace PolicyAnalysis

instance : ToJson Properties where
  toJson p := .obj [
    ("handle_unknown", toJson p.unknownUse),
    ("mls", toJson p.multiLevel),
    ("version", toJson p.version)]

instance : OfJson Properties where
  ofJson? j := do
    let [unknownUse, multiLevel, version] ← j.record? ["handle_unknown", "mls", "version"] | none
    return ⟨← unknownUse.required?, ← multiLevel.required?, ← version.required?⟩

instance : ToJson TypeSymbol where
  toJson t := .obj [
    ("name", toJson t.name),
    ("aliases", toJson t.aliases),
    ("attributes", toJson t.attributes),
    ("permissive", toJson t.permissive)]

instance : OfJson TypeSymbol where
  ofJson? j := do
    let [name, aliases, attributes, permissive] ←
      j.record? ["name", "aliases", "attributes", "permissive"]
      | none
    return ⟨← name.required?, ← aliases.required?, ← attributes.required?, ← permissive.required?⟩

instance : ToJson Attribute where
  toJson a := .obj [
    ("name", toJson a.name),
    ("types", toJson a.types)]

instance : OfJson Attribute where
  ofJson? j := do
    let [name, types] ← j.record? ["name", "types"] | none
    return ⟨← name.required?, ← types.required?⟩

instance : ToJson Role where
  toJson r := .obj [
    ("name", toJson r.name),
    ("types", toJson r.types)]

instance : OfJson Role where
  ofJson? j := do
    let [name, types] ← j.record? ["name", "types"] | none
    return ⟨← name.required?, ← types.required?⟩

instance : ToJson User where
  toJson u := .obj [
    ("name", toJson u.name),
    ("roles", toJson u.roles),
    ("mls_level", toJson u.level),
    ("mls_range", toJson u.range)]

instance : OfJson User where
  ofJson? j := do
    let [name, roles, level, range] ← j.record? ["name", "roles", "mls_level", "mls_range"] | none
    return ⟨← name.required?, ← roles.required?, ← level.optional?, ← range.optional?⟩

instance : ToJson Boolean where
  toJson b := .obj [
    ("name", toJson b.name),
    ("state", toJson b.state)]

instance : OfJson Boolean where
  ofJson? j := do
    let [name, state] ← j.record? ["name", "state"] | none
    return ⟨← name.required?, ← state.required?⟩

instance : ToJson CommonPerms where
  toJson c := .obj [
    ("name", toJson c.name),
    ("perms", toJson c.perms)]

instance : OfJson CommonPerms where
  ofJson? j := do
    let [name, perms] ← j.record? ["name", "perms"] | none
    return ⟨← name.required?, ← perms.required?⟩

instance : ToJson ObjectClass where
  toJson c := .obj [
    ("name", toJson c.name),
    ("common", toJson c.common),
    ("perms", toJson c.perms)]

instance : OfJson ObjectClass where
  ofJson? j := do
    let [name, common, perms] ← j.record? ["name", "common", "perms"] | none
    return ⟨← name.required?, ← common.optional?, ← perms.required?⟩

instance : ToJson MlsSymbol where
  toJson s := .obj [
    ("name", toJson s.name),
    ("aliases", toJson s.aliases)]

instance : OfJson MlsSymbol where
  ofJson? j := do
    let [name, aliases] ← j.record? ["name", "aliases"] | none
    return ⟨← name.required?, ← aliases.required?⟩

instance : ToJson Policy where
  toJson p := .obj [
    ("name", toJson p.name),
    ("properties", toJson p.properties),
    ("types", toJson p.types),
    ("attributes", toJson p.attributes),
    ("roles", toJson p.roles),
    ("users", toJson p.users),
    ("booleans", toJson p.booleans),
    ("commons", toJson p.commons),
    ("classes", toJson p.classes),
    ("sensitivities", toJson p.sensitivities),
    ("categories", toJson p.categories),
    ("levels", toJson p.levels),
    ("polcaps", toJson p.capabilities),
    ("avrules", toJson p.accessRules),
    ("avrules_xperm", toJson p.extendedRules),
    ("type_rules", toJson p.typeRules),
    ("rbac_rules", toJson p.roleRules),
    ("range_transitions", toJson p.rangeRules),
    ("bounds", toJson p.bounds),
    ("defaults", toJson p.defaultRules),
    ("constraints", toJson p.constraints),
    ("fs_uses", toJson p.filesystemLabels),
    ("genfscons", toJson p.pathLabels),
    ("portcons", toJson p.portLabels),
    ("nodecons", toJson p.nodeLabels),
    ("netifcons", toJson p.interfaceLabels),
    ("ibpkeycons", toJson p.pkeyLabels),
    ("ibendportcons", toJson p.endportLabels),
    ("initial_sids", toJson p.initialSids)]

end PolicyAnalysis
