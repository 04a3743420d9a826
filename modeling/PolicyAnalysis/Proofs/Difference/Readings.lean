import Mathlib.Data.List.Induction
import PolicyAnalysis.Difference.Report
import PolicyAnalysis.Proofs.Difference.Reading
import PolicyAnalysis.Proofs.Policy.Rules
import PolicyAnalysis.Proofs.Policy.Tables

/-!
# The reading of every aspect

What each aspect sees: symbols and labels as they are declared, the first of several under one key, and rules
between types as rules for single types, taken together or the first of them.
-/

namespace PolicyAnalysis

open Checked

variable {d : Draft} {p : Policy}

def AccessRule.key (rule : AccessRule) : RuleKey :=
  ⟨rule.source, rule.target, rule.objectClass, none, rule.conditional.map Conditional.identity⟩

def ExtendedRule.key (rule : ExtendedRule) : RuleKey :=
  ⟨rule.source, rule.target, rule.objectClass, some rule.perm, none⟩

def TypeRule.key (rule : TypeRule) : RuleKey :=
  ⟨rule.source, rule.target, rule.objectClass, rule.fileName, rule.conditional.map Conditional.identity⟩

def RangeRule.key (rule : RangeRule) : String × String × String :=
  (rule.source, rule.target, rule.objectClass)

def RoleTransition.key (rule : RoleTransition) : String × String × String :=
  (rule.source, rule.target, rule.objectClass)

def unionAll {α : Type} [Ord α] [Std.TransOrd α] (sets : List (Std.ExtTreeSet α)) : Std.ExtTreeSet α :=
  sets.foldl (· ∪ ·) ∅

def AccessRule.merge (a b : AccessRule) : AccessRule :=
  { a with perms := a.perms ∪ b.perms }

def ExtendedRule.merge (a b : ExtendedRule) : ExtendedRule :=
  { a with numbers := a.numbers ∪ b.numbers }

/-- The first rule, with the permissions of all. -/
def AccessRule.gather (rules : List AccessRule) : Option AccessRule :=
  rules.head?.map fun rule => { rule with perms := unionAll (rules.map (·.perms)) }

/-- The first rule, with the numbers of all. -/
def ExtendedRule.gather (rules : List ExtendedRule) : Option ExtendedRule :=
  rules.head?.map fun rule => { rule with numbers := unionAll (rules.map (·.numbers)) }

/-- Merging items one after the other puts the members of all their sets into the first. -/
theorem foldl_merge {ι α : Type} [Ord α] [Std.TransOrd α] [Std.LawfulEqOrd α] (get : ι → Std.ExtTreeSet α)
    (put : ι → Std.ExtTreeSet α → ι) (get_put : ∀ i s, get (put i s) = s) (put_get : ∀ i, put i (get i) = i)
    (put_put : ∀ i s s', put (put i s) s' = put i s') (a : ι) (rest : List ι) :
    rest.foldl (fun a b => put a (get a ∪ get b)) a = put a (unionAll ((a :: rest).map get)) := by
  induction rest using List.reverseRecOn with
  | nil =>
    have hempty : unionAll ([a].map get) = get a := by
      ext x
      simp [unionAll]
    rw [hempty, put_get]
    rfl
  | append_singleton rest b ih =>
    have hlast : unionAll ((a :: (rest ++ [b])).map get) = unionAll ((a :: rest).map get) ∪ get b := by
      simp [unionAll]
    rw [List.foldl_append, ih, hlast, List.foldl_cons, List.foldl_nil, get_put, put_put]

theorem AccessRule.gather_cons (a : AccessRule) (rest : List AccessRule) :
    gather (a :: rest) = some (rest.foldl merge a) :=
  congrArg some (foldl_merge perms (fun rule perms => { rule with perms }) (fun _ _ => rfl) (fun _ => rfl)
    (fun _ _ _ => rfl) a rest).symm

theorem ExtendedRule.gather_cons (a : ExtendedRule) (rest : List ExtendedRule) :
    gather (a :: rest) = some (rest.foldl merge a) :=
  congrArg some (foldl_merge numbers (fun rule numbers => { rule with numbers }) (fun _ _ => rfl)
    (fun _ => rfl) (fun _ _ _ => rfl) a rest).symm

namespace Policy

/-- The types that a name stands for; none if it is not declared. -/
def members (p : Policy) (name : String) : List TypeId :=
  (p.expand name).toOption.getD []

/-- The names of the pairs of types that two names stand for; none if one is not declared. -/
def pairNames (p : Policy) (source target : String) : List (String × String) :=
  (p.namedPairs source target).toOption.getD []

def expandedRole (p : Policy) (role : Role) : ExpandedRole :=
  ⟨role, .ofList ((role.types.toList.flatMap p.members).map p.typeName)⟩

/-- A class with its own permissions together with those of the common that it names. -/
def unitedClass (p : Policy) (c : ObjectClass) : ExpandedClass :=
  ⟨c, c.perms ∪ (c.common.bind (p.commons[·]?)).elim ∅ CommonPerms.perms⟩

def singleAccessRules (kind : AccessKind) (p : Policy) : List AccessRule :=
  (p.accessRules.filter (·.kind = kind)).flatMap fun rule =>
    (p.pairNames rule.source rule.target).map fun pair => { rule with source := pair.1, target := pair.2 }

def singleExtendedRules (kind : ExtendedKind) (p : Policy) : List ExtendedRule :=
  (p.extendedRules.filter (·.kind = kind)).flatMap fun rule =>
    (p.pairNames rule.source rule.target).map fun pair => { rule with source := pair.1, target := pair.2 }

def singleTypeRules (kind : TypeRuleKind) (p : Policy) : List TypeRule :=
  (p.typeRules.filter (·.kind = kind)).flatMap fun rule =>
    (p.pairNames rule.source rule.target).map fun pair => { rule with source := pair.1, target := pair.2 }

def singleRangeRules (p : Policy) : List RangeRule :=
  p.rangeRules.flatMap fun rule =>
    (p.pairNames rule.source rule.target).map fun pair => { rule with source := pair.1, target := pair.2 }

/-- The role transitions that a rule stands for. -/
def transitionsOf (p : Policy) (rule : RoleRule) : List RoleTransition :=
  match rule.kind, rule.objectClass, rule.default with
  | .transition, some objectClass, some default =>
    (p.members rule.target).map fun target => ⟨rule.source, p.typeName target, objectClass, default⟩
  | _, _, _ => []

theorem expand_eq_members {name : String} (h : ∃ ids, p.expand name = .ok ids) :
    p.expand name = .ok (p.members name) := by
  obtain ⟨ids, hids⟩ := h
  rw [members, hids]
  rfl

theorem namedPairs_eq_pairNames {source target : String} (h : ∃ pairs, p.expandPairs source target = .ok pairs) :
    p.namedPairs source target = .ok (p.pairNames source target) := by
  obtain ⟨pairs, hpairs⟩ := h
  rw [pairNames, namedPairs, hpairs]
  rfl

theorem mapM_namedPairs {ρ β γ : Type} {rules : List ρ} {source target : ρ → String}
    (h : ∀ rule ∈ rules, ∃ pairs, p.expandPairs (source rule) (target rule) = .ok pairs)
    (single : ρ → String × String → β) (collect : List β → γ) :
    (do
      let rows ← rules.mapM fun rule => do
        let pairs ← p.namedPairs (source rule) (target rule)
        return pairs.map (single rule)
      return collect rows.flatten) =
      (.ok (collect (rules.flatMap fun rule => (p.pairNames (source rule) (target rule)).map (single rule))) :
        Except PolicyError γ) := by
  have hrows : (rules.mapM fun rule => do
        let pairs ← p.namedPairs (source rule) (target rule)
        return pairs.map (single rule)) =
      (.ok (rules.map fun rule => (p.pairNames (source rule) (target rule)).map (single rule)) :
        Except PolicyError _) := by
    apply mapM_eq_ok_map
    intro rule hrule
    rw [namedPairs_eq_pairNames (h rule hrule)]
    rfl
  rw [hrows, List.flatMap_def]
  rfl

theorem mapM_namedPairs_keyed {ρ ι κ γ : Type} {rules : List ρ} {source target : ρ → String}
    (h : ∀ rule ∈ rules, ∃ pairs, p.expandPairs (source rule) (target rule) = .ok pairs)
    (single : ρ → String × String → ι) (key : ι → κ) (collect : List (κ × ι) → γ) :
    (do
      let rows ← rules.mapM fun rule => do
        let pairs ← p.namedPairs (source rule) (target rule)
        return pairs.map fun pair => (key (single rule pair), single rule pair)
      return collect rows.flatten) =
      (.ok (collect ((rules.flatMap fun rule =>
        (p.pairNames (source rule) (target rule)).map (single rule)).map fun i => (key i, i))) :
          Except PolicyError γ) := by
  rw [mapM_namedPairs h, List.map_flatMap]
  simp only [List.map_map]
  rfl

theorem expanded_eq_expandedRole (h : p.Filed) {role : Role} (hrole : role ∈ p.roles.values) :
    role.expanded p = .ok (p.expandedRole role) := by
  have hmembers : role.types.toList.mapM p.expand = .ok (role.types.toList.map p.members) := by
    apply mapM_eq_ok_map
    intro name hname
    exact expand_eq_members (h.expands role hrole name (Std.ExtTreeSet.mem_toList.mp hname))
  rw [Role.expanded, hmembers]
  rfl

theorem rolesTable_eq (h : d.build = .ok p) :
    Aspect.roles.table p =
      .ok (tableBy (fun r : ExpandedRole => r.role.name) (p.roles.values.map p.expandedRole)) := by
  have hroles : p.roles.values.mapM (Role.expanded p) = .ok (p.roles.values.map p.expandedRole) :=
    mapM_eq_ok_map fun role hrole => expanded_eq_expandedRole (filed_of_build h) hrole
  simp only [Aspect.roles, hroles]
  rfl

theorem mem_unitedClass {c : ObjectClass} {perm : String} : perm ∈ (p.unitedClass c).perms ↔
    perm ∈ c.perms ∨ ∃ name ∈ c.common, ∃ common, p.commons[name]? = some common ∧ perm ∈ common.perms := by
  rw [unitedClass, Std.ExtTreeSet.mem_union_iff]
  cases c.common with
  | none => simp
  | some name => cases hcommon : p.commons[name]? <;> simp [hcommon]

theorem classesTable_eq (p : Policy) :
    Aspect.classes.table p = .ok (p.classes.map fun _ c => p.unitedClass c) := by
  have hperms (c : ObjectClass) : p.permsOf c = (p.unitedClass c).perms := by
    ext perm
    rw [mem_permsOf, mem_unitedClass]
  simp only [Aspect.classes, hperms]
  rfl

theorem keyed_classes (h : p.Filed) :
    Keyed (fun c : ExpandedClass => c.objectClass.name) (p.classes.map fun _ c => p.unitedClass c) := by
  intro k c hc
  rw [Std.ExtTreeMap.getElem?_map] at hc
  obtain ⟨objectClass, hclass, rfl⟩ := Option.map_eq_some_iff.mp hc
  exact h.classes k objectClass hclass

theorem accessTable_eq (h : d.build = .ok p) (kind : AccessKind) :
    p.accessTable kind =
      .ok (mergeByKey AccessRule.merge ((p.singleAccessRules kind).map fun rule => (rule.key, rule))) := by
  have hpairs : ∀ rule ∈ p.accessRules.filter (·.kind = kind),
      ∃ pairs, p.expandPairs rule.source rule.target = .ok pairs := by
    intro rule hrule
    have hmem := mem_accessRules.mp (List.mem_of_mem_filter hrule)
    exact exists_expandPairs_of_mem h hmem rfl
  exact mapM_namedPairs_keyed hpairs (fun rule pair => { rule with source := pair.1, target := pair.2 })
    AccessRule.key (mergeByKey _)

theorem extendedTable_eq (h : d.build = .ok p) (kind : ExtendedKind) :
    p.extendedTable kind =
      .ok (mergeByKey ExtendedRule.merge ((p.singleExtendedRules kind).map fun rule => (rule.key, rule))) := by
  have hpairs : ∀ rule ∈ p.extendedRules.filter (·.kind = kind),
      ∃ pairs, p.expandPairs rule.source rule.target = .ok pairs := by
    intro rule hrule
    have hmem := mem_extendedRules.mp (List.mem_of_mem_filter hrule)
    exact exists_expandPairs_of_mem h hmem rfl
  exact mapM_namedPairs_keyed hpairs (fun rule pair => { rule with source := pair.1, target := pair.2 })
    ExtendedRule.key (mergeByKey _)

theorem typeRuleTable_eq (h : d.build = .ok p) (kind : TypeRuleKind) :
    p.typeRuleTable kind = .ok (tableBy TypeRule.key (p.singleTypeRules kind)) := by
  have hpairs : ∀ rule ∈ p.typeRules.filter (·.kind = kind),
      ∃ pairs, p.expandPairs rule.source rule.target = .ok pairs := by
    intro rule hrule
    have hmem := mem_typeRules.mp (List.mem_of_mem_filter hrule)
    exact exists_expandPairs_of_mem h hmem rfl
  exact mapM_namedPairs_keyed hpairs (fun rule pair => { rule with source := pair.1, target := pair.2 })
    TypeRule.key firstByKey

theorem rangeTable_eq (h : d.build = .ok p) :
    p.rangeTable = .ok (tableBy RangeRule.key p.singleRangeRules) := by
  have hpairs : ∀ rule ∈ p.rangeRules, ∃ pairs, p.expandPairs rule.source rule.target = .ok pairs := by
    intro rule hrule
    exact exists_expandPairs_of_mem h (mem_rangeRules.mp hrule) rfl
  exact mapM_namedPairs hpairs (fun rule pair => { rule with source := pair.1, target := pair.2 })
    (tableBy RangeRule.key)

theorem roleTransitionTable_eq (h : d.build = .ok p) :
    p.roleTransitionTable = .ok (tableBy RoleTransition.key (p.roleRules.flatMap p.transitionsOf)) := by
  have hrows : (p.roleRules.mapM fun rule =>
      match rule.kind, rule.objectClass, rule.default with
      | .transition, some objectClass, some default => do
        let targets ← p.expand rule.target
        return targets.map fun target => RoleTransition.mk rule.source (p.typeName target) objectClass default
      | _, _, _ => return []) = (.ok (p.roleRules.map p.transitionsOf) : Except PolicyError _) := by
    apply mapM_eq_ok_map
    intro rule hrule
    rw [transitionsOf]
    split
    next hclass _ =>
      rw [expand_eq_members (exists_expand_target h hrule hclass)]
      rfl
    next => rfl
  rw [List.flatMap_def]
  exact congrArg (· >>= fun rows => .ok (tableBy RoleTransition.key rows.flatten)) hrows

end Policy

namespace Reading

/-- A reading of an aspect whose table merges the items under each key into the first of them. -/
def ofMerged (aspect : Aspect) (lawful : Std.LawfulEqOrd aspect.Key) (items : Policy → List aspect.Item)
    (key : aspect.Item → aspect.Key) (merge : aspect.Item → aspect.Item → aspect.Item)
    (gather : List aspect.Item → Option aspect.Item) (gauge : Gauge aspect.change?)
    (key_merge : ∀ a b, key (merge a b) = key a)
    (gather_nil : gather [] = none) (gather_cons : ∀ a rest, gather (a :: rest) = some (rest.foldl merge a))
    (table_eq : ∀ {d : Draft} {p : Policy}, d.build = .ok p →
      aspect.table p = .ok (mergeByKey merge ((items p).map fun i => (key i, i)))) : Reading where
  aspect
  lawful
  items
  key
  gather
  gauge
  key_gather := by
    intro l item k hl hitem
    cases l with
    | nil =>
      rw [gather_nil] at hitem
      cases hitem
    | cons a rest =>
      rw [gather_cons, Option.some.injEq] at hitem
      rw [← hitem]
      refine List.foldlRecOn (motive := fun b => key b = k) rest merge (hl a List.mem_cons_self) ?_
      intro b hb c _
      rw [key_merge, hb]
  tabulates := by
    intro d p h
    refine ⟨_, table_eq h, ?_⟩
    intro k
    rw [getElem?_mergeByKey, itemsUnder_map]
    cases itemsWith key (items p) k with
    | nil => exact gather_nil.symm
    | cons a rest => exact (gather_cons a rest).symm

theorem key_head? {ι κ : Type} {key : ι → κ} {l : List ι} {item : ι} {k : κ} (hl : ∀ i ∈ l, key i = k)
    (hitem : l.head? = some item) : key item = k :=
  hl item (List.mem_of_head? hitem)

def ofFirst (aspect : Aspect) (lawful : Std.LawfulEqOrd aspect.Key) (items : Policy → List aspect.Item)
    (key : aspect.Item → aspect.Key) (gauge : Gauge aspect.change?)
    (table_eq : ∀ {d : Draft} {p : Policy}, d.build = .ok p → aspect.table p = .ok (tableBy key (items p))) :
    Reading where
  aspect
  lawful
  items
  key
  gather := List.head?
  gauge
  key_gather := key_head?
  tabulates h := ⟨_, table_eq h, fun k => getElem?_tableBy key _ k⟩

def ofTable (aspect : Aspect) (lawful : Std.LawfulEqOrd aspect.Key)
    (table : Policy → Std.ExtTreeMap aspect.Key aspect.Item) (key : aspect.Item → aspect.Key)
    (gauge : Gauge aspect.change?) (table_eq : ∀ p, aspect.table p = .ok (table p))
    (keyed : ∀ {p : Policy}, p.Filed → Keyed key (table p)) : Reading where
  aspect
  lawful
  items p := (table p).values
  key
  gather := List.head?
  gauge
  key_gather := key_head?
  tabulates h := ⟨_, table_eq _, (keyed (Policy.filed_of_build h)).getElem?_eq_head?⟩

def types : Reading :=
  ofFirst .types (inferInstanceAs (Std.LawfulEqOrd String)) Policy.types TypeSymbol.name .types fun _ => rfl

def attributes : Reading :=
  ofTable .attributes (inferInstanceAs (Std.LawfulEqOrd String)) Policy.attributes Attribute.name
    (.ofSet Attribute.types) (fun _ => rfl) Policy.Filed.attributes

def roles : Reading :=
  ofFirst .roles (inferInstanceAs (Std.LawfulEqOrd String)) (fun p => p.roles.values.map p.expandedRole)
    (fun r => r.role.name) (.ofSet ExpandedRole.types) Policy.rolesTable_eq

def users : Reading :=
  ofTable .users (inferInstanceAs (Std.LawfulEqOrd String)) Policy.users User.name .users (fun _ => rfl)
    Policy.Filed.users

def booleans : Reading :=
  ofTable .booleans (inferInstanceAs (Std.LawfulEqOrd String)) Policy.booleans Boolean.name
    (.ofValue Boolean.state) (fun _ => rfl) Policy.Filed.booleans

def commons : Reading :=
  ofTable .commons (inferInstanceAs (Std.LawfulEqOrd String)) Policy.commons CommonPerms.name
    (.ofSet CommonPerms.perms) (fun _ => rfl) Policy.Filed.commons

def classes : Reading :=
  ofTable .classes (inferInstanceAs (Std.LawfulEqOrd String)) (fun p => p.classes.map fun _ c => p.unitedClass c)
    (fun c => c.objectClass.name) (.ofSet ExpandedClass.perms) Policy.classesTable_eq Policy.keyed_classes

def capabilities : Reading :=
  ofFirst .capabilities (inferInstanceAs (Std.LawfulEqOrd String)) (fun p => p.capabilities.toList) id
    .presence fun _ => rfl

def mlsSymbols (name : String) (symbols : Policy → List MlsSymbol) : Reading :=
  ofFirst (.mlsSymbols name symbols) (inferInstanceAs (Std.LawfulEqOrd String)) symbols MlsSymbol.name
    (.ofSet MlsSymbol.aliases) fun _ => rfl

def levels : Reading :=
  ofFirst .levels (inferInstanceAs (Std.LawfulEqOrd String)) Policy.levels Level.sensitivity
    (.ofSet Level.categories) fun _ => rfl

def access (name : String) (kind : AccessKind) : Reading :=
  ofMerged (.access name kind) (inferInstanceAs (Std.LawfulEqOrd RuleKey)) (Policy.singleAccessRules kind)
    AccessRule.key AccessRule.merge AccessRule.gather (.ofSet AccessRule.perms) (fun _ _ => rfl) rfl
    AccessRule.gather_cons fun h => Policy.accessTable_eq h kind

def extended (name : String) (kind : ExtendedKind) : Reading :=
  ofMerged (.extended name kind) (inferInstanceAs (Std.LawfulEqOrd RuleKey))
    (Policy.singleExtendedRules kind) ExtendedRule.key ExtendedRule.merge ExtendedRule.gather
    (.ofSet ExtendedRule.numbers) (fun _ _ => rfl) rfl ExtendedRule.gather_cons
    fun h => Policy.extendedTable_eq h kind

def typeRules (name : String) (kind : TypeRuleKind) : Reading :=
  ofFirst (.typeRules name kind) (inferInstanceAs (Std.LawfulEqOrd RuleKey)) (Policy.singleTypeRules kind)
    TypeRule.key (.ofValue TypeRule.default) fun h => Policy.typeRuleTable_eq h kind

def roleAllows : Reading :=
  ofFirst .roleAllows (inferInstanceAs (Std.LawfulEqOrd (String × String))) Policy.roleAllows
    (fun rule => (rule.source, rule.target)) .presence fun _ => rfl

def roleTransitions : Reading :=
  ofFirst .roleTransitions (inferInstanceAs (Std.LawfulEqOrd (String × String × String)))
    (fun p => p.roleRules.flatMap p.transitionsOf) RoleTransition.key (.ofValue RoleTransition.default)
    Policy.roleTransitionTable_eq

def rangeTransitions : Reading :=
  ofFirst .rangeTransitions (inferInstanceAs (Std.LawfulEqOrd (String × String × String)))
    Policy.singleRangeRules RangeRule.key (.ofValue RangeRule.default) Policy.rangeTable_eq

def bounds : Reading :=
  ofFirst .bounds (inferInstanceAs (Std.LawfulEqOrd String)) Policy.bounds Bound.child
    (.ofValue Bound.parent) fun _ => rfl

def defaults : Reading :=
  ofFirst .defaults (inferInstanceAs (Std.LawfulEqOrd (DefaultKind × String))) Policy.defaultRules
    (fun rule => (rule.kind, rule.objectClass)) .defaults fun _ => rfl

def constraints (name : String) (kind : ConstraintKind) : Reading :=
  ofFirst (.constraints name kind) (inferInstanceAs (Std.LawfulEqOrd Constraint))
    (fun p => p.constraints.filter (·.kind = kind)) id .presence fun _ => rfl

def filesystems : Reading :=
  ofFirst .filesystems (inferInstanceAs (Std.LawfulEqOrd (FilesystemUse × String))) Policy.filesystemLabels
    (fun label => (label.use, label.filesystem)) (.ofValue FilesystemLabel.context) fun _ => rfl

def paths : Reading :=
  ofFirst .paths (inferInstanceAs (Std.LawfulEqOrd (String × String × Option String))) Policy.pathLabels
    (fun label => (label.filesystem, label.path, label.fileType)) (.ofValue PathLabel.context) fun _ => rfl

def ports : Reading :=
  ofFirst .ports (inferInstanceAs (Std.LawfulEqOrd (Protocol × UInt16 × UInt16))) Policy.portLabels
    (fun label => (label.protocol, label.ports.low, label.ports.high)) (.ofValue PortLabel.context)
    fun _ => rfl

def nodes : Reading :=
  ofFirst .nodes (inferInstanceAs (Std.LawfulEqOrd Network)) Policy.nodeLabels NodeLabel.network
    (.ofValue NodeLabel.context) fun _ => rfl

def interfaces : Reading :=
  ofFirst .interfaces (inferInstanceAs (Std.LawfulEqOrd String)) Policy.interfaceLabels
    InterfaceLabel.interface .interfaces fun _ => rfl

def pkeys : Reading :=
  ofFirst .pkeys (inferInstanceAs (Std.LawfulEqOrd (BitVec 128 × UInt16 × UInt16))) Policy.pkeyLabels
    (fun label => (label.subnet, label.pkeys.low, label.pkeys.high)) (.ofValue PkeyLabel.context) fun _ => rfl

def endports : Reading :=
  ofFirst .endports (inferInstanceAs (Std.LawfulEqOrd (String × UInt8))) Policy.endportLabels
    (fun label => (label.device, label.port)) (.ofValue EndportLabel.context) fun _ => rfl

def initialSids : Reading :=
  ofTable .initialSids (inferInstanceAs (Std.LawfulEqOrd String)) Policy.initialSids InitialSid.name
    (.ofValue InitialSid.context) (fun _ => rfl) Policy.Filed.initialSids

def all : List Reading :=
  [types, attributes, roles, users, booleans, commons, classes, capabilities,
    mlsSymbols "sensitivities" Policy.sensitivities, mlsSymbols "categories" Policy.categories, levels,
    access "allows" .allow, access "auditallows" .auditallow, access "dontaudits" .dontaudit,
    access "neverallows" .neverallow,
    extended "allowxperms" .allow, extended "auditallowxperms" .auditallow,
    extended "dontauditxperms" .dontaudit, extended "neverallowxperms" .neverallow,
    typeRules "type_transitions" .transition, typeRules "type_changes" .change,
    typeRules "type_members" .member,
    roleAllows, roleTransitions, rangeTransitions, bounds, defaults,
    constraints "constrains" .constrain, constraints "mlsconstrains" .mlsconstrain,
    constraints "validatetrans" .validatetrans, constraints "mlsvalidatetrans" .mlsvalidatetrans,
    filesystems, paths, ports, nodes, interfaces, pkeys, endports, initialSids]

theorem map_aspect_all : all.map aspect = Aspect.all :=
  rfl

end Reading

end PolicyAnalysis
