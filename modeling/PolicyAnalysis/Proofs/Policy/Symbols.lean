import PolicyAnalysis.Proofs.Policy.Closed
import PolicyAnalysis.Proofs.Policy.Declarations
import PolicyAnalysis.Proofs.Policy.Drafts

/-!
# Symbols of a built policy

The tables of a built policy agree with each other and with its draft. Each type is found by its name and by its
aliases, an attribute stands for the types that list it, and every other symbol is in the table of its kind under
its own name, none of them lost. Where no policy could be like this, as a name has been declared twice, the build
fails.
-/

namespace PolicyAnalysis

open Checked

variable {d : Draft} {p q : Policy}

/-- A table has the items of a list under their names, of which no two are the same. -/
structure Stores {α : Type} (name : α → String) (table : NameTable α) (items : List α) : Prop where
  getElem?_iff : ∀ key a, table[key]? = some a ↔ a ∈ items ∧ name a = key
  nodup : (items.map name).Nodup

namespace Stores

variable {α β : Type} {name : β → String} {table table' : NameTable β} {items : List β}

theorem empty (name : β → String) : Stores name ∅ [] where
  getElem?_iff := by simp
  nodup := List.nodup_nil

theorem insertUnique {b : β} (h : Stores name table items)
    (hinsert : Policy.insertUnique table (name b) b = .ok table') : Stores name table' (items ++ [b]) := by
  obtain ⟨hnew, rfl⟩ := Policy.insertUnique_eq_ok.mp hinsert
  have hother : ∀ a ∈ items, name a ≠ name b := by
    intro a ha heq
    have hfound := (h.getElem?_iff (name b) a).mpr ⟨ha, heq⟩
    exact hnew (Std.ExtTreeMap.mem_iff_isSome_getElem?.mpr (hfound ▸ rfl))
  refine ⟨fun key a => ?_, ?_⟩
  · rw [Std.ExtTreeMap.getElem?_insert, List.mem_append, List.mem_singleton]
    split
    next hkey =>
      have hkey := Std.LawfulEqOrd.eq_of_compare hkey
      grind
    next hkey =>
      rw [h.getElem?_iff]
      grind
  · rw [List.map_append, List.map_singleton]
    refine List.nodup_append.mpr ⟨h.nodup, List.nodup_singleton _, ?_⟩
    grind

/-- A stage of a build enters one item after the other into a table. What an item is made into does not depend
on the table. -/
theorem foldlM {step : Policy → α → Except PolicyError Policy} {put : NameTable β → Policy}
    {make : α → Except PolicyError β} {l : List α}
    (hstep : ∀ table a q, step (put table) a = .ok q →
      ∃ b table', make a = .ok b ∧ Policy.insertUnique table (name b) b = .ok table' ∧ put table' = q)
    (h : Stores name table items) (hrun : l.foldlM step (put table) = .ok q) :
    ∃ bs table', l.mapM make = .ok bs ∧ Stores name table' (items ++ bs) ∧ put table' = q := by
  induction l generalizing table items with
  | nil => exact ⟨[], table, rfl, by rwa [List.append_nil], pure_eq_ok.mp hrun⟩
  | cons a l ih =>
    rw [List.foldlM_cons, bind_eq_ok] at hrun
    obtain ⟨q', hq', hrun⟩ := hrun
    obtain ⟨b, table', hb, hinsert, rfl⟩ := hstep table a q' hq'
    obtain ⟨bs, table'', hbs, hstores, hput⟩ := ih (h.insertUnique hinsert) hrun
    refine ⟨b :: bs, table'', ?_, ?_, hput⟩
    · rw [List.mapM_cons, hb, hbs]
      rfl
    · rwa [List.append_assoc] at hstores

theorem foldlM_self {step : Policy → β → Except PolicyError Policy} (put : NameTable β → Policy)
    (hstep : ∀ table b q, step (put table) b = .ok q →
      ∃ table', Policy.insertUnique table (name b) b = .ok table' ∧ put table' = q)
    (hrun : items.foldlM step (put ∅) = .ok q) : ∃ table, Stores name table items ∧ put table = q := by
  have hstep' (table : NameTable β) (b : β) (q : Policy) (hq : step (put table) b = .ok q) :
      ∃ b' table', Except.ok b = .ok (ε := PolicyError) b' ∧
        Policy.insertUnique table (name b') b' = .ok table' ∧ put table' = q := by
    obtain ⟨table', hinsert, hput⟩ := hstep table b q hq
    exact ⟨b, table', rfl, hinsert, hput⟩
  obtain ⟨bs, table, hbs, hstores, hput⟩ := foldlM hstep' (empty name) hrun
  have hbs : pure (items.map id) = Except.ok (ε := PolicyError) bs := List.mapM_pure.symm.trans hbs
  rw [List.map_id, pure_eq_ok] at hbs
  exact ⟨table, hbs ▸ hstores, hput⟩

end Stores

namespace Policy

def resolveUser (p : Policy) (user : User) : Except PolicyError User := do
  let level ← user.level.mapM p.resolveLevel
  let range ← user.range.mapM p.resolveRange
  return { user with level, range }

def resolveSid (p : Policy) (sid : InitialSid) : Except PolicyError InitialSid := do
  return { sid with context := ← p.resolveContext sid.context }

theorem stores_roles (h : d.build = .ok p) : Stores Role.name p.roles d.roles := by
  have hstep (roles : NameTable Role) (role : Role) (q : Policy)
      (hq : ({ d.start with types := p.types, roles } : Policy).addRole role = .ok q) :
      ∃ roles', insertUnique roles role.name role = .ok roles' ∧
        { d.start with types := p.types, roles := roles' } = q := by
    simp only [addRole, bind_eq_ok, pure_eq_ok] at hq
    obtain ⟨-, -, hinsert⟩ := hq
    exact hinsert
  obtain ⟨roles, hstores, hroles⟩ := Stores.foldlM_self _ hstep (Draft.stages_of_build h).roles
  rwa [← show roles = p.roles from congrArg Policy.roles hroles]

theorem stores_users (h : d.build = .ok p) :
    ∃ users, d.users.mapM p.resolveUser = .ok users ∧ Stores User.name p.users users := by
  have stages := Draft.stages_of_build h
  have hstep (users : NameTable User) (user : User) (q : Policy)
      (hq : ({ d.start with types := p.types, roles := p.roles, users } : Policy).addUser user = .ok q) :
      ∃ user' users', p.resolveUser user = .ok user' ∧ insertUnique users user'.name user' = .ok users' ∧
        { d.start with types := p.types, roles := p.roles, users := users' } = q := by
    simp only [addUser, bind_eq_ok, pure_eq_ok] at hq
    obtain ⟨-, -, level, hlevel, range, hrange, users', hinsert, hq⟩ := hq
    refine ⟨{ user with level, range }, users', ?_, hinsert, hq⟩
    simp only [resolveUser, bind_eq_ok, pure_eq_ok]
    rw [stages.parts]
    exact ⟨level, hlevel, range, hrange, rfl⟩
  obtain ⟨items, users, hitems, hstores, husers⟩ := Stores.foldlM hstep (.empty User.name) stages.users
  have husers : users = p.users := congrArg Policy.users husers
  exact ⟨items, hitems, husers ▸ hstores⟩

theorem stores_booleans (h : d.build = .ok p) : Stores Boolean.name p.booleans d.booleans := by
  obtain ⟨booleans, hstores, hbooleans⟩ := Stores.foldlM_self
    (fun booleans =>
      { p with booleans, commons := ∅, classes := ∅, levels := [], initialSids := ∅, rules := [] })
    (fun _ _ _ hq => by simpa only [addBoolean, bind_eq_ok, pure_eq_ok] using hq)
    (Draft.stages_of_build h).booleans
  rwa [← show booleans = p.booleans from congrArg Policy.booleans hbooleans]

theorem stores_commons (h : d.build = .ok p) : Stores CommonPerms.name p.commons d.commons := by
  obtain ⟨commons, hstores, hcommons⟩ := Stores.foldlM_self
    (fun commons => { p with commons, classes := ∅, levels := [], initialSids := ∅, rules := [] })
    (fun _ _ _ hq => by simpa only [addCommon, bind_eq_ok, pure_eq_ok] using hq)
    (Draft.stages_of_build h).commons
  rwa [← show commons = p.commons from congrArg Policy.commons hcommons]

theorem stores_classes (h : d.build = .ok p) : Stores ObjectClass.name p.classes d.classes := by
  obtain ⟨classes, hstores, hclasses⟩ := Stores.foldlM_self
    (fun classes => { p with classes, levels := [], initialSids := ∅, rules := [] })
    (fun _ _ _ hq => insertUnique_of_addClass hq) (Draft.stages_of_build h).classes
  rwa [← show classes = p.classes from congrArg Policy.classes hclasses]

theorem stores_initialSids (h : d.build = .ok p) :
    ∃ sids, d.initialSids.mapM p.resolveSid = .ok sids ∧ Stores InitialSid.name p.initialSids sids := by
  have hstep (sids : NameTable InitialSid) (sid : InitialSid) (q : Policy)
      (hq : ({ p with initialSids := sids, rules := [] } : Policy).addInitialSid sid = .ok q) :
      ∃ sid' sids', p.resolveSid sid = .ok sid' ∧ insertUnique sids sid'.name sid' = .ok sids' ∧
        { p with initialSids := sids', rules := [] } = q := by
    simp only [addInitialSid, bind_eq_ok, pure_eq_ok] at hq
    obtain ⟨context, hcontext, sids', hinsert, hq⟩ := hq
    refine ⟨{ sid with context }, sids', ?_, hinsert, hq⟩
    simp only [resolveSid, bind_eq_ok, pure_eq_ok]
    exact ⟨context, hcontext, rfl⟩
  obtain ⟨items, sids, hitems, hstores, hsids⟩ :=
    Stores.foldlM hstep (.empty InitialSid.name) (Draft.stages_of_build h).initialSids
  have hsids : sids = p.initialSids := congrArg Policy.initialSids hsids
  exact ⟨items, hitems, hsids ▸ hstores⟩

def typeNames (p : Policy) : List String :=
  p.types.flatMap (fun t => t.name :: t.aliases.toList) ++ p.attributes.keys

theorem DistinctNames.nodup_typeNames (h : p.DistinctNames) : p.typeNames.Nodup := by
  have mem_names (t : TypeSymbol) (name : String) : name ∈ t.name :: t.aliases.toList ↔ t.answersTo name := by
    rw [answersTo_iff, List.mem_cons, Std.ExtTreeSet.mem_toList, eq_comm]
  refine List.nodup_append.mpr ⟨List.nodup_flatMap.mpr ⟨fun t ht => ?_, ?_⟩, ?_, ?_⟩
  · exact List.nodup_cons.mpr ⟨mt Std.ExtTreeSet.mem_toList.mp (h.aliases t ht), nodup_toList t.aliases⟩
  · refine h.types.imp fun {t u} hdisjoint name ht hu => ?_
    exact hdisjoint name ((mem_names t name).mp ht) ((mem_names u name).mp hu)
  · exact Std.ExtTreeMap.nodup_keys
  · rintro name hname _ hattribute rfl
    obtain ⟨t, ht, hname⟩ := List.mem_flatMap.mp hname
    exact h.attributes t ht name ((mem_names t name).mp hname) (Std.ExtTreeMap.mem_keys.mp hattribute)

theorem mem_attribute_iff (h : d.build = .ok p) {name : String} {a : Attribute} (ha : p.attributes[name]? = some a)
    (member : String) : member ∈ a.types ↔ ∃ t ∈ p.types, name ∈ t.attributes ∧ t.name = member := by
  obtain ⟨-, htypes, hattributes⟩ := Draft.types_of_build h
  rw [hattributes] at ha
  rw [htypes]
  exact mem_attributeTable d ha member

theorem exists_expand_attribute (h : d.build = .ok p) {name : String} {a : Attribute}
    (ha : p.attributes[name]? = some a) :
    ∃ ids, p.expand name = .ok ids ∧ ids.Nodup ∧
      ∀ id, id ∈ ids ↔ ∃ member ∈ a.types, p.lookupType member = .ok id := by
  obtain ⟨ids, hids⟩ := exists_mapM_eq_ok.mpr fun member hmember => by
    obtain ⟨id, hid, -⟩ := exists_lookupType_member h ha (Std.ExtTreeSet.mem_toList.mp hmember)
    exact ⟨id, hid⟩
  have hnone : p.types.findIdx? (·.answersTo name) = none := by
    refine List.findIdx?_eq_none_iff.mpr fun t ht => Bool.eq_false_iff.mpr fun hanswers => ?_
    refine (distinctNames_of_build h).attributes t ht name hanswers ?_
    exact Std.ExtTreeMap.mem_iff_isSome_getElem?.mpr (ha ▸ rfl)
  have hexpand : p.expand name = .ok ids := expand_eq_ok.mpr (Or.inr ⟨hnone, a, ha, hids⟩)
  refine ⟨ids, hexpand, nodup_of_expand h hexpand, fun id => ?_⟩
  simp only [mem_iff_of_mapM hids, Std.ExtTreeSet.mem_toList]

/-- The tables that were filled for a policy have each type under all its names, and the policy looks up what they
have. -/
structure ReadsTables (p : Policy) (tables : TypeTables) : Prop where
  types : p.types = tables.types
  attributes : p.attributes = tables.attributes
  index_iff : ∀ name id, tables.index[name]? = some id ↔ ∃ t, p.type? id = some t ∧ (t.name = name ∨ name ∈ t.aliases)
  lookupType : ∀ name, p.lookupType name = tables.lookupType name
  lookupTypeOrAttribute : ∀ name, p.lookupTypeOrAttribute name = tables.lookupTypeOrAttribute name
  expand : ∀ name, p.expand name = tables.expand name

theorem exists_tables_of_build (h : d.build = .ok p) :
    ∃ tables, TypeTables.fill d.types d.attributes = .ok tables ∧ p.ReadsTables tables := by
  obtain ⟨tables, hfill, hfilled⟩ := Draft.exists_fill_of_build h
  obtain ⟨-, htypes, hattributes⟩ := Draft.types_of_build h
  have htables : tables.attributes = p.attributes := by
    rw [hattributes]
    exact congrArg Policy.attributes hfilled.ofTables_eq
  rw [← htypes] at hfilled
  have hlookup (name : String) : tables.lookupType name = p.lookupType name := hfilled.lookupType_eq name
  refine ⟨tables, hfill, hfilled.types.symm, htables.symm, fun name id => ?_, fun name => (hlookup name).symm,
    fun name => (hfilled.lookupTypeOrAttribute_eq htables name).symm, fun name => (hfilled.expand_eq htables name).symm⟩
  have hindex : tables.index[name]? = some id ↔ p.lookupType name = .ok id := by
    rw [← hlookup, TypeTables.lookupType]
    cases tables.index[name]? <;> simp
  simp only [hindex, (distinctNames_of_build h).lookupType_eq_ok_iff, answersTo_iff, type?]

/-- The tables of a policy agree with each other and have all that a draft declares. -/
structure Consistent (p : Policy) (d : Draft) : Prop where
  /-- What was filled while the types were entered is what the policy goes by. -/
  tables : ∃ tables, TypeTables.fill d.types d.attributes = .ok tables ∧ p.ReadsTables tables
  distinct : p.typeNames.Nodup
  types : p.types = d.types
  lookupType_iff : ∀ name id, p.lookupType name = .ok id ↔
    ∃ t, p.type? id = some t ∧ (t.name = name ∨ name ∈ t.aliases)
  attributes : ∀ name, name ∈ p.attributes ↔ name ∈ d.attributes
  listed : ∀ t ∈ p.types, ∀ name ∈ t.attributes, name ∈ p.attributes
  members : ∀ name a, p.attributes[name]? = some a → a.name = name ∧
    ∀ member, member ∈ a.types ↔ ∃ t ∈ p.types, name ∈ t.attributes ∧ t.name = member
  expands : ∀ name a, p.attributes[name]? = some a → ∃ ids, p.expand name = .ok ids ∧ ids.Nodup ∧
    ∀ id, id ∈ ids ↔ ∃ member ∈ a.types, p.lookupType member = .ok id
  roles : Stores Role.name p.roles d.roles
  users : ∃ users, d.users.mapM p.resolveUser = .ok users ∧ Stores User.name p.users users
  booleans : Stores Boolean.name p.booleans d.booleans
  commons : Stores CommonPerms.name p.commons d.commons
  classes : Stores ObjectClass.name p.classes d.classes
  initialSids : ∃ sids, d.initialSids.mapM p.resolveSid = .ok sids ∧ Stores InitialSid.name p.initialSids sids

theorem consistent_of_build (h : d.build = .ok p) (hlisted : d.Listed) : p.Consistent d := by
  obtain ⟨-, htypes, hattributes⟩ := Draft.types_of_build h
  have distinct := distinctNames_of_build h
  have attributes (name : String) : name ∈ p.attributes ↔ name ∈ d.attributes := by
    rw [hattributes, mem_attributeTable_iff]
  exact {
    tables := exists_tables_of_build h
    distinct := distinct.nodup_typeNames
    types := htypes
    lookupType_iff name id := by simp only [distinct.lookupType_eq_ok_iff, answersTo_iff, type?]
    attributes
    listed t ht name hname := (attributes name).mpr (hlisted t (htypes ▸ ht) name hname)
    members name a ha := ⟨(filed_of_build h).attributes name a ha, mem_attribute_iff h ha⟩
    expands name a ha := exists_expand_attribute h ha
    roles := stores_roles h
    users := stores_users h
    booleans := stores_booleans h
    commons := stores_commons h
    classes := stores_classes h
    initialSids := stores_initialSids h }

/-- The symbol or the alias that a statement declares is found in the policy. -/
def Keeps (p : Policy) : Statement → Prop
  | .type name attributes => ∃ id t, p.lookupType name = .ok id ∧ p.type? id = some t ∧ t.name = name ∧
    t.attributes = attributes
  | .attribute name => name ∈ p.attributes
  | .alias type name => ∃ id, p.lookupType type = .ok id ∧ p.lookupType name = .ok id
  | .role name types => p.roles[name]? = some ⟨name, types⟩
  | .user name roles => ∃ user, p.users[name]? = some user ∧ user.name = name ∧ user.roles = roles
  | .boolean name state => p.booleans[name]? = some ⟨name, state⟩
  | .common name perms => p.commons[name]? = some ⟨name, perms⟩
  | .objectClass name common perms => p.classes[name]? = some ⟨name, common, perms⟩
  | .initialSid name context => ∃ context', p.resolveContext context = .ok context' ∧
    p.initialSids[name]? = some ⟨name, context'⟩
  | .initialSidNumber number context => ∃ name ∈ initialSidName? number, ∃ context',
    p.resolveContext context = .ok context' ∧ p.initialSids[name]? = some ⟨name, context'⟩
  | _ => True

namespace Consistent

theorem exists_lookupType (h : p.Consistent d) {t : TypeSymbol} (ht : t ∈ d.types) :
    ∃ id, p.type? id = some t ∧ ∀ name, t.name = name ∨ name ∈ t.aliases → p.lookupType name = .ok id := by
  rw [← h.types] at ht
  obtain ⟨id, hid⟩ := List.mem_iff_getElem?.mp ht
  exact ⟨id, hid, fun name hname => (h.lookupType_iff name id).mpr ⟨t, hid, hname⟩⟩

theorem exists_user (h : p.Consistent d) {user : User} (huser : user ∈ d.users) :
    ∃ user', p.users[user.name]? = some user' ∧ user'.name = user.name ∧ user'.roles = user.roles := by
  obtain ⟨users, husers, hstores⟩ := h.users
  obtain ⟨user', huser'⟩ := exists_mapM_eq_ok.mp ⟨users, husers⟩ user huser
  have hmem : user' ∈ users := (mem_iff_of_mapM husers).mpr ⟨user, huser, huser'⟩
  simp only [resolveUser, bind_eq_ok, pure_eq_ok] at huser'
  obtain ⟨level, -, range, -, rfl⟩ := huser'
  exact ⟨_, (hstores.getElem?_iff user.name _).mpr ⟨hmem, rfl⟩, rfl, rfl⟩

theorem exists_context (h : p.Consistent d) {name : String} {context : Context}
    (hsid : ⟨name, context⟩ ∈ d.initialSids) :
    ∃ context', p.resolveContext context = .ok context' ∧ p.initialSids[name]? = some ⟨name, context'⟩ := by
  obtain ⟨sids, hsids, hstores⟩ := h.initialSids
  obtain ⟨sid', hsid'⟩ := exists_mapM_eq_ok.mp ⟨sids, hsids⟩ _ hsid
  have hmem : sid' ∈ sids := (mem_iff_of_mapM hsids).mpr ⟨_, hsid, hsid'⟩
  simp only [resolveSid, bind_eq_ok, pure_eq_ok] at hsid'
  obtain ⟨context', hcontext', rfl⟩ := hsid'
  exact ⟨context', hcontext', (hstores.getElem?_iff name _).mpr ⟨hmem, rfl⟩⟩

theorem keeps (h : p.Consistent d) {s : Statement} (hs : d.Holds s) : p.Keeps s := by
  match s with
  | .type name attributes =>
    obtain ⟨t, ht, rfl, rfl⟩ := hs
    obtain ⟨id, hid, hlookup⟩ := h.exists_lookupType ht
    exact ⟨id, t, hlookup t.name (Or.inl rfl), hid, rfl, rfl⟩
  | .attribute name => exact (h.attributes name).mpr hs
  | .alias type name =>
    obtain ⟨t, ht, rfl, halias⟩ := hs
    obtain ⟨id, -, hlookup⟩ := h.exists_lookupType ht
    exact ⟨id, hlookup t.name (Or.inl rfl), hlookup name (Or.inr halias)⟩
  | .role name types => exact (h.roles.getElem?_iff name _).mpr ⟨hs, rfl⟩
  | .user name roles =>
    obtain ⟨user, huser, rfl, rfl⟩ := hs
    exact h.exists_user huser
  | .boolean name state => exact (h.booleans.getElem?_iff name _).mpr ⟨hs, rfl⟩
  | .common name perms => exact (h.commons.getElem?_iff name _).mpr ⟨hs, rfl⟩
  | .objectClass name common perms => exact (h.classes.getElem?_iff name _).mpr ⟨hs, rfl⟩
  | .initialSid name context => exact h.exists_context hs
  | .initialSidNumber number context =>
    obtain ⟨name, hname, hmem⟩ := hs
    exact ⟨name, hname, h.exists_context hmem⟩
  | .properties _ | .permissive _ | .clearance _ _ _ | .sensitivity _ _ | .category _ _ | .level _ | .capability _
  | .rule _ => trivial

end Consistent

/-- A policy that is built is consistent and has all that its statements declare. Statements that declare a name
twice build none. -/
theorem build_consistent (name : String) (statements : List Statement) :
    (∀ p, build name statements = .ok p →
      p.Consistent (Draft.ofStatements name statements) ∧ ∀ s ∈ statements, p.Keeps s) ∧
    ((Draft.ofStatements name statements).UsesDeclared → ¬ (Draft.ofStatements name statements).names.Nodup →
      ∃ n, FirstRepeat (Draft.ofStatements name statements).names n ∧
        build name statements = .error (.duplicateSymbol n.2)) := by
  refine ⟨fun p h => ?_, Draft.build_eq_duplicateSymbol⟩
  have consistent := consistent_of_build h (Draft.listed_ofStatements name statements)
  have holds := Draft.holds_ofStatements (Draft.build_stages h).1
  exact ⟨consistent, fun s hs => consistent.keeps (holds s hs)⟩

/-- A type has an attribute, and another type has the name of the attribute for an alias. -/
def clashingStatements : List Statement := [
  .type "bird_t" (.ofList ["domain"]),
  .type "nest_t" ∅,
  .alias "nest_t" "domain"]

theorem consistent_winged_and_firstRepeat_clashing :
    (winged.Consistent (Draft.ofStatements "winged" wingedStatements) ∧
        ∀ s ∈ wingedStatements, winged.Keeps s) ∧
      ∃ n, FirstRepeat (Draft.ofStatements "clashing" clashingStatements).names n ∧
        build "clashing" clashingStatements = .error (.duplicateSymbol n.2) := by
  refine ⟨(build_consistent "winged" wingedStatements).1 winged build_winged, ?_⟩
  exact (build_consistent "clashing" clashingStatements).2 ⟨rfl, by decide +kernel⟩ (by decide +kernel)

end Policy

end PolicyAnalysis
