import PolicyAnalysis.Proofs.Policy.Types

/-!
# What names stand for, by name

Types are numbered in the order of their declarations, so two policies may number them differently. By their
names, the types that the source and target of a rule stand for depend on nothing but which types and
attributes are declared.
-/

namespace PolicyAnalysis

open Checked

variable {d : Draft} {p q : Policy}

namespace Policy

theorem typeName_eq {id : TypeId} {t : TypeSymbol} (h : p.types[id]? = some t) : p.typeName id = t.name := by
  rw [typeName, type?, h]
  rfl

theorem resolveType_eq_ok {name type : String} :
    p.resolveType name = .ok type ↔ ∃ id, p.lookupType name = .ok id ∧ p.typeName id = type := by
  simp only [resolveType, bind_eq_ok, pure_eq_ok]

theorem exists_type_of_resolveType {name type : String} (htype : p.resolveType name = .ok type) :
    ∃ t ∈ p.types, t.name = type := by
  obtain ⟨id, hid, rfl⟩ := resolveType_eq_ok.mp htype
  obtain ⟨t, ht, -⟩ := answersTo_of_lookupType hid
  exact ⟨t, List.mem_of_getElem? ht, (typeName_eq ht).symm⟩

theorem DistinctNames.resolveType (h : p.DistinctNames) {name type : String}
    (htype : p.resolveType name = .ok type) : p.resolveType type = .ok type := by
  obtain ⟨t, ht, rfl⟩ := exists_type_of_resolveType htype
  obtain ⟨id, hid⟩ := List.mem_iff_getElem?.mp ht
  exact resolveType_eq_ok.mpr ⟨id, h.lookupType_name hid, typeName_eq hid⟩

/-- A type is one that a name stands for. -/
def Stands (p : Policy) (name type : String) : Prop :=
  ∃ ids, p.expand name = .ok ids ∧ ∃ id ∈ ids, p.typeName id = type

/-- Two types are a pair that the source and target of a rule stand for. -/
def Names (p : Policy) (source target : String) (pair : String × String) : Prop :=
  ∃ s t, p.Covers source target s t ∧ (p.typeName s, p.typeName t) = pair

theorem names_iff {source target : String} {pair : String × String} :
    p.Names source target pair ↔ p.Stands source pair.1 ∧
      (target = selfTarget ∧ pair.2 = pair.1 ∨ target ≠ selfTarget ∧ p.Stands target pair.2) := by
  constructor
  · intro ⟨s, t, ⟨pairs, hpairs, hmem⟩, hnames⟩
    obtain ⟨sources, hsources, hrest⟩ := expandPairs_eq_ok.mp hpairs
    rcases hrest with ⟨hself, rfl⟩ | ⟨hself, targets, htargets, rfl⟩
    · obtain ⟨s', hs', heq⟩ := List.mem_map.mp hmem
      cases heq
      cases hnames
      exact ⟨⟨sources, hsources, s, hs', rfl⟩, Or.inl ⟨hself, rfl⟩⟩
    · obtain ⟨hs, ht⟩ := List.pair_mem_product.mp hmem
      cases hnames
      exact ⟨⟨sources, hsources, s, hs, rfl⟩, Or.inr ⟨hself, targets, htargets, t, ht, rfl⟩⟩
  · intro ⟨⟨sources, hsources, s, hs, hsource⟩, htarget⟩
    rcases htarget with ⟨hself, hpair⟩ | ⟨hself, targets, htargets, t, ht, htarget⟩
    · refine ⟨s, s, ⟨sources.map fun s => (s, s), ?_, ?_⟩, ?_⟩
      · exact expandPairs_eq_ok.mpr ⟨sources, hsources, Or.inl ⟨hself, rfl⟩⟩
      · exact List.mem_map.mpr ⟨s, hs, rfl⟩
      · rw [hsource]
        exact Prod.ext rfl hpair.symm
    · refine ⟨s, t, ⟨sources.product targets, ?_, ?_⟩, ?_⟩
      · exact expandPairs_eq_ok.mpr ⟨sources, hsources, Or.inr ⟨hself, targets, htargets, rfl⟩⟩
      · exact List.pair_mem_product.mpr ⟨hs, ht⟩
      · rw [hsource, htarget]

theorem covers_iff_names (h : p.DistinctNames) {source target : String} {s t : TypeId} {a b : TypeSymbol}
    (ha : p.types[s]? = some a) (hb : p.types[t]? = some b) :
    p.Covers source target s t ↔ p.Names source target (a.name, b.name) := by
  constructor
  · intro hcovers
    refine ⟨s, t, hcovers, ?_⟩
    rw [typeName_eq ha, typeName_eq hb]
  · intro ⟨s', t', hcovers, hnames⟩
    obtain ⟨⟨a', ha'⟩, b', hb'⟩ := hcovers.exists_types
    rw [typeName_eq ha', typeName_eq hb'] at hnames
    obtain ⟨hsource, htarget⟩ := Prod.mk.inj hnames
    have hs : s' = s := Except.ok.inj ((h.lookupType_name ha').symm.trans (hsource ▸ h.lookupType_name ha))
    have ht : t' = t := Except.ok.inj ((h.lookupType_name hb').symm.trans (htarget ▸ h.lookupType_name hb))
    rw [← hs, ← ht]
    exact hcovers

theorem exists_lookupType_member (h : d.build = .ok p) {name member : String} {a : Attribute}
    (ha : p.attributes[name]? = some a) (hmember : member ∈ a.types) :
    ∃ id, p.lookupType member = .ok id ∧ p.typeName id = member := by
  obtain ⟨t, ht, rfl⟩ := exists_type_of_mem h ha hmember
  obtain ⟨id, hid⟩ := List.mem_iff_getElem?.mp ht
  exact ⟨id, (distinctNames_of_build h).lookupType_name hid, typeName_eq hid⟩

theorem findIdx?_eq_some_iff (h : p.DistinctNames) {name : String} {id : TypeId} :
    p.types.findIdx? (·.answersTo name) = some id ↔ ∃ t, p.types[id]? = some t ∧ t.answersTo name := by
  rw [← h.lookupType_eq_ok_iff, lookupType]
  cases p.types.findIdx? (·.answersTo name) <;> simp

/-- A name stands for the type that answers to it, or else, if it is that of an attribute, for its types. -/
theorem stands_iff (h : d.build = .ok p) {name type : String} :
    p.Stands name type ↔ (∃ t ∈ p.types, t.answersTo name ∧ t.name = type) ∨
      (∀ t ∈ p.types, ¬ t.answersTo name) ∧ ∃ a, p.attributes[name]? = some a ∧ type ∈ a.types := by
  have distinct := distinctNames_of_build h
  have hnone : p.types.findIdx? (·.answersTo name) = none ↔ ∀ t ∈ p.types, ¬ t.answersTo name := by
    simp only [List.findIdx?_eq_none_iff, Bool.not_eq_true]
  constructor
  · intro ⟨ids, hids, id, hid, htype⟩
    rcases expand_eq_ok.mp hids with ⟨id', hfound, rfl⟩ | ⟨hnot, a, ha, hmembers⟩
    · cases List.mem_singleton.mp hid
      obtain ⟨t, ht, hname⟩ := (findIdx?_eq_some_iff distinct).mp hfound
      exact Or.inl ⟨t, List.mem_of_getElem? ht, hname, (typeName_eq ht).symm.trans htype⟩
    · obtain ⟨member, hmember, hlookup⟩ := (mem_iff_of_mapM hmembers).mp hid
      have hin : member ∈ a.types := Std.ExtTreeSet.mem_toList.mp hmember
      obtain ⟨id', hlookup', hname⟩ := exists_lookupType_member h ha hin
      cases hlookup.symm.trans hlookup'
      rw [← htype, hname]
      exact Or.inr ⟨hnone.mp hnot, a, ha, hin⟩
  · rintro (⟨t, ht, hname, htype⟩ | ⟨hnot, a, ha, htype⟩)
    · obtain ⟨id, hid⟩ := List.mem_iff_getElem?.mp ht
      have hfound := (findIdx?_eq_some_iff distinct).mpr ⟨t, hid, hname⟩
      refine ⟨[id], expand_eq_ok.mpr (Or.inl ⟨id, hfound, rfl⟩), id, List.mem_singleton_self id, ?_⟩
      rw [typeName_eq hid, htype]
    · have hall : ∀ member ∈ a.types.toList, ∃ id, p.lookupType member = .ok id := by
        intro member hmember
        obtain ⟨id, hid, -⟩ := exists_lookupType_member h ha (Std.ExtTreeSet.mem_toList.mp hmember)
        exact ⟨id, hid⟩
      obtain ⟨ids, hids⟩ := exists_mapM_eq_ok.mpr hall
      obtain ⟨id, hid, hname⟩ := exists_lookupType_member h ha htype
      have hmem : id ∈ ids := (mem_iff_of_mapM hids).mpr ⟨type, Std.ExtTreeSet.mem_toList.mpr htype, hid⟩
      exact ⟨ids, expand_eq_ok.mpr (Or.inr ⟨hnone.mpr hnot, a, ha, hids⟩), id, hmem, hname⟩

/-- The same types and attributes are declared, in whatever order. -/
structure SameTypes (p q : Policy) : Prop where
  mem_types_iff : ∀ t, t ∈ p.types ↔ t ∈ q.types
  attributes_eq : p.attributes = q.attributes

theorem SameTypes.symm (h : p.SameTypes q) : q.SameTypes p :=
  ⟨fun t => (h.mem_types_iff t).symm, h.attributes_eq.symm⟩

theorem SameTypes.stands_iff (h : p.SameTypes q) {d' : Draft} (hp : d.build = .ok p) (hq : d'.build = .ok q)
    (name type : String) : p.Stands name type ↔ q.Stands name type := by
  rw [Policy.stands_iff hp, Policy.stands_iff hq, h.attributes_eq]
  simp only [h.mem_types_iff]

theorem SameTypes.names_iff (h : p.SameTypes q) {d' : Draft} (hp : d.build = .ok p) (hq : d'.build = .ok q)
    (source target : String) (pair : String × String) :
    p.Names source target pair ↔ q.Names source target pair := by
  rw [Policy.names_iff, Policy.names_iff, h.stands_iff hp hq, h.stands_iff hp hq]

/-- Two numbers are those of one type. -/
def SameType (p q : Policy) (s s' : TypeId) : Prop :=
  ∃ t, p.types[s]? = some t ∧ q.types[s']? = some t

theorem SameTypes.exists_lookupType (h : p.SameTypes q) (hp : p.DistinctNames) (hq : q.DistinctNames)
    {name : String} {s : TypeId} (hs : p.lookupType name = .ok s) :
    ∃ s', q.lookupType name = .ok s' ∧ p.SameType q s s' := by
  obtain ⟨t, ht, hname⟩ := hp.lookupType_eq_ok_iff.mp hs
  have hmem : t ∈ q.types := (h.mem_types_iff t).mp (List.mem_of_getElem? ht)
  obtain ⟨s', hs'⟩ := List.mem_iff_getElem?.mp hmem
  exact ⟨s', hq.lookupType_eq_ok_iff.mpr ⟨t, hs', hname⟩, t, ht, hs'⟩

theorem SameTypes.exists_lookupType_iff (h : p.SameTypes q) (hp : p.DistinctNames) (hq : q.DistinctNames)
    (name : String) : (∃ s, p.lookupType name = .ok s) ↔ ∃ s', q.lookupType name = .ok s' := by
  constructor
  · intro ⟨s, hs⟩
    obtain ⟨s', hs', -⟩ := h.exists_lookupType hp hq hs
    exact ⟨s', hs'⟩
  · intro ⟨s', hs'⟩
    obtain ⟨s, hs, -⟩ := h.symm.exists_lookupType hq hp hs'
    exact ⟨s, hs⟩

theorem SameTypes.sameType_of_lookupType (h : p.SameTypes q) (hp : p.DistinctNames) (hq : q.DistinctNames)
    {name : String} {s s' : TypeId} (hs : p.lookupType name = .ok s) (hs' : q.lookupType name = .ok s') :
    p.SameType q s s' := by
  obtain ⟨s'', hs'', hsame⟩ := h.exists_lookupType hp hq hs
  rw [Except.ok.inj (hs'.symm.trans hs'')]
  exact hsame

theorem SameType.lookupType_iff {s s' : TypeId} (h : p.SameType q s s') (hp : p.DistinctNames)
    (hq : q.DistinctNames) (name : String) : p.lookupType name = .ok s ↔ q.lookupType name = .ok s' := by
  obtain ⟨t, ht, ht'⟩ := h
  rw [hp.lookupType_eq_ok_iff, hq.lookupType_eq_ok_iff, ht, ht']

theorem SameType.eq_iff {s t s' t' : TypeId} (hs : p.SameType q s s') (ht : p.SameType q t t')
    (hp : p.DistinctNames) (hq : q.DistinctNames) : s = t ↔ s' = t' := by
  obtain ⟨x, hxs, hxs'⟩ := hs
  obtain ⟨y, hyt, hyt'⟩ := ht
  have hx : x.answersTo x.name := (answersTo_iff x x.name).mpr (Or.inl rfl)
  constructor
  · rintro rfl
    rw [← Option.some.inj (hxs.symm.trans hyt)] at hyt'
    exact hq.answersTo_unique hxs' hyt' hx hx
  · rintro rfl
    rw [← Option.some.inj (hxs'.symm.trans hyt')] at hyt
    exact hp.answersTo_unique hxs hyt hx hx

theorem stands_name_iff (h : d.build = .ok p) {t : TypeSymbol} (ht : t ∈ p.types) {type : String} :
    p.Stands t.name type ↔ type = t.name := by
  have distinct := distinctNames_of_build h
  have hname : t.answersTo t.name := (answersTo_iff t t.name).mpr (Or.inl rfl)
  rw [stands_iff h]
  constructor
  · rintro (⟨u, hu, huname, rfl⟩ | ⟨hnot, -⟩)
    · obtain ⟨i, hi⟩ := List.mem_iff_getElem?.mp ht
      obtain ⟨j, hj⟩ := List.mem_iff_getElem?.mp hu
      cases distinct.answersTo_unique hj hi huname hname
      rw [Option.some.inj (hj.symm.trans hi)]
    · exact absurd hname (hnot t ht)
  · rintro rfl
    exact Or.inl ⟨t, ht, hname, rfl⟩

theorem exists_type_of_stands (h : d.build = .ok p) {name type : String} (hstands : p.Stands name type) :
    ∃ t ∈ p.types, t.name = type := by
  rcases (stands_iff h).mp hstands with ⟨t, ht, -, htype⟩ | ⟨-, a, ha, htype⟩
  · exact ⟨t, ht, htype⟩
  · exact exists_type_of_mem h ha htype

end Policy

end PolicyAnalysis
