import PolicyAnalysis.Proofs.Policy.Build
import Mathlib.Data.List.Nodup
import Mathlib.Data.List.ProdSigma

/-!
# Types of a built policy

No two symbols among the types and attributes of a built policy share a name, so a name is that of one type
at most. An attribute stands for types only, each once, and so does a pair of names for pairs of types.
-/

namespace PolicyAnalysis

open Checked

variable {d : Draft} {p q : Policy}

namespace Policy

/-- The names of types, their aliases and the attributes are all different. -/
structure DistinctNames (p : Policy) : Prop where
  types : p.types.Pairwise fun t u => ∀ name, t.answersTo name → ¬ u.answersTo name
  attributes : ∀ t ∈ p.types, ∀ name, t.answersTo name → name ∉ p.attributes
  aliases : ∀ t ∈ p.types, t.name ∉ t.aliases

theorem DistinctNames.addType (h : p.DistinctNames) {t : TypeSymbol} (hq : p.addType t = .ok q) :
    q.DistinctNames := by
  obtain ⟨hclash, rfl⟩ := addType_eq_ok.mp hq
  obtain ⟨hfree, haliases⟩ := (p.clash?_eq_none_iff t).mp hclash
  simp only [isTaken_iff, not_or, not_exists, not_and] at hfree
  refine ⟨?_, ?_, ?_⟩
  · refine List.pairwise_append.mpr ⟨h.types, List.pairwise_singleton _ _, fun u hu t' ht' name hname => ?_⟩
    rw [List.mem_singleton.mp ht']
    exact fun hname' => (hfree name hname').1 u hu hname
  · intro u hu name hname
    rcases List.mem_append.mp hu with hu | hu
    · exact h.attributes u hu name hname
    · rw [List.mem_singleton.mp hu] at hname
      exact (hfree name hname).2
  · intro u hu
    rcases List.mem_append.mp hu with hu | hu
    · exact h.aliases u hu
    · rw [List.mem_singleton.mp hu]
      exact haliases

theorem distinctNames_of_build (h : d.build = .ok p) : p.DistinctNames := by
  obtain ⟨hfold, -, hattributes⟩ := Draft.types_of_build h
  have hstart : d.start.DistinctNames := ⟨.nil, nofun, nofun⟩
  have hall := foldlM_induction DistinctNames hfold hstart fun t _ _ _ hp hq => hp.addType hq
  refine ⟨hall.types, ?_, hall.aliases⟩
  rw [hattributes]
  exact hall.attributes

theorem answersTo_of_lookupType {name : String} {id : TypeId} (h : p.lookupType name = .ok id) :
    ∃ t, p.types[id]? = some t ∧ t.answersTo name := by
  rw [lookupType] at h
  split at h
  next id' hid =>
    cases h
    obtain ⟨hlt, hanswers, -⟩ := List.findIdx?_eq_some_iff_getElem.mp hid
    exact ⟨p.types[id], List.getElem?_eq_getElem hlt, hanswers⟩
  next => cases h

theorem DistinctNames.answersTo_unique (h : p.DistinctNames) {i j : TypeId} {t u : TypeSymbol}
    {name : String} (ht : p.types[i]? = some t) (hu : p.types[j]? = some u) (htn : t.answersTo name)
    (hun : u.answersTo name) :
    i = j := by
  obtain ⟨hi, rfl⟩ := List.getElem?_eq_some_iff.mp ht
  obtain ⟨hj, rfl⟩ := List.getElem?_eq_some_iff.mp hu
  have hpair := List.pairwise_iff_getElem.mp h.types
  by_contra hne
  rcases Nat.lt_or_gt_of_ne hne with hlt | hlt
  · exact hpair i j hi hj hlt name htn hun
  · exact hpair j i hj hi hlt name hun htn

theorem DistinctNames.lookupType_eq_ok_iff (h : p.DistinctNames) {name : String} {id : TypeId} :
    p.lookupType name = .ok id ↔ ∃ t, p.types[id]? = some t ∧ t.answersTo name := by
  refine ⟨answersTo_of_lookupType, ?_⟩
  intro ⟨t, ht, hname⟩
  rw [lookupType]
  cases hid : p.types.findIdx? (·.answersTo name) with
  | some id' =>
    obtain ⟨hlt, hanswers, -⟩ := List.findIdx?_eq_some_iff_getElem.mp hid
    rw [h.answersTo_unique (List.getElem?_eq_getElem hlt) ht hanswers hname]
  | none =>
    have hnot := List.findIdx?_eq_none_iff.mp hid t (List.mem_of_getElem? ht)
    rw [hname] at hnot
    cases hnot

theorem DistinctNames.lookupType_name (h : p.DistinctNames) {id : TypeId} {t : TypeSymbol}
    (ht : p.types[id]? = some t) : p.lookupType t.name = .ok id :=
  h.lookupType_eq_ok_iff.mpr ⟨t, ht, (answersTo_iff t t.name).mpr (Or.inl rfl)⟩

/-- No type but itself has the name of a type. -/
theorem DistinctNames.eq_of_name_eq (h : p.DistinctNames) {t u : TypeSymbol} (ht : t ∈ p.types) (hu : u ∈ p.types)
    (hname : t.name = u.name) : t = u := by
  obtain ⟨i, hi⟩ := List.mem_iff_getElem?.mp ht
  obtain ⟨j, hj⟩ := List.mem_iff_getElem?.mp hu
  have ht' : t.answersTo t.name := (answersTo_iff t t.name).mpr (Or.inl rfl)
  have hu' : u.answersTo t.name := (answersTo_iff u t.name).mpr (Or.inl hname.symm)
  cases h.answersTo_unique hi hj ht' hu'
  exact Option.some.inj (hi.symm.trans hj)

theorem DistinctNames.lookupType_injective (h : p.DistinctNames) {t u : TypeSymbol} (ht : t ∈ p.types)
    (hu : u ∈ p.types) {id : TypeId} (hti : p.lookupType t.name = .ok id)
    (hui : p.lookupType u.name = .ok id) :
    t.name = u.name := by
  have named {v : TypeSymbol} (hv : v ∈ p.types) (hvi : p.lookupType v.name = .ok id) :
      p.types[id]? = some v := by
    obtain ⟨j, hj⟩ := List.mem_iff_getElem?.mp hv
    rw [Except.ok.inj (hvi.symm.trans (h.lookupType_name hj))]
    exact hj
  have htu := (named ht hti).symm.trans (named hu hui)
  rw [Option.some.inj htu]

theorem mem_attributeTable_iff (d : Draft) (name : String) : name ∈ d.attributeTable ↔ name ∈ d.attributes := by
  rw [Std.ExtTreeMap.mem_iff_isSome_getElem?, getElem?_attributeTable]
  split <;> simp [*]

/-- The members of an attribute are the types that list it. -/
theorem mem_attributeTable (d : Draft) {name : String} {a : Attribute}
    (h : d.attributeTable[name]? = some a) (member : String) :
    member ∈ a.types ↔ ∃ t ∈ d.types, name ∈ t.attributes ∧ t.name = member := by
  rw [getElem?_attributeTable] at h
  split at h
  · cases h
    simp [membersAmong, and_assoc]
  · cases h

theorem exists_type_of_mem (h : d.build = .ok p) {name : String} {a : Attribute}
    (ha : p.attributes[name]? = some a) {member : String} (hmember : member ∈ a.types) :
    ∃ t ∈ p.types, t.name = member := by
  obtain ⟨-, htypes, hattributes⟩ := Draft.types_of_build h
  rw [hattributes] at ha
  obtain ⟨t, ht, -, hname⟩ := (mem_attributeTable d ha member).mp hmember
  exact ⟨t, htypes ▸ ht, hname⟩

theorem expand_eq_ok {name : String} {ids : List TypeId} :
    p.expand name = .ok ids ↔
      (∃ id, p.types.findIdx? (·.answersTo name) = some id ∧ [id] = ids) ∨
        p.types.findIdx? (·.answersTo name) = none ∧
          ∃ a, p.attributes[name]? = some a ∧ a.types.toList.mapM p.lookupType = .ok ids := by
  rw [expand, lookupTypeOrAttribute]
  cases hid : p.types.findIdx? (·.answersTo name) with
  | some id => simp [bind, Except.bind, pure, Except.pure]
  | none =>
    cases ha : p.attributes[name]? with
    | some a => simp [bind, Except.bind]
    | none => simp [bind, Except.bind]

theorem nodup_of_expand (h : d.build = .ok p) {name : String} {ids : List TypeId}
    (hids : p.expand name = .ok ids) : ids.Nodup := by
  have hdistinct := distinctNames_of_build h
  rcases expand_eq_ok.mp hids with ⟨id, -, rfl⟩ | ⟨-, a, ha, hmapM⟩
  · exact List.nodup_singleton id
  refine pairwise_of_mapM hmapM (nodup_toList a.types) ?_
  intro name hname name' hname' hne id id' hid hid' heq
  obtain ⟨t, ht, rfl⟩ := exists_type_of_mem h ha (Std.ExtTreeSet.mem_toList.mp hname)
  obtain ⟨u, hu, rfl⟩ := exists_type_of_mem h ha (Std.ExtTreeSet.mem_toList.mp hname')
  rw [heq] at hid
  exact hne (hdistinct.lookupType_injective ht hu hid hid')

/-- The names of a rule stand for a pair of types. -/
def Covers (p : Policy) (source target : String) (s t : TypeId) : Prop :=
  ∃ pairs, p.expandPairs source target = .ok pairs ∧ (s, t) ∈ pairs

instance (source target : String) (s t : TypeId) : Decidable (p.Covers source target s t) :=
  match h : p.expandPairs source target with
  | .ok pairs => decidable_of_iff ((s, t) ∈ pairs) (by simp [Covers, h])
  | .error e => isFalse (by simp [Covers, h])

theorem covers_iff {source target : String} {pairs : List (TypeId × TypeId)}
    (hpairs : p.expandPairs source target = .ok pairs) (s t : TypeId) :
    p.Covers source target s t ↔ (s, t) ∈ pairs := by
  constructor
  · rintro ⟨pairs', hpairs', hmem⟩
    rwa [Except.ok.inj (hpairs.symm.trans hpairs')]
  · exact fun hmem => ⟨pairs, hpairs, hmem⟩

theorem expandPairs_eq_ok {source target : String} {pairs : List (TypeId × TypeId)} :
    p.expandPairs source target = .ok pairs ↔
      ∃ sources, p.expand source = .ok sources ∧
        (target = selfTarget ∧ (sources.map fun s => (s, s)) = pairs ∨
          target ≠ selfTarget ∧
            ∃ targets, p.expand target = .ok targets ∧ sources.product targets = pairs) := by
  rw [expandPairs, bind_eq_ok]
  refine exists_congr fun sources => and_congr_right fun _ => ?_
  by_cases hself : target = selfTarget
  · simp [hself, pure_eq_ok]
  · simp only [hself, if_false, bind_eq_ok, pure_eq_ok, ne_eq, not_false_eq_true, true_and, false_and,
      false_or]
    rfl

theorem exists_type_of_mem_expand {name : String} {ids : List TypeId} (h : p.expand name = .ok ids) {id : TypeId}
    (hid : id ∈ ids) : ∃ t, p.types[id]? = some t := by
  rcases expand_eq_ok.mp h with ⟨id', hid', rfl⟩ | ⟨-, a, -, hmapM⟩
  · obtain ⟨hlt, -⟩ := List.findIdx?_eq_some_iff_getElem.mp hid'
    rw [List.mem_singleton.mp hid]
    exact ⟨_, List.getElem?_eq_getElem hlt⟩
  · obtain ⟨member, -, hmember⟩ := (mem_iff_of_mapM hmapM).mp hid
    obtain ⟨t, ht, -⟩ := answersTo_of_lookupType hmember
    exact ⟨t, ht⟩

theorem Covers.exists_types {source target : String} {s t : TypeId} (h : p.Covers source target s t) :
    (∃ x, p.types[s]? = some x) ∧ ∃ y, p.types[t]? = some y := by
  obtain ⟨pairs, hpairs, hmem⟩ := h
  obtain ⟨sources, hsources, ⟨-, rfl⟩ | ⟨-, targets, htargets, rfl⟩⟩ := expandPairs_eq_ok.mp hpairs
  · obtain ⟨s', hs', heq⟩ := List.mem_map.mp hmem
    cases heq
    have hs := exists_type_of_mem_expand hsources hs'
    exact ⟨hs, hs⟩
  · obtain ⟨hs, ht⟩ := List.pair_mem_product.mp hmem
    exact ⟨exists_type_of_mem_expand hsources hs, exists_type_of_mem_expand htargets ht⟩

theorem nodup_of_expandPairs (h : d.build = .ok p) {source target : String} {pairs : List (TypeId × TypeId)}
    (hpairs : p.expandPairs source target = .ok pairs) : pairs.Nodup := by
  obtain ⟨sources, hsources, ⟨-, rfl⟩ | ⟨-, targets, htargets, rfl⟩⟩ := expandPairs_eq_ok.mp hpairs
  · refine (nodup_of_expand h hsources).map fun s t hst => ?_
    exact congrArg Prod.fst hst
  · exact (nodup_of_expand h hsources).product (nodup_of_expand h htargets)

end Policy

end PolicyAnalysis
