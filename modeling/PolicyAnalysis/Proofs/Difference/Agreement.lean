import PolicyAnalysis.Proofs.Difference.Rights
import PolicyAnalysis.Proofs.Policy.Booleans

/-!
# Policies that do not differ

Where a comparison finds nothing, every aspect is the same for both policies. So the two declare the same types,
attributes and booleans and allow the same accesses.
-/

namespace PolicyAnalysis

variable {d d' : Draft} {p q : Policy}

/-- The same types and booleans are declared, and the same accesses are allowed. -/
structure Policy.Agree (p q : Policy) : Prop where
  sameTypes : p.SameTypes q
  state_eq : ∀ name : String, (p.booleans[name]?).map Boolean.state = (q.booleans[name]?).map Boolean.state
  allows_iff : ∀ key perm, p.Gives (.access .allow key perm) ↔ q.Gives (.access .allow key perm)

namespace Reading

theorem mem_types_of_view_eq (hp : p.DistinctNames) (hview : types.view p = types.view q) {t : TypeSymbol}
    (ht : t ∈ p.types) : t ∈ q.types := by
  refine mem_items_of_view_eq rfl hview ht (fun u hu hname => hp.eq_of_name_eq hu ht hname) ?_
  -- A type is nothing but its name and the value that is compared.
  rintro ⟨name, aliases, attributes, permissive⟩ hname hvalue
  cases hname
  cases hvalue
  rfl

theorem view_attributes (h : p.Filed) (k : String) :
    attributes.view p k = (p.attributes[k]?).map Attribute.types :=
  congrArg (Option.map Attribute.types) (h.attributes.getElem?_eq_head? k).symm

theorem view_booleans (h : p.Filed) (k : String) :
    booleans.view p k = (p.booleans[k]?).map Boolean.state :=
  congrArg (Option.map Boolean.state) (h.booleans.getElem?_eq_head? k).symm

theorem attributes_eq_of_view_eq (hp : p.Filed) (hq : q.Filed) (hview : attributes.view p = attributes.view q) :
    p.attributes = q.attributes := by
  apply Std.ExtTreeMap.ext_getElem?
  intro k
  have hk : (p.attributes[k]?).map Attribute.types = (q.attributes[k]?).map Attribute.types := by
    rw [← view_attributes hp, ← view_attributes hq, hview]
  cases ha : p.attributes[k]? with
  | none =>
    rw [ha] at hk
    exact (Option.map_eq_none_iff.mp hk.symm).symm
  | some a =>
    rw [ha] at hk
    obtain ⟨b, hb, htypes⟩ := Option.map_eq_some_iff.mp hk.symm
    have hname : b.name = a.name := (hq.attributes k b hb).trans (hp.attributes k a ha).symm
    have heq : b = a := by
      cases a
      cases b
      cases hname
      cases htypes
      rfl
    rw [hb, heq]

end Reading

theorem Comparison.view_eq_of_isEmpty {c : Comparison} (hp : d.build = .ok p) (hq : d'.build = .ok q)
    (hc : between p q = .ok c) (hempty : c.isEmpty) : ∀ R ∈ Reading.all, R.view p = R.view q := by
  obtain ⟨-, hfound⟩ := between_eq_ok.mp hc
  have haspects : ∀ found ∈ c.aspects, found.isEmpty := by
    rw [isEmpty, Bool.and_eq_true, List.all_eq_true] at hempty
    exact hempty.2
  refine forall_mem_right ((List.forall₂_and_left _ _).mpr ⟨haspects, hfound.flip⟩) ?_
  rintro found R ⟨hnone, difference, hd, rfl⟩
  exact (Reading.exact_of_difference hp hq hd).isEmpty_iff.mp hnone

theorem Comparison.agree_of_isEmpty {c : Comparison} (hp : d.build = .ok p) (hq : d'.build = .ok q)
    (hc : between p q = .ok c) (hempty : c.isEmpty) : p.Agree q := by
  have hview := view_eq_of_isEmpty hp hq hc hempty
  have htypes : Reading.types.view p = Reading.types.view q := hview _ (by simp [Reading.all])
  have hattributes : Reading.attributes.view p = Reading.attributes.view q := hview _ (by simp [Reading.all])
  have hbooleans : Reading.booleans.view p = Reading.booleans.view q := hview _ (by simp [Reading.all])
  have hallows : (Reading.access "allows" .allow).view p = (Reading.access "allows" .allow).view q :=
    hview _ (by simp [Reading.all])
  have filedp := Policy.filed_of_build hp
  have filedq := Policy.filed_of_build hq
  refine ⟨⟨?_, Reading.attributes_eq_of_view_eq filedp filedq hattributes⟩, ?_, ?_⟩
  · intro t
    constructor
    · exact Reading.mem_types_of_view_eq (Policy.distinctNames_of_build hp) htypes
    · exact Reading.mem_types_of_view_eq (Policy.distinctNames_of_build hq) htypes.symm
  · intro name
    rw [← Reading.view_booleans filedp, ← Reading.view_booleans filedq, hbooleans]
  · exact (Reading.view_eq_iff_access "allows" .allow).mp hallows

namespace Policy.Agree

theorem symm (h : p.Agree q) : q.Agree p :=
  ⟨h.sameTypes.symm, fun name => (h.state_eq name).symm, fun key perm => (h.allows_iff key perm).symm⟩

theorem active_iff (h : p.Agree q) (overrides : NameTable Bool) (place : Conditional) :
    p.Active overrides place ↔ q.Active overrides place := by
  simp only [Active, h.state_eq]

theorem mem_booleans_iff (h : p.Agree q) (name : String) : name ∈ p.booleans ↔ name ∈ q.booleans := by
  have hstate := congrArg Option.isSome (h.state_eq name)
  rw [Option.isSome_map, Option.isSome_map] at hstate
  rw [Std.ExtTreeMap.mem_iff_isSome_getElem?, Std.ExtTreeMap.mem_iff_isSome_getElem?, hstate]

end Policy.Agree

end PolicyAnalysis
