import PolicyAnalysis.Proofs.Policy.Rules

/-!
# Names for the same symbols

A type, a sensitivity or a category can be called by its name or by an alias. What is resolved to primary names
comes out the same for either, and so does what a name stands for.
-/

namespace PolicyAnalysis

open Checked

variable {p : Policy}

/-- Two names are for the same symbol. A name that is for none is a synonym of itself alone. -/
def Synonyms {α : Type} (resolve : String → Except PolicyError α) (name name' : String) : Prop :=
  name = name' ∨ ∃ a, resolve name = .ok a ∧ resolve name' = .ok a

/-- Each name in either set has a synonym in the other. -/
structure SynonymSets {α : Type} (resolve : String → Except PolicyError α) (names names' : NameSet) : Prop where
  left : ∀ name ∈ names, ∃ name' ∈ names', Synonyms resolve name name'
  right : ∀ name' ∈ names', ∃ name ∈ names, Synonyms resolve name name'

theorem exists_mem_of_forall₂ {α β : Type} {S : α → β → Prop} {as : List α} {bs : List β}
    (h : List.Forall₂ S as bs) : ∀ a ∈ as, ∃ b ∈ bs, S a b := by
  induction h with
  | nil => exact nofun
  | @cons a b as bs hab _ ih =>
    refine List.forall_mem_cons.mpr ⟨⟨b, List.mem_cons_self, hab⟩, fun a' ha' => ?_⟩
    obtain ⟨b', hb', hab'⟩ := ih a' ha'
    exact ⟨b', List.mem_cons_of_mem b hb', hab'⟩

section Resolve

variable {α : Type} {resolve : String → Except PolicyError α} {name name' : String} {names names' : NameSet}

theorem Synonyms.refl (name : String) : Synonyms resolve name name :=
  Or.inl rfl

theorem Synonyms.resolve_eq (h : Synonyms resolve name name') : resolve name = resolve name' := by
  rcases h with rfl | ⟨a, ha, ha'⟩
  · rfl
  · rw [ha, ha']

namespace SynonymSets

theorem refl (names : NameSet) : SynonymSets resolve names names where
  left name hname := ⟨name, hname, .refl name⟩
  right name hname := ⟨name, hname, .refl name⟩

theorem of_forall₂ {l l' : List String} (h : List.Forall₂ (Synonyms resolve) l l') :
    SynonymSets resolve (.ofList l) (.ofList l') where
  left name hname := by
    obtain ⟨name', hname', hsame⟩ := exists_mem_of_forall₂ h name (by simpa using hname)
    exact ⟨name', by simpa using hname', hsame⟩
  right name' hname' := by
    obtain ⟨name, hname, hsame⟩ := exists_mem_of_forall₂ h.flip name' (by simpa using hname')
    exact ⟨name, by simpa using hname, hsame⟩

theorem forall_iff (h : SynonymSets resolve names names') {P P' : String → Prop}
    (hP : ∀ name name', Synonyms resolve name name' → (P name ↔ P' name')) :
    (∀ name ∈ names, P name) ↔ ∀ name' ∈ names', P' name' := by
  constructor
  · intro hall name' hname'
    obtain ⟨name, hname, hsame⟩ := h.right name' hname'
    exact (hP name name' hsame).mp (hall name hname)
  · intro hall name hname
    obtain ⟨name', hname', hsame⟩ := h.left name hname
    exact (hP name name' hsame).mpr (hall name' hname')

theorem exists_iff (h : SynonymSets resolve names names') {P P' : String → Prop}
    (hP : ∀ name name', Synonyms resolve name name' → (P name ↔ P' name')) :
    (∃ name ∈ names, P name) ↔ ∃ name' ∈ names', P' name' := by
  constructor
  · intro ⟨name, hname, hp⟩
    obtain ⟨name', hname', hsame⟩ := h.left name hname
    exact ⟨name', hname', (hP name name' hsame).mp hp⟩
  · intro ⟨name', hname', hp⟩
    obtain ⟨name, hname, hsame⟩ := h.right name' hname'
    exact ⟨name, hname, (hP name name' hsame).mpr hp⟩

/-- The symbols that the names of either set resolve to. -/
theorem parallel_mapM (h : SynonymSets resolve names names') :
    Parallel (fun l l' => ∀ a, a ∈ l ↔ a ∈ l') (names.toList.mapM resolve) (names'.toList.mapM resolve) := by
  apply Parallel.of_exists_iff
  · simp only [exists_mapM_eq_ok, Std.ExtTreeSet.mem_toList]
    exact h.forall_iff fun _ _ hsame => by rw [hsame.resolve_eq]
  · intro l l' hl hl' a
    simp only [mem_iff_of_mapM hl, mem_iff_of_mapM hl', Std.ExtTreeSet.mem_toList]
    exact h.exists_iff fun _ _ hsame => by rw [hsame.resolve_eq]

end SynonymSets

end Resolve

namespace Policy

structure SameLevel (p : Policy) (l l' : Level) : Prop where
  sensitivity : Synonyms p.resolveSensitivity l.sensitivity l'.sensitivity
  categories : SynonymSets p.resolveCategory l.categories l'.categories

structure SameRange (p : Policy) (r r' : Range) : Prop where
  low : p.SameLevel r.low r'.low
  high : p.SameLevel r.high r'.high

/-- Contexts written with other names; users and roles have but one. -/
structure SameContext (p : Policy) (c c' : Context) : Prop where
  user : c.user = c'.user
  role : c.role = c'.role
  type : Synonyms p.lookupType c.type c'.type
  range : Option.Rel p.SameRange c.range c'.range

/-- The source and target of a rule written with other names. The target that stands for the source has no
other. -/
structure SameEnds (p : Policy) (source target source' target' : String) : Prop where
  self_iff : target = selfTarget ↔ target' = selfTarget
  source : Synonyms p.lookupType source source'
  target : Synonyms p.lookupType target target'

theorem SameLevel.refl (l : Level) : p.SameLevel l l :=
  ⟨.refl _, .refl _⟩

theorem SameRange.refl (r : Range) : p.SameRange r r :=
  ⟨.refl _, .refl _⟩

theorem SameContext.refl (c : Context) : p.SameContext c c := by
  refine ⟨rfl, rfl, .refl _, ?_⟩
  cases c.range with
  | none => exact .none
  | some r => exact .some (.refl r)

theorem SameEnds.refl (source target : String) : p.SameEnds source target source target :=
  ⟨Iff.rfl, .refl _, .refl _⟩

theorem SameLevel.parallel {l l' : Level} (h : p.SameLevel l l') :
    Parallel Eq (p.resolveLevel l) (p.resolveLevel l') := by
  rw [resolveLevel, resolveLevel, h.sensitivity.resolve_eq]
  refine .bind_same fun sensitivity => ?_
  refine h.categories.parallel_mapM.bind fun categories categories' hcategories => .ok ?_
  congr 1
  ext name
  simp [hcategories]

theorem SameRange.parallel {r r' : Range} (h : p.SameRange r r') :
    Parallel Eq (p.resolveRange r) (p.resolveRange r') := by
  refine h.low.parallel.bind_eq fun low => ?_
  refine h.high.parallel.bind_eq fun high => ?_
  exact .ok rfl

theorem resolveType_eq {name name' : String} (h : Synonyms p.lookupType name name') :
    p.resolveType name = p.resolveType name' := by
  rw [resolveType, resolveType, h.resolve_eq]

theorem SameContext.parallel {c c' : Context} (h : p.SameContext c c') :
    Parallel Eq (p.resolveContext c) (p.resolveContext c') := by
  obtain ⟨user, role, type, range⟩ := c'
  obtain ⟨rfl, rfl, htype, hrange⟩ := h
  refine .bind_same fun _ => .bind_same fun _ => ?_
  rw [resolveType_eq htype]
  refine .bind_same fun type => ?_
  exact (Parallel.option_mapM hrange fun _ _ hr => hr.parallel).bind_eq fun range => .ok rfl

theorem expand_of_lookupType {name : String} {id : TypeId} (h : p.lookupType name = .ok id) :
    p.expand name = .ok [id] := by
  rw [lookupType] at h
  split at h
  next hid =>
    cases h
    exact expand_eq_ok.mpr (Or.inl ⟨id, hid, rfl⟩)
  next => cases h

theorem expand_eq {name name' : String} (h : Synonyms p.lookupType name name') :
    p.expand name = p.expand name' := by
  rcases h with rfl | ⟨id, hid, hid'⟩
  · rfl
  · rw [expand_of_lookupType hid, expand_of_lookupType hid']

namespace SameEnds

variable {source target source' target' : String}

theorem expandPairs_eq (h : p.SameEnds source target source' target') :
    p.expandPairs source target = p.expandPairs source' target' := by
  simp only [expandPairs, expand_eq h.source, expand_eq h.target, h.self_iff]

theorem checkSourceTarget_eq (h : p.SameEnds source target source' target') :
    p.checkSourceTarget source target = p.checkSourceTarget source' target' := by
  simp only [checkSourceTarget, expand_eq h.source, expand_eq h.target, ne_eq, h.self_iff]

end SameEnds

end Policy

end PolicyAnalysis
