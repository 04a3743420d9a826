import PolicyAnalysis.Policy.Resolve
import PolicyAnalysis.Proofs.Checked

/-!
# Names of sensitivities and categories

A name is resolved to the first symbol that answers to it. Where no symbol is shadowed by an earlier one, a
primary name resolves to itself, and so does what has been resolved. Where no two symbols share a name at all,
the order of the symbols does not matter to what a name resolves to.
-/

namespace PolicyAnalysis

open Checked

namespace MlsSymbol

variable {l l' : List MlsSymbol} {s : MlsSymbol} {name m : String}

def names (s : MlsSymbol) : List String :=
  s.name :: s.aliases.toList

theorem answersTo_iff : s.answersTo name ↔ name ∈ s.names := by
  rw [answersTo, names, Bool.or_eq_true, beq_iff_eq, Std.ExtTreeSet.contains_iff_mem, List.mem_cons,
    Std.ExtTreeSet.mem_toList, @eq_comm _ s.name]

theorem answersTo_name (s : MlsSymbol) : s.answersTo s.name :=
  answersTo_iff.mpr List.mem_cons_self

def Apart (l : List MlsSymbol) : Prop :=
  l.Pairwise fun s t => ∀ name ∈ s.names, name ∉ t.names

/-- No symbol has the name of a later one, unless both have it for their first. -/
def Unshadowed (l : List MlsSymbol) : Prop :=
  l.Pairwise fun s t => t.name ∈ s.names → s.name = t.name

instance : DecidablePred Apart := fun l =>
  inferInstanceAs (Decidable (l.Pairwise fun s t => ∀ name ∈ s.names, name ∉ t.names))

instance : DecidablePred Unshadowed := fun l =>
  inferInstanceAs (Decidable (l.Pairwise fun s t => t.name ∈ s.names → s.name = t.name))

theorem Apart.unshadowed (h : Apart l) : Unshadowed l :=
  h.imp fun hst hname => absurd List.mem_cons_self (hst _ hname)

theorem Apart.nodup_names (h : Apart l) : (l.map MlsSymbol.name).Nodup := by
  refine List.pairwise_map.mpr (h.imp ?_)
  intro s t hst heq
  exact hst s.name List.mem_cons_self (heq ▸ List.mem_cons_self)

/-- The primary name of what a name is for. -/
def primary? (l : List MlsSymbol) (name : String) : Option String :=
  (l.find? (·.answersTo name)).map MlsSymbol.name

theorem primary?_cons (s : MlsSymbol) (l : List MlsSymbol) (name : String) :
    primary? (s :: l) name = if s.answersTo name then some s.name else primary? l name := by
  rw [primary?, List.find?_cons]
  cases s.answersTo name <;> rfl

theorem exists_of_primary? (h : primary? l name = some m) : ∃ s ∈ l, s.answersTo name ∧ s.name = m := by
  obtain ⟨s, hs, rfl⟩ := Option.map_eq_some_iff.mp h
  have hname := List.find?_some hs
  exact ⟨s, List.mem_of_find?_eq_some hs, hname, rfl⟩

theorem primary?_primary (h : Unshadowed l) (hname : primary? l name = some m) : primary? l m = some m := by
  induction l with
  | nil => cases hname
  | cons s l ih =>
    obtain ⟨hs, hl⟩ := List.pairwise_cons.mp h
    rw [primary?_cons] at hname ⊢
    split at hname
    next =>
      cases hname
      rw [if_pos s.answersTo_name]
    next =>
      split
      next hm =>
        -- The name is that of a later symbol, which `s` does not shadow.
        obtain ⟨t, ht, -, rfl⟩ := exists_of_primary? hname
        rw [hs t ht (answersTo_iff.mp hm)]
      next => exact ih hl hname

theorem Apart.primary?_eq_some_iff (h : Apart l) :
    primary? l name = some m ↔ ∃ s ∈ l, s.answersTo name ∧ s.name = m := by
  refine ⟨exists_of_primary?, ?_⟩
  rintro ⟨s, hs, hname, rfl⟩
  induction l with
  | nil => cases hs
  | cons t l ih =>
    obtain ⟨ht, hl⟩ := List.pairwise_cons.mp h
    rw [primary?_cons]
    rcases List.mem_cons.mp hs with rfl | hs
    · rw [if_pos hname]
    · rw [if_neg fun hanswers => ht s hs name (answersTo_iff.mp hanswers) (answersTo_iff.mp hname)]
      exact ih hl hs

/-- The order of symbols that share no names does not matter. -/
theorem Apart.primary?_eq (h : Apart l) (h' : Apart l') (hmem : ∀ s, s ∈ l ↔ s ∈ l') (name : String) :
    primary? l name = primary? l' name := by
  ext m
  rw [h.primary?_eq_some_iff, h'.primary?_eq_some_iff]
  simp only [hmem]

end MlsSymbol

namespace Policy

variable {p q : Policy} {name m : String}

theorem resolveSensitivity_eq (p : Policy) (name : String) :
    p.resolveSensitivity name =
      (MlsSymbol.primary? p.sensitivities name).elim (.error (.unknownSensitivity name)) .ok := by
  rw [resolveSensitivity, MlsSymbol.primary?]
  cases p.sensitivities.find? (·.answersTo name) <;> rfl

theorem resolveCategory_eq (p : Policy) (name : String) :
    p.resolveCategory name =
      (MlsSymbol.primary? p.categories name).elim (.error (.unknownCategory name)) .ok := by
  rw [resolveCategory, MlsSymbol.primary?]
  cases p.categories.find? (·.answersTo name) <;> rfl

theorem resolveSensitivity_eq_ok :
    p.resolveSensitivity name = .ok m ↔ MlsSymbol.primary? p.sensitivities name = some m := by
  rw [resolveSensitivity_eq]
  cases MlsSymbol.primary? p.sensitivities name <;> simp

theorem resolveCategory_eq_ok :
    p.resolveCategory name = .ok m ↔ MlsSymbol.primary? p.categories name = some m := by
  rw [resolveCategory_eq]
  cases MlsSymbol.primary? p.categories name <;> simp

theorem resolveLevel_eq_ok {l l' : Level} :
    p.resolveLevel l = .ok l' ↔ p.resolveSensitivity l.sensitivity = .ok l'.sensitivity ∧
      (∀ c ∈ l.categories, ∃ m, p.resolveCategory c = .ok m) ∧
      ∀ m, m ∈ l'.categories ↔ ∃ c ∈ l.categories, p.resolveCategory c = .ok m := by
  simp only [resolveLevel, bind_eq_ok, pure_eq_ok]
  constructor
  · rintro ⟨sensitivity, hsensitivity, categories, hcategories, rfl⟩
    refine ⟨hsensitivity, ?_, fun m => ?_⟩
    · simpa using exists_mapM_eq_ok.mp ⟨categories, hcategories⟩
    · simpa using mem_iff_of_mapM hcategories
  · intro ⟨hsensitivity, htotal, hmem⟩
    obtain ⟨categories, hcategories⟩ :=
      exists_mapM_eq_ok.mpr fun c hc => htotal c (Std.ExtTreeSet.mem_toList.mp hc)
    refine ⟨l'.sensitivity, hsensitivity, categories, hcategories, ?_⟩
    obtain ⟨sensitivity', categories'⟩ := l'
    congr 1
    ext c
    rw [hmem]
    simpa using mem_iff_of_mapM hcategories

theorem resolveLevel_congr (hsensitivity : ∀ name, p.resolveSensitivity name = q.resolveSensitivity name)
    (hcategory : ∀ name, p.resolveCategory name = q.resolveCategory name) (l : Level) :
    p.resolveLevel l = q.resolveLevel l := by
  rw [resolveLevel, resolveLevel, hsensitivity, funext hcategory]

theorem resolveRange_eq_ok {r r' : Range} :
    p.resolveRange r = .ok r' ↔ p.resolveLevel r.low = .ok r'.low ∧ p.resolveLevel r.high = .ok r'.high := by
  simp only [resolveRange, bind_eq_ok, pure_eq_ok]
  constructor
  · rintro ⟨low, hlow, high, hhigh, rfl⟩
    exact ⟨hlow, hhigh⟩
  · intro ⟨hlow, hhigh⟩
    exact ⟨r'.low, hlow, r'.high, hhigh, rfl⟩

/-- The names in a level are those of declared symbols, and no aliases. -/
structure PrimaryLevel (p : Policy) (l : Level) : Prop where
  sensitivity : ∃ s ∈ p.sensitivities, s.name = l.sensitivity
  categories : ∀ c ∈ l.categories, ∃ s ∈ p.categories, s.name = c

structure PrimaryRange (p : Policy) (r : Range) : Prop where
  low : p.PrimaryLevel r.low
  high : p.PrimaryLevel r.high

theorem exists_name_of_resolveSensitivity (hname : p.resolveSensitivity name = .ok m) :
    ∃ s ∈ p.sensitivities, s.name = m := by
  obtain ⟨s, hs, -, hm⟩ := MlsSymbol.exists_of_primary? (resolveSensitivity_eq_ok.mp hname)
  exact ⟨s, hs, hm⟩

theorem exists_name_of_resolveCategory (hname : p.resolveCategory name = .ok m) :
    ∃ s ∈ p.categories, s.name = m := by
  obtain ⟨s, hs, -, hm⟩ := MlsSymbol.exists_of_primary? (resolveCategory_eq_ok.mp hname)
  exact ⟨s, hs, hm⟩

theorem primaryLevel_of_resolveLevel {l l' : Level} (hl : p.resolveLevel l = .ok l') : p.PrimaryLevel l' := by
  obtain ⟨hsensitivity, -, hmem⟩ := resolveLevel_eq_ok.mp hl
  refine ⟨exists_name_of_resolveSensitivity hsensitivity, fun c hc => ?_⟩
  obtain ⟨c', -, hc'⟩ := (hmem c).mp hc
  exact exists_name_of_resolveCategory hc'

theorem primaryRange_of_resolveRange {r r' : Range} (hr : p.resolveRange r = .ok r') : p.PrimaryRange r' := by
  obtain ⟨hlow, hhigh⟩ := resolveRange_eq_ok.mp hr
  exact ⟨primaryLevel_of_resolveLevel hlow, primaryLevel_of_resolveLevel hhigh⟩

structure ClearLevels (p : Policy) : Prop where
  sensitivities : MlsSymbol.Unshadowed p.sensitivities
  categories : MlsSymbol.Unshadowed p.categories

namespace ClearLevels

theorem resolveSensitivity (h : p.ClearLevels) (hname : p.resolveSensitivity name = .ok m) :
    p.resolveSensitivity m = .ok m :=
  resolveSensitivity_eq_ok.mpr (MlsSymbol.primary?_primary h.sensitivities (resolveSensitivity_eq_ok.mp hname))

theorem resolveCategory (h : p.ClearLevels) (hname : p.resolveCategory name = .ok m) :
    p.resolveCategory m = .ok m :=
  resolveCategory_eq_ok.mpr (MlsSymbol.primary?_primary h.categories (resolveCategory_eq_ok.mp hname))

theorem resolveLevel (h : p.ClearLevels) {l l' : Level} (hl : p.resolveLevel l = .ok l') :
    p.resolveLevel l' = .ok l' := by
  obtain ⟨hsensitivity, -, hmem⟩ := resolveLevel_eq_ok.mp hl
  have hfixed : ∀ c ∈ l'.categories, p.resolveCategory c = .ok c := by
    intro c hc
    obtain ⟨c', -, hc'⟩ := (hmem c).mp hc
    exact h.resolveCategory hc'
  refine resolveLevel_eq_ok.mpr ⟨h.resolveSensitivity hsensitivity, fun c hc => ⟨c, hfixed c hc⟩, fun m => ?_⟩
  constructor
  · intro hm
    exact ⟨m, hm, hfixed m hm⟩
  · intro ⟨c, hc, hcm⟩
    cases (hfixed c hc).symm.trans hcm
    exact hc

theorem resolveRange (h : p.ClearLevels) {r r' : Range} (hr : p.resolveRange r = .ok r') :
    p.resolveRange r' = .ok r' := by
  obtain ⟨hlow, hhigh⟩ := resolveRange_eq_ok.mp hr
  exact resolveRange_eq_ok.mpr ⟨h.resolveLevel hlow, h.resolveLevel hhigh⟩

end ClearLevels

theorem exists_sensitivityRank_of_mem {s : MlsSymbol} (hs : s ∈ p.sensitivities) (hanswers : s.answersTo name) :
    ∃ rank, p.sensitivityRank name = .ok rank := by
  rw [sensitivityRank]
  cases hrank : p.sensitivities.findIdx? (·.answersTo name) with
  | some rank => exact ⟨rank, rfl⟩
  | none =>
    have hnot := List.findIdx?_eq_none_iff.mp hrank s hs
    rw [hanswers] at hnot
    cases hnot

theorem exists_sensitivityRank (hname : p.resolveSensitivity name = .ok m) :
    ∃ rank, p.sensitivityRank name = .ok rank := by
  obtain ⟨s, hs, hanswers, -⟩ := MlsSymbol.exists_of_primary? (resolveSensitivity_eq_ok.mp hname)
  exact exists_sensitivityRank_of_mem hs hanswers

theorem ClearLevels.levelDominates_eq_error_iff (h : p.ClearLevels) {high low : Level} {e : PolicyError} :
    p.levelDominates high low = .error e ↔
      p.resolveLevel high = .error e ∨ ∃ l, p.resolveLevel high = .ok l ∧ p.resolveLevel low = .error e := by
  have hrank {l l' : Level} (hl : p.resolveLevel l = .ok l') :
      ∃ rank, p.sensitivityRank l'.sensitivity = .ok rank :=
    exists_sensitivityRank (h.resolveSensitivity (resolveLevel_eq_ok.mp hl).1)
  rw [levelDominates, bind_eq_error]
  refine or_congr_right (exists_congr fun high' => and_congr_right fun hhigh => ?_)
  obtain ⟨i, hi⟩ := hrank hhigh
  rw [bind_eq_error]
  refine or_iff_left ?_
  rintro ⟨low', hlow, h⟩
  obtain ⟨j, hj⟩ := hrank hlow
  rw [hi, hj] at h
  cases h

def Below (p : Policy) (a b : String) : Prop :=
  ∃ i j, p.sensitivityRank a = .ok i ∧ p.sensitivityRank b = .ok j ∧ i < j

instance : Std.Irrefl p.Below where
  irrefl a := by
    rintro ⟨i, j, hi, hj, hlt⟩
    cases hi.symm.trans hj
    exact Nat.lt_irrefl i hlt

instance : Std.Asymm p.Below where
  asymm a b := by
    rintro ⟨i, j, hi, hj, hlt⟩ ⟨j', i', hj', hi', hlt'⟩
    cases hi.symm.trans hi'
    cases hj.symm.trans hj'
    exact Nat.lt_asymm hlt hlt'

theorem sensitivityRank_name (h : MlsSymbol.Apart p.sensitivities) {i : Nat} (hi : i < p.sensitivities.length) :
    p.sensitivityRank p.sensitivities[i].name = .ok i := by
  have hrank : p.sensitivities.findIdx? (·.answersTo p.sensitivities[i].name) = some i := by
    refine List.findIdx?_eq_some_iff_getElem.mpr ⟨hi, MlsSymbol.answersTo_name _, ?_⟩
    intro j hj hanswers
    exact List.pairwise_iff_getElem.mp h j i (Nat.lt_trans hj hi) hi hj _ (MlsSymbol.answersTo_iff.mp hanswers)
      List.mem_cons_self
  rw [sensitivityRank, hrank]

theorem pairwise_below (h : MlsSymbol.Apart p.sensitivities) :
    (p.sensitivities.map MlsSymbol.name).Pairwise p.Below := by
  refine List.pairwise_map.mpr (List.pairwise_iff_getElem.mpr ?_)
  intro i j hi hj hlt
  exact ⟨i, j, sensitivityRank_name h hi, sensitivityRank_name h hj, hlt⟩

/-- Levels without categories are compared by their sensitivities alone. -/
theorem levelDominates_bare (h : MlsSymbol.Apart p.sensitivities) {s t : MlsSymbol} (hs : s ∈ p.sensitivities)
    (ht : t ∈ p.sensitivities) :
    p.levelDominates ⟨s.name, ∅⟩ ⟨t.name, ∅⟩ = .ok false ↔ p.Below s.name t.name := by
  have hresolve {s : MlsSymbol} (hs : s ∈ p.sensitivities) : p.resolveLevel ⟨s.name, ∅⟩ = .ok ⟨s.name, ∅⟩ := by
    refine resolveLevel_eq_ok.mpr ⟨?_, by simp, by simp⟩
    exact resolveSensitivity_eq_ok.mpr (h.primary?_eq_some_iff.mpr ⟨s, hs, s.answersTo_name, rfl⟩)
  obtain ⟨i, hi, rfl⟩ := List.mem_iff_getElem.mp hs
  obtain ⟨j, hj, rfl⟩ := List.mem_iff_getElem.mp ht
  have hrank := sensitivityRank_name h hi
  have hrank' := sensitivityRank_name h hj
  have hdominates : p.levelDominates ⟨p.sensitivities[i].name, ∅⟩ ⟨p.sensitivities[j].name, ∅⟩ =
      .ok (decide (j ≤ i) && true) := by
    simp only [levelDominates, bind_eq_ok]
    exact ⟨_, hresolve hs, _, hresolve ht, i, hrank, j, hrank', rfl⟩
  simp [hdominates, Below, hrank, hrank']

end Policy

end PolicyAnalysis
