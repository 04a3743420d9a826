import PolicyAnalysis.Proofs.Policy.Canonical

/-!
# Dominance orders levels

Levels are resolved before they are compared, and what is compared is the place of the sensitivity that the resolved
name is for, which is looked up again. So dominance is reflexive and transitive whatever is declared. It tells
different levels apart, and goes by the places of the sensitivities that were given, where no sensitivity is shadowed
by an earlier one: else the second look-up may find another sensitivity than the first.
-/

namespace PolicyAnalysis

theorem all_iff {α : Type} [Ord α] [Std.TransOrd α] [Std.LawfulEqOrd α] (s : Std.ExtTreeSet α) (test : α → Bool) :
    s.all test ↔ ∀ a ∈ s, test a := by
  -- The library has no lemma on this test: it is the loop below over the tree, which is one over its members.
  have hloop : s.all test = Id.run (do
      for a in s do
        if test a = false then return false
      return true) := by
    obtain ⟨⟨t⟩⟩ := s
    exact t.inductionOn fun _ => rfl
  have hlist (l : List α) : Id.run (do
      for a in l do
        if test a = false then return false
      return true) = l.all test := by
    induction l with
    | nil => rfl
    | cons a l ih =>
      cases htest : test a
      · simp [htest]
      · simpa [htest] using ih
  rw [hloop]
  simp only [Std.ExtTreeSet.forIn_eq_forIn_toList, hlist, List.all_eq_true, Std.ExtTreeSet.mem_toList]

namespace Policy

open Checked

variable {p : Policy} {a b c a' b' : Level} {name m : String} {i j : Nat}

/-- The first sensitivity with a name, be it its own or an alias, is at a place. -/
structure StandsAt (p : Policy) (name : String) (i : Nat) : Prop where
  answers : ∃ s, p.sensitivities[i]? = some s ∧ name ∈ s.names
  first : ∀ j < i, ∀ s, p.sensitivities[j]? = some s → name ∉ s.names

/-- A level that dominates another, as far as the answer is yes. -/
def Dominates (p : Policy) (high low : Level) : Prop :=
  p.levelDominates high low = .ok true

theorem sensitivityRank_eq_ok_iff :
    p.sensitivityRank name = .ok i ↔ p.sensitivities.findIdx? (·.answersTo name) = some i := by
  rw [sensitivityRank]
  cases p.sensitivities.findIdx? (·.answersTo name) <;> simp

theorem standsAt_iff : p.StandsAt name i ↔ p.sensitivityRank name = .ok i := by
  rw [sensitivityRank_eq_ok_iff, List.findIdx?_eq_some_iff_getElem]
  constructor
  · rintro ⟨⟨s, hs, hname⟩, hfirst⟩
    obtain ⟨hi, rfl⟩ := List.getElem?_eq_some_iff.mp hs
    refine ⟨hi, MlsSymbol.answersTo_iff.mpr hname, fun j hj hanswers => ?_⟩
    have hlt := Nat.lt_trans hj hi
    exact hfirst j hj _ (List.getElem?_eq_getElem hlt) (MlsSymbol.answersTo_iff.mp hanswers)
  · rintro ⟨hi, hanswers, hfirst⟩
    refine ⟨⟨_, List.getElem?_eq_getElem hi, MlsSymbol.answersTo_iff.mp hanswers⟩, fun j hj s hs hname => ?_⟩
    obtain ⟨hlt, rfl⟩ := List.getElem?_eq_some_iff.mp hs
    exact hfirst j hj (MlsSymbol.answersTo_iff.mpr hname)

theorem StandsAt.unique (hi : p.StandsAt name i) (hj : p.StandsAt name j) : i = j :=
  Except.ok.inj ((standsAt_iff.mp hi).symm.trans (standsAt_iff.mp hj))

theorem resolveSensitivity_eq_ok_iff :
    p.resolveSensitivity name = .ok m ↔ ∃ i, p.StandsAt name i ∧ p.sensitivities[i]?.map MlsSymbol.name = some m := by
  rw [resolveSensitivity_eq_ok, MlsSymbol.primary?, List.find?_eq_bind_findIdx?_getElem?]
  simp only [standsAt_iff, sensitivityRank_eq_ok_iff]
  cases p.sensitivities.findIdx? (·.answersTo name) <;> simp

theorem exists_standsAt (hname : p.resolveSensitivity name = .ok m) : ∃ i, p.StandsAt m i := by
  obtain ⟨s, hs, -, rfl⟩ := MlsSymbol.exists_of_primary? (resolveSensitivity_eq_ok.mp hname)
  obtain ⟨i, hi⟩ := exists_sensitivityRank_of_mem hs s.answersTo_name
  exact ⟨i, standsAt_iff.mpr hi⟩

/-- Where no sensitivity is shadowed, one that a name is resolved to is found again. -/
theorem name_of_standsAt (h : MlsSymbol.Unshadowed p.sensitivities) (hname : p.resolveSensitivity name = .ok m)
    (hi : p.StandsAt m i) : p.sensitivities[i]?.map MlsSymbol.name = some m := by
  have hprimary := MlsSymbol.primary?_primary h (resolveSensitivity_eq_ok.mp hname)
  obtain ⟨j, hj, hm⟩ := resolveSensitivity_eq_ok_iff.mp (resolveSensitivity_eq_ok.mpr hprimary)
  rwa [hi.unique hj]

/-- Where, besides, none is declared twice, a name and what it is resolved to have one place. -/
theorem StandsAt.resolved (h : MlsSymbol.Unshadowed p.sensitivities)
    (hnodup : (p.sensitivities.map MlsSymbol.name).Nodup) (hi : p.StandsAt name i)
    (hname : p.resolveSensitivity name = .ok m) : p.StandsAt m i := by
  obtain ⟨i', hi', hm⟩ := resolveSensitivity_eq_ok_iff.mp hname
  obtain ⟨j, hj⟩ := exists_standsAt hname
  have hm' := name_of_standsAt h hname hj
  rw [← List.getElem?_map] at hm hm'
  obtain ⟨hlt, -⟩ := List.getElem?_eq_some_iff.mp hm'
  have heq : j = i' := (List.getElem?_inj hlt hnodup).mp (hm'.trans hm.symm)
  rwa [hi.unique hi', ← heq]

theorem levelDominates_eq (ha : p.resolveLevel a = .ok a') (hb : p.resolveLevel b = .ok b')
    (hi : p.StandsAt a'.sensitivity i) (hj : p.StandsAt b'.sensitivity j) :
    p.levelDominates a b = .ok (decide (j ≤ i) && b'.categories.all a'.categories.contains) := by
  simp only [levelDominates, bind_eq_ok]
  exact ⟨a', ha, b', hb, i, standsAt_iff.mp hi, j, standsAt_iff.mp hj, rfl⟩

theorem dominates_iff (ha : p.resolveLevel a = .ok a') (hb : p.resolveLevel b = .ok b')
    (hi : p.StandsAt a'.sensitivity i) (hj : p.StandsAt b'.sensitivity j) :
    p.Dominates a b ↔ j ≤ i ∧ ∀ c ∈ b'.categories, c ∈ a'.categories := by
  rw [Dominates, levelDominates_eq ha hb hi hj]
  simp [all_iff]

theorem Dominates.exists_resolved (h : p.Dominates a b) :
    (∃ a', p.resolveLevel a = .ok a') ∧ ∃ b', p.resolveLevel b = .ok b' := by
  simp only [Dominates, levelDominates, bind_eq_ok] at h
  obtain ⟨a', ha, b', hb, -⟩ := h
  exact ⟨⟨a', ha⟩, b', hb⟩

theorem exists_standsAt_of_resolveLevel (ha : p.resolveLevel a = .ok a') : ∃ i, p.StandsAt a'.sensitivity i :=
  exists_standsAt (resolveLevel_eq_ok.mp ha).1

theorem dominates_refl (ha : p.resolveLevel a = .ok a') : p.Dominates a a := by
  obtain ⟨i, hi⟩ := exists_standsAt_of_resolveLevel ha
  exact (dominates_iff ha ha hi hi).mpr ⟨Nat.le_refl i, fun _ hc => hc⟩

theorem Dominates.trans (hab : p.Dominates a b) (hbc : p.Dominates b c) : p.Dominates a c := by
  obtain ⟨⟨a', ha⟩, b', hb⟩ := hab.exists_resolved
  obtain ⟨-, c', hc⟩ := hbc.exists_resolved
  obtain ⟨i, hi⟩ := exists_standsAt_of_resolveLevel ha
  obtain ⟨j, hj⟩ := exists_standsAt_of_resolveLevel hb
  obtain ⟨k, hk⟩ := exists_standsAt_of_resolveLevel hc
  obtain ⟨hji, hcategories⟩ := (dominates_iff ha hb hi hj).mp hab
  obtain ⟨hkj, hcategories'⟩ := (dominates_iff hb hc hj hk).mp hbc
  exact (dominates_iff ha hc hi hk).mpr ⟨Nat.le_trans hkj hji, fun c hc => hcategories c (hcategories' c hc)⟩

/-- Levels that dominate each other are the same if no sensitivity is shadowed. -/
theorem Dominates.antisymm (h : MlsSymbol.Unshadowed p.sensitivities) (ha : p.resolveLevel a = .ok a')
    (hb : p.resolveLevel b = .ok b') (hab : p.Dominates a b) (hba : p.Dominates b a) : a' = b' := by
  obtain ⟨i, hi⟩ := exists_standsAt_of_resolveLevel ha
  obtain ⟨j, hj⟩ := exists_standsAt_of_resolveLevel hb
  obtain ⟨hji, hcategories⟩ := (dominates_iff ha hb hi hj).mp hab
  obtain ⟨hij, hcategories'⟩ := (dominates_iff hb ha hj hi).mp hba
  have hsensitivity : a'.sensitivity = b'.sensitivity := by
    have hname := name_of_standsAt h (resolveLevel_eq_ok.mp ha).1 hi
    have hname' := name_of_standsAt h (resolveLevel_eq_ok.mp hb).1 hj
    rw [Nat.le_antisymm hij hji] at hname
    exact Option.some.inj (hname.symm.trans hname')
  have heq : a'.categories = b'.categories :=
    Std.ExtTreeSet.ext_mem fun c => ⟨hcategories' c, hcategories c⟩
  obtain ⟨sensitivity, categories⟩ := a'
  cases hsensitivity
  cases heq
  rfl

/-- How dominance compares two levels that resolve to two others. -/
structure Compares (p : Policy) (a b a' b' : Level) : Prop where
  answers : ∃ answer, p.levelDominates a b = .ok answer
  iff_resolved : ∃ i j, p.StandsAt a'.sensitivity i ∧ p.StandsAt b'.sensitivity j ∧
    (p.Dominates a b ↔ j ≤ i ∧ ∀ c ∈ b'.categories, c ∈ a'.categories)
  of_eq : a' = b' → p.Dominates a b ∧ p.Dominates b a
  eq_iff : MlsSymbol.Unshadowed p.sensitivities → (p.Dominates a b ∧ p.Dominates b a ↔ a' = b')
  iff_given : MlsSymbol.Unshadowed p.sensitivities → (p.sensitivities.map MlsSymbol.name).Nodup →
    ∃ i j, p.StandsAt a.sensitivity i ∧ p.StandsAt b.sensitivity j ∧
      (p.Dominates a b ↔ j ≤ i ∧ ∀ c ∈ b'.categories, c ∈ a'.categories)

theorem compares (ha : p.resolveLevel a = .ok a') (hb : p.resolveLevel b = .ok b') : p.Compares a b a' b' := by
  obtain ⟨i, hi⟩ := exists_standsAt_of_resolveLevel ha
  obtain ⟨j, hj⟩ := exists_standsAt_of_resolveLevel hb
  have hsame : a' = b' → p.Dominates a b ∧ p.Dominates b a := by
    rintro rfl
    exact ⟨(dominates_iff ha hb hi hi).mpr ⟨Nat.le_refl i, fun _ hc => hc⟩,
      (dominates_iff hb ha hi hi).mpr ⟨Nat.le_refl i, fun _ hc => hc⟩⟩
  refine ⟨⟨_, levelDominates_eq ha hb hi hj⟩, ⟨i, j, hi, hj, dominates_iff ha hb hi hj⟩, hsame, fun h => ?_,
    fun h hnodup => ?_⟩
  · exact ⟨fun ⟨hab, hba⟩ => hab.antisymm h ha hb hba, hsame⟩
  · have hname := (resolveLevel_eq_ok.mp ha).1
    have hname' := (resolveLevel_eq_ok.mp hb).1
    obtain ⟨k, hk, -⟩ := resolveSensitivity_eq_ok_iff.mp hname
    obtain ⟨l, hl, -⟩ := resolveSensitivity_eq_ok_iff.mp hname'
    exact ⟨k, l, hk, hl, dominates_iff ha hb (hk.resolved h hnodup hname) (hl.resolved h hnodup hname')⟩

/-- Dominance orders the levels of a policy. It is reflexive and transitive, and goes by the places of the resolved
sensitivities and by the resolved categories. Where no sensitivity is shadowed, levels that dominate each other are
those that resolve to the same; and if besides none is declared twice, the places are those of the given names. -/
theorem dominates_order (p : Policy) :
    (∀ a a', p.resolveLevel a = .ok a' → p.Dominates a a) ∧
    (∀ a b c, p.Dominates a b → p.Dominates b c → p.Dominates a c) ∧
    ∀ a b a' b', p.resolveLevel a = .ok a' → p.resolveLevel b = .ok b' → p.Compares a b a' b' :=
  ⟨fun _ _ ha => dominates_refl ha, fun _ _ _ hab hbc => hab.trans hbc, fun _ _ _ _ ha hb => compares ha hb⟩

/-- Of two levels that are given by aliases and resolve to different ones, only one dominates the other. -/
theorem exists_dominates_order_aliased :
    Policy.build "aliased" aliasedStatements = .ok aliased ∧
      aliased.Dominates ⟨"secret", .ofList ["medical"]⟩ ⟨"public", .ofList ["c0"]⟩ ∧
      ¬ aliased.Dominates ⟨"public", .ofList ["c0"]⟩ ⟨"secret", .ofList ["medical"]⟩ := by
  have hsecret : aliased.resolveLevel ⟨"secret", .ofList ["medical"]⟩ = .ok ⟨"s1", .ofList ["c0"]⟩ := by
    decide +kernel
  have hpublic : aliased.resolveLevel ⟨"public", .ofList ["c0"]⟩ = .ok ⟨"s0", .ofList ["c0"]⟩ := by
    decide +kernel
  have hdominates : aliased.levelDominates ⟨"secret", .ofList ["medical"]⟩ ⟨"public", .ofList ["c0"]⟩ = .ok true := by
    decide +kernel
  have h := (dominates_order aliased).2.2 _ _ _ _ hsecret hpublic
  refine ⟨build_aliased, hdominates, fun hpublic => ?_⟩
  have heq := (h.eq_iff clearLevels_aliased.sensitivities).mp ⟨hdominates, hpublic⟩
  exact absurd (congrArg Level.sensitivity heq) (by decide)

/-- An alias of the second sensitivity is resolved to its name, whose place is then that of the first, as this has the
name for an alias. So two different levels dominate each other. -/
theorem not_antisymm_shadowed :
    Policy.build "shadowed" shadowedStatements = .ok shadowed ∧
      shadowed.sensitivityRank "secret" = .ok 1 ∧ shadowed.sensitivityRank "s0" = .ok 0 ∧
      shadowed.resolveLevel ⟨"secret", ∅⟩ = .ok ⟨"s1", ∅⟩ ∧ shadowed.resolveLevel ⟨"s0", ∅⟩ = .ok ⟨"s0", ∅⟩ ∧
      shadowed.levelDominates ⟨"secret", ∅⟩ ⟨"s0", ∅⟩ = .ok true ∧
      shadowed.levelDominates ⟨"s0", ∅⟩ ⟨"secret", ∅⟩ = .ok true := by
  refine ⟨build_shadowed, ?_⟩
  decide +kernel

end Policy

end PolicyAnalysis
