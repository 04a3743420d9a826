import Mathlib.Data.List.Zip
import PolicyAnalysis.Proofs.Difference.Readings

/-!
# Comparisons are exact and mirror each other

Two built policies can always be compared. Aspect by aspect, the comparison lists just what differs in what
the two policies hold, which is nothing for a policy and itself, and it tells the right policy from the left.
With the sides exchanged, it is the same comparison turned round.
-/

namespace PolicyAnalysis

open Checked

variable {dl dr : Draft} {l r : Policy}

namespace Reading

variable {R : Reading} {c c' : Difference R.aspect.Item R.aspect.Change}

theorem exact_of_difference (hl : dl.build = .ok l) (hr : dr.build = .ok r)
    (hc : R.aspect.difference l r = .ok c) : R.Exact l r c := by
  obtain ⟨left, right, hbetween, -, hkl, hkr, hgl, hgr⟩ := R.exists_difference hl hr
  rw [← Except.ok.inj (hbetween.symm.trans hc)]
  exact exact_between hkl hkr hgl hgr

theorem mirrored_of_difference (hl : dl.build = .ok l) (hr : dr.build = .ok r)
    (hc : R.aspect.difference l r = .ok c) (hc' : R.aspect.difference r l = .ok c') : R.Mirrored c c' := by
  obtain ⟨left, right, hbetween, hbetween', hkl, hkr, -, -⟩ := R.exists_difference hl hr
  rw [← Except.ok.inj (hbetween.symm.trans hc), ← Except.ok.inj (hbetween'.symm.trans hc')]
  exact mirrored_between hkl hkr

/-- An aspect differs just where the two sides have different values under some key. -/
theorem Exact.isEmpty_iff (h : R.Exact l r c) : c.isEmpty ↔ R.view l = R.view r := by
  rw [Difference.isEmpty, Bool.and_eq_true, Bool.and_eq_true, List.isEmpty_iff, List.isEmpty_iff, List.isEmpty_iff]
  constructor
  · intro ⟨⟨hadded, hremoved⟩, hmodified⟩
    rw [← h.patch_view]
    funext k
    rw [patch, hremoved, hadded, hmodified]
    rfl
  · intro hview
    have hsame (k : R.aspect.Key) : (R.item? l k).map R.gauge.value = (R.item? r k).map R.gauge.value :=
      congrFun hview k
    refine ⟨⟨?_, ?_⟩, ?_⟩
    · apply List.eq_nil_iff_forall_not_mem.mpr
      intro item hitem
      obtain ⟨hright, hleft⟩ := (h.mem_added_iff item).mp hitem
      have hkey := hsame (R.key item)
      rw [hright, hleft] at hkey
      cases hkey
    · apply List.eq_nil_iff_forall_not_mem.mpr
      intro item hitem
      obtain ⟨hleft, hright⟩ := (h.mem_removed_iff item).mp hitem
      have hkey := hsame (R.key item)
      rw [hright, hleft] at hkey
      cases hkey
    · apply List.eq_nil_iff_forall_not_mem.mpr
      intro m hm
      obtain ⟨hitem, v, hv, hne⟩ := (h.mem_modified_iff m.item).mp ⟨m.change, hm⟩
      rw [← hview, view, hitem, Option.map_some, Option.some.injEq] at hv
      exact hne hv

end Reading

def PropertyChange.flip (c : PropertyChange) : PropertyChange :=
  { c with change := c.change.flip }

theorem Properties.changes_self (p : Properties) : p.changes p = [] := by
  simp [Properties.changes, Properties.texts, ValueChange.between?]

theorem Properties.changes_flip (left right : Properties) :
    right.changes left = (left.changes right).map PropertyChange.flip := by
  rw [changes, changes, List.map_filterMap, ← List.zip_swap, List.filterMap_map]
  apply List.filterMap_congr
  intro entry hentry
  have hname : entry.2.1 = entry.1.1 := by
    simp only [texts, List.zip_cons_cons, List.zip_nil_right, List.mem_cons, List.not_mem_nil, or_false] at hentry
    obtain rfl | rfl | rfl := hentry <;> rfl
  simp only [Function.comp_apply, Prod.fst_swap, Prod.snd_swap]
  rw [hname, ← ValueChange.map_flip_between?, Option.map_map, Option.map_map]
  rfl

namespace Comparison

theorem between_eq_ok {c : Comparison} :
    between l r = .ok c ↔ c.properties = l.properties.changes r.properties ∧
      List.Forall₂ (fun R found => ∃ d, R.aspect.difference l r = .ok d ∧ ⟨R.aspect, d⟩ = found)
        Reading.all c.aspects := by
  simp only [between, mapError_eq_ok, except_map_eq_ok, mapM_eq_ok, ← Reading.map_aspect_all,
    List.forall₂_map_left_iff]
  constructor
  · rintro ⟨found, hfound, rfl⟩
    exact ⟨rfl, hfound⟩
  · intro ⟨hproperties, hfound⟩
    exact ⟨c.aspects, hfound, by rw [← hproperties]⟩

theorem exists_between (hl : dl.build = .ok l) (hr : dr.build = .ok r) : ∃ c, between l r = .ok c := by
  have hfound :
      ∃ found, Aspect.all.mapM (fun a => (a.difference l r).map (AspectDifference.mk a)) = .ok found := by
    apply exists_mapM_eq_ok.mpr
    intro a ha
    rw [← Reading.map_aspect_all] at ha
    obtain ⟨R, -, rfl⟩ := List.mem_map.mp ha
    obtain ⟨left, right, hdifference, -⟩ := R.exists_difference hl hr
    rw [hdifference]
    exact ⟨_, rfl⟩
  obtain ⟨found, hfound⟩ := hfound
  rw [between, hfound]
  exact ⟨_, rfl⟩

theorem forall_mem_right {α β : Type*} {S : α → β → Prop} {P : β → Prop} {as : List α} {bs : List β}
    (h : List.Forall₂ S as bs) (hP : ∀ a b, S a b → P b) : ∀ b ∈ bs, P b := by
  induction h with
  | nil => exact nofun
  | cons hab _ ih => exact List.forall_mem_cons.mpr ⟨hP _ _ hab, ih⟩

theorem forall₂_zip_right {α β γ : Type*} {S : α → β → Prop} {T : α → γ → Prop} {as : List α} {bs : List β}
    {cs : List γ} (hb : List.Forall₂ S as bs) (hc : List.Forall₂ T as cs) :
    List.Forall₂ (fun a pair => S a pair.1 ∧ T a pair.2) as (bs.zip cs) := by
  induction hb generalizing cs with
  | nil =>
    cases hc
    exact .nil
  | cons hab _ ih =>
    obtain ⟨⟩ | ⟨hac, hc⟩ := hc
    exact .cons ⟨hab, hac⟩ (ih hc)

def wideStatements : List Statement := [
  .attribute "domain",
  .type "a_t" (.ofList ["domain"]),
  .type "b_t" (.ofList ["domain"]),
  .objectClass "file" none (.ofList ["read", "write"]),
  .rule (.access ⟨.allow, "domain", "a_t", "file", .ofList ["read"], none⟩)]

/-- Two types may read the files of one of them. -/
def wide : Policy :=
  match Policy.build "wide" wideStatements with
  | .ok p => p
  | .error _ => (Draft.ofStatements "wide" []).start

def narrowStatements : List Statement := [
  .attribute "domain",
  .type "a_t" (.ofList ["domain"]),
  .type "b_t" (.ofList ["domain"]),
  .objectClass "file" none (.ofList ["read", "write"]),
  .rule (.access ⟨.allow, "a_t", "self", "file", .ofList ["write"], none⟩),
  .rule (.access ⟨.allow, "a_t", "a_t", "file", .ofList ["read"], none⟩)]

/-- Only the one type may, and also write them. -/
def narrow : Policy :=
  match Policy.build "narrow" narrowStatements with
  | .ok p => p
  | .error _ => (Draft.ofStatements "narrow" []).start

theorem build_wide : Policy.build "wide" wideStatements = .ok wide := by rfl

theorem build_narrow : Policy.build "narrow" narrowStatements = .ok narrow := by rfl

/-- With the sides exchanged, the comparison of two built policies is turned round in every aspect and in the
properties. -/
theorem between_mirrored {name name' : String} {statements statements' : List Statement}
    (hl : Policy.build name statements = .ok l) (hr : Policy.build name' statements' = .ok r) :
    ∃ c c', between l r = .ok c ∧ between r l = .ok c' ∧
      c'.properties = c.properties.map PropertyChange.flip ∧ c.aspects.length = c'.aspects.length ∧
      List.Forall₂ (fun R found => ∃ d d', found = (⟨R.aspect, d⟩, ⟨R.aspect, d'⟩) ∧ R.Mirrored d d')
        Reading.all (c.aspects.zip c'.aspects) := by
  obtain ⟨c, hc⟩ := exists_between hl hr
  obtain ⟨c', hc'⟩ := exists_between hr hl
  obtain ⟨hproperties, hfound⟩ := between_eq_ok.mp hc
  obtain ⟨hproperties', hfound'⟩ := between_eq_ok.mp hc'
  refine ⟨c, c', hc, hc', ?_, ?_, (forall₂_zip_right hfound hfound').imp ?_⟩
  · rw [hproperties, hproperties', Properties.changes_flip]
  · rw [← hfound.length_eq, hfound'.length_eq]
  · rintro R ⟨found, found'⟩ ⟨⟨d, hd, rfl⟩, ⟨d', hd', rfl⟩⟩
    exact ⟨d, d', rfl, Reading.mirrored_of_difference hl hr hd hd'⟩

theorem exists_between_mirrored_narrow :
    Policy.build "wide" wideStatements = .ok wide ∧ Policy.build "narrow" narrowStatements = .ok narrow ∧
      ∃ c c', between wide narrow = .ok c ∧ between narrow wide = .ok c' ∧ ¬ c.isEmpty ∧
        List.Forall₂ (fun R found => ∃ d d', found = (⟨R.aspect, d⟩, ⟨R.aspect, d'⟩) ∧ R.Mirrored d d')
          Reading.all (c.aspects.zip c'.aspects) := by
  obtain ⟨c, c', hc, hc', -, -, hmirrored⟩ := between_mirrored build_wide build_narrow
  refine ⟨build_wide, build_narrow, c, c', hc, hc', ?_, hmirrored⟩
  cases hc
  decide +kernel

end Comparison

end PolicyAnalysis
