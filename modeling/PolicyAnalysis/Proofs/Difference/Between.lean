import Mathlib.Data.List.Forall2
import Mathlib.Data.List.Induction
import Mathlib.Data.List.Sort
import PolicyAnalysis.Difference.Basic
import PolicyAnalysis.Proofs.Keyed

/-!
# What a difference between two tables lists

The loop over the left takes the matches from the right, so what it lists and what it leaves can be told from the
two tables alone. The tables are of items under their own keys, so each item of a difference tells its key. A key is
listed once at most, and what is listed under it follows from what the two tables have there. With the sides
exchanged, the keys that are listed stay the same.
-/

namespace PolicyAnalysis.Difference

variable {κ ι δ : Type} [Ord κ] [Std.TransOrd κ] [Std.LawfulEqOrd κ] {key : ι → κ}
  {change? : ι → ι → Option δ} {left right : Std.ExtTreeMap κ ι}

omit [Std.TransOrd κ] in
theorem nodup_of_ordered {α : Type} {f : α → κ} {l : List α}
    (h : l.Pairwise fun a b => compare (f a) (f b) = .lt) : (l.map f).Nodup := by
  refine List.pairwise_map.mpr (h.imp ?_)
  intro a b hlt heq
  simp [heq] at hlt

/-- The state after some of the items on the left, which have different keys. -/
structure Consumed (change? : ι → ι → Option δ) (right : Std.ExtTreeMap κ ι) (seen : List (κ × ι))
    (s : Difference ι δ × Std.ExtTreeMap κ ι) : Prop where
  removed : s.1.removed = (seen.filter fun e => !right.contains e.1).map (·.2)
  modified : s.1.modified = seen.filterMap fun e => (right[e.1]?.bind (change? e.2)).map (Modified.mk e.2)
  taken : ∀ e ∈ seen, s.2[e.1]? = none
  left : ∀ k, (∀ e ∈ seen, e.1 ≠ k) → s.2[k]? = right[k]?

theorem Consumed.consume {seen : List (κ × ι)} {s : Difference ι δ × Std.ExtTreeMap κ ι}
    (h : Consumed change? right seen s) (entry : κ × ι) (new : ∀ e ∈ seen, e.1 ≠ entry.1) :
    Consumed change? right (seen ++ [entry]) (consume change? s entry) := by
  obtain ⟨d, rest⟩ := s
  obtain ⟨k, item⟩ := entry
  obtain ⟨removed, modified, taken, left⟩ := h
  have hrest : rest[k]? = right[k]? := left k new
  cases hk : right[k]? with
  | none =>
    have heq : Difference.consume change? (d, rest) (k, item) = ({ d with removed := d.removed ++ [item] }, rest) := by
      simp only [Difference.consume, hrest, hk]
    have hmissing : right.contains k = false := by
      rw [Std.ExtTreeMap.contains_eq_isSome_getElem?, hk, Option.isSome_none]
    rw [heq]
    refine ⟨?_, ?_, fun e he => ?_, fun k' hk' => ?_⟩
    · rw [List.filter_append, List.map_append, ← removed]
      simp [hmissing]
    · rw [List.filterMap_append, ← modified]
      simp [hk]
    · rcases List.mem_append.mp he with he | he
      · exact taken e he
      · rw [List.mem_singleton.mp he]
        exact hrest.trans hk
    · exact left k' fun e he => hk' e (List.mem_append_left _ he)
  | some item' =>
    have heq : Difference.consume change? (d, rest) (k, item) =
        ({ d with modified := d.modified ++ ((change? item item').map (Modified.mk item)).toList },
          rest.erase k) := by
      simp only [Difference.consume, hrest, hk]
    have hmatched : right.contains k = true := by
      rw [Std.ExtTreeMap.contains_eq_isSome_getElem?, hk, Option.isSome_some]
    rw [heq]
    refine ⟨?_, ?_, fun e he => ?_, fun k' hk' => ?_⟩
    · rw [List.filter_append, List.map_append, ← removed]
      simp [hmatched]
    · rw [List.filterMap_append, ← modified]
      cases hchange : change? item item' <;> simp [hk, hchange]
    · rw [Std.ExtTreeMap.getElem?_erase]
      rcases List.mem_append.mp he with he | he
      · rw [taken e he, ite_self]
      · rw [List.mem_singleton.mp he]
        exact if_pos Std.ReflCmp.compare_self
    · have hne : k ≠ k' := hk' (k, item) (List.mem_append_right _ List.mem_cons_self)
      rw [Std.ExtTreeMap.getElem?_erase, if_neg fun heq => hne (Std.LawfulEqOrd.eq_of_compare heq)]
      exact left k' fun e he => hk' e (List.mem_append_left _ he)

theorem consumed_foldl (change? : ι → ι → Option δ) (right : Std.ExtTreeMap κ ι) {entries : List (κ × ι)}
    (distinct : (entries.map (·.1)).Nodup) :
    Consumed change? right entries (entries.foldl (consume change?) (⟨[], [], []⟩, right)) := by
  induction entries using List.reverseRecOn with
  | nil => exact ⟨rfl, rfl, nofun, fun _ _ => rfl⟩
  | append_singleton seen entry ih =>
    rw [List.map_append, List.nodup_append] at distinct
    rw [List.foldl_concat]
    refine (ih distinct.1).consume entry fun e he heq => ?_
    exact distinct.2.2 e.1 (List.mem_map_of_mem he) entry.1 List.mem_cons_self heq

theorem consumed_toList (change? : ι → ι → Option δ) (left right : Std.ExtTreeMap κ ι) :
    Consumed change? right left.toList (left.toList.foldl (consume change?) (⟨[], [], []⟩, right)) :=
  consumed_foldl change? right (nodup_of_ordered left.ordered_keys_toList)

theorem removed_between (change? : ι → ι → Option δ) (left right : Std.ExtTreeMap κ ι) :
    (between change? left right).removed = (left.filter fun k _ => !right.contains k).values := by
  rw [values_eq_map_toList, Std.ExtTreeMap.toList_filter]
  exact (consumed_toList change? left right).removed

theorem modified_between (change? : ι → ι → Option δ) (left right : Std.ExtTreeMap κ ι) :
    (between change? left right).modified = left.toList.filterMap fun e =>
      (right[e.1]?.bind (change? e.2)).map (Modified.mk e.2) :=
  (consumed_toList change? left right).modified

/-- What the loop leaves on the right has no match on the left. -/
theorem added_between (change? : ι → ι → Option δ) (left right : Std.ExtTreeMap κ ι) :
    (between change? left right).added = (right.filter fun k _ => !left.contains k).values := by
  have h := consumed_toList change? left right
  refine congrArg Std.ExtTreeMap.values (Std.ExtTreeMap.ext_getElem? fun k => ?_)
  rw [Std.ExtTreeMap.getElem?_filter']
  cases hk : left[k]? with
  | none =>
    have hmissing : left.contains k = false := by
      rw [Std.ExtTreeMap.contains_eq_isSome_getElem?, hk, Option.isSome_none]
    rw [h.left k, hmissing]
    · cases right[k]? <;> rfl
    · rintro e he rfl
      cases hk.symm.trans (Std.ExtTreeMap.mem_toList_iff_getElem?_eq_some.mp he)
  | some item =>
    have hmatched : left.contains k = true := by
      rw [Std.ExtTreeMap.contains_eq_isSome_getElem?, hk, Option.isSome_some]
    rw [h.taken (k, item) (Std.ExtTreeMap.mem_toList_iff_getElem?_eq_some.mpr hk), hmatched]
    cases right[k]? <;> rfl

theorem mem_values_filter (h : Keyed key left) {item : ι} :
    item ∈ (left.filter fun k _ => !right.contains k).values ↔
      left[key item]? = some item ∧ right[key item]? = none := by
  rw [(h.filter _).mem_values_iff, Std.ExtTreeMap.getElem?_filter', Option.filter_eq_some_iff,
    Bool.not_eq_true', Std.ExtTreeMap.contains_eq_isSome_getElem?, Option.isSome_eq_false_iff,
    Option.isNone_iff_eq_none]

theorem mem_removed (h : Keyed key left) {item : ι} :
    item ∈ (between change? left right).removed ↔
      left[key item]? = some item ∧ right[key item]? = none := by
  rw [removed_between]
  exact mem_values_filter h

theorem mem_added (h : Keyed key right) {item : ι} :
    item ∈ (between change? left right).added ↔
      right[key item]? = some item ∧ left[key item]? = none := by
  rw [added_between]
  exact mem_values_filter h

theorem mem_modified (h : Keyed key left) {m : Modified ι δ} :
    m ∈ (between change? left right).modified ↔ left[key m.item]? = some m.item ∧
      ∃ item, right[key m.item]? = some item ∧ change? m.item item = some m.change := by
  rw [modified_between, List.mem_filterMap]
  constructor
  · intro ⟨⟨k, item⟩, hmem, hm⟩
    have hleft := Std.ExtTreeMap.mem_toList_iff_getElem?_eq_some.mp hmem
    obtain ⟨change, hbind, rfl⟩ := Option.map_eq_some_iff.mp hm
    obtain ⟨item', hright, hchange⟩ := Option.bind_eq_some_iff.mp hbind
    cases h k item hleft
    exact ⟨hleft, item', hright, hchange⟩
  · intro ⟨hleft, item, hright, hchange⟩
    refine ⟨(key m.item, m.item), Std.ExtTreeMap.mem_toList_iff_getElem?_eq_some.mpr hleft, ?_⟩
    exact Option.map_eq_some_iff.mpr ⟨m.change, Option.bind_eq_some_iff.mpr ⟨item, hright, hchange⟩, rfl⟩

theorem ordered_removed (h : Keyed key left) :
    (between change? left right).removed.Pairwise fun a b => compare (key a) (key b) = .lt := by
  rw [removed_between]
  exact (h.filter _).ordered_values

theorem ordered_added (h : Keyed key right) :
    (between change? left right).added.Pairwise fun a b => compare (key a) (key b) = .lt := by
  rw [added_between]
  exact (h.filter _).ordered_values

theorem ordered_modified (h : Keyed key left) :
    (between change? left right).modified.Pairwise fun a b => compare (key a.item) (key b.item) = .lt := by
  rw [modified_between, List.pairwise_filterMap]
  refine left.ordered_keys_toList.imp_of_mem ?_
  intro e e' he he' hlt m hm m' hm'
  obtain ⟨_, -, rfl⟩ := Option.map_eq_some_iff.mp hm
  obtain ⟨_, -, rfl⟩ := Option.map_eq_some_iff.mp hm'
  rw [h _ _ (Std.ExtTreeMap.mem_toList_iff_getElem?_eq_some.mp he),
    h _ _ (Std.ExtTreeMap.mem_toList_iff_getElem?_eq_some.mp he')]
  exact hlt

theorem nodup_keys (hl : Keyed key left) (hr : Keyed key right) :
    ((between change? left right).removed.map key ++ (between change? left right).added.map key ++
      (between change? left right).modified.map fun m => key m.item).Nodup := by
  rw [List.nodup_append, List.nodup_append]
  refine ⟨⟨nodup_of_ordered (ordered_removed hl), nodup_of_ordered (ordered_added hr), ?_⟩,
    nodup_of_ordered (ordered_modified hl), ?_⟩
  · intro k hk k' hk' heq
    obtain ⟨a, ha, rfl⟩ := List.mem_map.mp hk
    obtain ⟨b, hb, rfl⟩ := List.mem_map.mp hk'
    have hleft := ((mem_removed hl).mp ha).1
    rw [heq, ((mem_added hr).mp hb).2] at hleft
    cases hleft
  · intro k hk k' hk' heq
    obtain ⟨m, hm, rfl⟩ := List.mem_map.mp hk'
    obtain ⟨hleft, item, hright, -⟩ := (mem_modified hl).mp hm
    rcases List.mem_append.mp hk with hk | hk
    · obtain ⟨a, ha, rfl⟩ := List.mem_map.mp hk
      have hnone := ((mem_removed hl).mp ha).2
      rw [heq, hright] at hnone
      cases hnone
    · obtain ⟨a, ha, rfl⟩ := List.mem_map.mp hk
      have hnone := ((mem_added hr).mp ha).2
      rw [heq, hleft] at hnone
      cases hnone

theorem map_eq_of_ordered {α β : Type} {f : α → κ} {g : β → κ} {l : List α} {l' : List β}
    (hl : l.Pairwise fun a b => compare (f a) (f b) = .lt)
    (hl' : l'.Pairwise fun a b => compare (g a) (g b) = .lt)
    (h : ∀ k, (∃ a ∈ l, f a = k) ↔ ∃ b ∈ l', g b = k) : l.map f = l'.map g := by
  have hirrefl : Std.Irrefl fun a b : κ => compare a b = .lt := ⟨fun a ha => by simp at ha⟩
  have hasymm : Std.Asymm fun a b : κ => compare a b = .lt :=
    ⟨fun a b hab hba => by rw [Std.OrientedCmp.gt_of_lt hba] at hab; cases hab⟩
  have hkeys : (l.map f).Pairwise fun a b => compare a b = .lt := List.pairwise_map.mpr hl
  have hkeys' : (l'.map g).Pairwise fun a b => compare a b = .lt := List.pairwise_map.mpr hl'
  refine hkeys.eq_of_mem_iff hkeys' ?_
  intro k
  rw [List.mem_map, List.mem_map]
  exact h k

/-- A change that is listed is listed turned round with the sides exchanged. -/
theorem exists_flipped {flip : δ → δ} (hl : Keyed key left) (hr : Keyed key right)
    (hflip : ∀ a b, (change? a b).map flip = change? b a) {m : Modified ι δ}
    (hm : m ∈ (between change? left right).modified) :
    ∃ m' ∈ (between change? right left).modified, key m'.item = key m.item := by
  obtain ⟨hleft, item, hright, hchange⟩ := (mem_modified hl).mp hm
  have hkey : key item = key m.item := hr _ _ hright
  refine ⟨⟨item, flip m.change⟩, (mem_modified hr).mpr ⟨?_, m.item, ?_, ?_⟩, hkey⟩
  · rw [hkey]
    exact hright
  · rw [hkey]
    exact hleft
  · rw [← hflip, hchange]
    rfl

theorem forall₂_modified {flip : δ → δ} (hl : Keyed key left) (hr : Keyed key right)
    (hflip : ∀ a b, (change? a b).map flip = change? b a) :
    List.Forall₂ (fun m m' => key m.item = key m'.item ∧ m'.change = flip m.change)
      (between change? left right).modified (between change? right left).modified := by
  have hkeys : (between change? left right).modified.map (fun m => key m.item) =
      (between change? right left).modified.map fun m => key m.item := by
    refine map_eq_of_ordered (ordered_modified hl) (ordered_modified hr) ?_
    intro k
    constructor
    · rintro ⟨m, hm, rfl⟩
      exact exists_flipped hl hr hflip hm
    · rintro ⟨m, hm, rfl⟩
      exact exists_flipped hr hl hflip hm
  rw [← List.forall₂_eq_eq_eq, List.forall₂_map_left_iff, List.forall₂_map_right_iff] at hkeys
  obtain ⟨hlength, hzip⟩ := List.forall₂_iff_zip.mp hkeys
  refine List.forall₂_iff_zip.mpr ⟨hlength, ?_⟩
  intro m m' hmem
  have hkey : key m.item = key m'.item := hzip hmem
  obtain ⟨hm, hm'⟩ := List.of_mem_zip hmem
  obtain ⟨hleft, item, hright, hchange⟩ := (mem_modified hl).mp hm
  obtain ⟨hright', item', hleft', hchange'⟩ := (mem_modified hr).mp hm'
  -- Both name the items that the two tables have under the key.
  rw [← hkey, hright, Option.some.injEq] at hright'
  rw [← hkey, hleft, Option.some.injEq] at hleft'
  rw [← hright', ← hleft', ← hflip, hchange] at hchange'
  exact ⟨hkey, (Option.some.inj hchange').symm⟩

end PolicyAnalysis.Difference
