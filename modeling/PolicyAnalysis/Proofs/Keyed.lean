import PolicyAnalysis.Proofs.Grouping

/-!
# Tables of items under their own keys

Where the key of every item is told by the item, the values of a table tell the whole table: they are listed
in the order of their keys, and the item under a key is the first and only value that has it.
-/

namespace PolicyAnalysis

variable {κ α : Type} [Ord κ] [Std.TransOrd κ]

/-- Every item of a table stands under its own key. -/
def Keyed (key : α → κ) (table : Std.ExtTreeMap κ α) : Prop :=
  ∀ k a, table[k]? = some a → key a = k

open Std.DTreeMap.Internal in
theorem values_eq_map_toList (table : Std.ExtTreeMap κ α) : table.values = table.toList.map (·.2) := by
  obtain ⟨inner⟩ := table
  induction inner using Std.ExtDTreeMap.inductionOn with
  | _ t =>
    have hpairs : Impl.Const.toList t.inner = t.inner.toListModel.map fun e => (e.1, e.2) :=
      Impl.Const.toList_eq_toListModel_map
    have hvalues : t.inner.values = t.inner.toListModel.map (·.2) := Impl.values_eq_map_snd
    refine hvalues.trans ?_
    refine Eq.trans ?_ (congrArg (List.map (·.2)) hpairs.symm)
    rw [List.map_map]
    rfl

theorem mem_values [Std.LawfulEqOrd κ] {table : Std.ExtTreeMap κ α} {a : α} :
    a ∈ table.values ↔ ∃ k : κ, table[k]? = some a := by
  simp [values_eq_map_toList, Std.ExtTreeMap.mem_toList_iff_getElem?_eq_some]

namespace Keyed

variable [Std.LawfulEqOrd κ] {key : α → κ} {table : Std.ExtTreeMap κ α}

theorem mem_values_iff (h : Keyed key table) {a : α} : a ∈ table.values ↔ table[key a]? = some a := by
  rw [mem_values]
  constructor
  · intro ⟨k, hk⟩
    rwa [h k a hk]
  · intro ha
    exact ⟨key a, ha⟩

theorem ordered_values (h : Keyed key table) :
    table.values.Pairwise fun a b => compare (key a) (key b) = .lt := by
  rw [values_eq_map_toList, List.pairwise_map]
  refine table.ordered_keys_toList.imp_of_mem ?_
  intro e e' he he' hlt
  rw [h _ _ (Std.ExtTreeMap.mem_toList_iff_getElem?_eq_some.mp he),
    h _ _ (Std.ExtTreeMap.mem_toList_iff_getElem?_eq_some.mp he')]
  exact hlt

theorem getElem?_eq_head? (h : Keyed key table) (k : κ) :
    table[k]? = (itemsWith key table.values k).head? := by
  cases hitems : itemsWith key table.values k with
  | nil =>
    cases ha : table[k]? with
    | none => rfl
    | some a =>
      have hmem : a ∈ itemsWith key table.values k :=
        mem_itemsWith.mpr ⟨mem_values.mpr ⟨k, ha⟩, h k a ha⟩
      rw [hitems] at hmem
      cases hmem
  | cons a rest =>
    have hmem : a ∈ itemsWith key table.values k := by
      rw [hitems]
      exact List.mem_cons_self
    obtain ⟨hvalue, rfl⟩ := mem_itemsWith.mp hmem
    exact h.mem_values_iff.mp hvalue

theorem insert (h : Keyed key table) (a : α) : Keyed key (table.insert (key a) a) := by
  intro k b hb
  rw [Std.ExtTreeMap.getElem?_insert] at hb
  split at hb
  next hk =>
    cases hb
    exact Std.LawfulEqOrd.eq_of_compare hk
  next => exact h k b hb

theorem filter (h : Keyed key table) (keep : κ → Bool) : Keyed key (table.filter fun k _ => keep k) := by
  intro k a ha
  rw [Std.ExtTreeMap.getElem?_filter', Option.filter_eq_some_iff] at ha
  exact h k a ha.1

end Keyed

end PolicyAnalysis
