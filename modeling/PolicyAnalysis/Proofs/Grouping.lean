import PolicyAnalysis.Grouping
import PolicyAnalysis.Proofs.Checked

/-!
# What a table made of items holds

A table of items by key lists under each key the items that were given with it, and has no other keys. A
table of one item for each key has what is made of those, or the first of them.
-/

namespace PolicyAnalysis

variable {κ α : Type} [Ord κ] [Std.TransOrd κ]

/-- Under each key a table lists just the items that are related to it, and each key has one. -/
structure Lists (table : Std.ExtTreeMap κ (List α)) (related : κ → α → Prop) : Prop where
  mem_getD_iff : ∀ k a, a ∈ table.getD k [] ↔ related k a
  mem_iff : ∀ k, k ∈ table ↔ ∃ a, related k a

namespace Lists

variable {table : Std.ExtTreeMap κ (List α)} {related related' : κ → α → Prop}

theorem congr (h : Lists table related) (hrelated : ∀ k a, related k a ↔ related' k a) :
    Lists table related' where
  mem_getD_iff k a := (h.mem_getD_iff k a).trans (hrelated k a)
  mem_iff k := (h.mem_iff k).trans (exists_congr (hrelated k))

theorem getD_ne_nil_iff (h : Lists table related) (k : κ) : table.getD k [] ≠ [] ↔ ∃ a, related k a := by
  constructor
  · intro hne
    obtain ⟨a, ha⟩ := List.exists_mem_of_ne_nil _ hne
    exact ⟨a, (h.mem_getD_iff k a).mp ha⟩
  · intro ⟨a, ha⟩
    exact List.ne_nil_of_mem ((h.mem_getD_iff k a).mpr ha)

theorem mem_iff_getD_ne_nil (h : Lists table related) (k : κ) : k ∈ table ↔ table.getD k [] ≠ [] := by
  rw [h.mem_iff, h.getD_ne_nil_iff]

end Lists

def itemsUnder (l : List (κ × α)) (k : κ) : List α :=
  (l.filter fun e => compare e.1 k == .eq).map (·.2)

omit [Std.TransOrd κ] in
theorem itemsUnder_cons (e : κ × α) (l : List (κ × α)) (k : κ) :
    itemsUnder (e :: l) k = if compare e.1 k = .eq then e.2 :: itemsUnder l k else itemsUnder l k := by
  by_cases h : compare e.1 k = .eq
  · simp [itemsUnder, h]
  · simp [itemsUnder, h]

omit [Std.TransOrd κ] in
theorem mem_itemsUnder [Std.LawfulEqOrd κ] (l : List (κ × α)) (k : κ) (a : α) :
    a ∈ itemsUnder l k ↔ (k, a) ∈ l := by
  simp [itemsUnder]

theorem getElem?_groupByKey (l : List (κ × α)) (k : κ) :
    (groupByKey l)[k]? = if itemsUnder l k = [] then none else some (itemsUnder l k) := by
  induction l with
  | nil => simp [groupByKey, itemsUnder]
  | cons e l ih =>
    have hstep : groupByKey (e :: l) =
        (groupByKey l).alter e.1 fun items => some (e.2 :: items.getD []) := rfl
    rw [hstep, Std.ExtTreeMap.getElem?_alter, itemsUnder_cons]
    by_cases h : compare e.1 k = .eq
    · rw [if_pos h, if_pos h, Std.ExtTreeMap.getElem?_congr h, ih]
      by_cases hnil : itemsUnder l k = []
      · simp [hnil]
      · simp [hnil]
    · rw [if_neg h, if_neg h, ih]

theorem lists_groupByKey [Std.LawfulEqOrd κ] (l : List (κ × α)) :
    Lists (groupByKey l) fun k a => (k, a) ∈ l where
  mem_getD_iff k a := by rw [getD_groupByKey, ← itemsUnder, mem_itemsUnder]
  mem_iff k := by
    rw [Std.ExtTreeMap.mem_iff_isSome_getElem?, getElem?_groupByKey]
    by_cases hnil : itemsUnder l k = []
    · simp [← mem_itemsUnder, hnil]
    · simpa [← mem_itemsUnder, hnil] using List.exists_mem_of_ne_nil _ hnil

theorem pairwise_getD_groupByKey [Std.LawfulEqOrd κ] {R : α → α → Prop} {l : List (κ × α)}
    (h : l.Pairwise fun e e' => e.1 = e'.1 → R e.2 e'.2) (k : κ) : ((groupByKey l).getD k []).Pairwise R := by
  rw [getD_groupByKey, List.pairwise_map, List.pairwise_filter]
  refine h.imp ?_
  intro e e' hR he he'
  have he : e.1 = k := Std.LawfulEqOrd.eq_of_compare (beq_iff_eq.mp he)
  have he' : e'.1 = k := Std.LawfulEqOrd.eq_of_compare (beq_iff_eq.mp he')
  exact hR (he.trans he'.symm)

theorem getElem?_ofList_eq_some_iff [Std.LawfulEqOrd κ] [DecidableEq κ] {l : List (κ × α)}
    (hkeys : (l.map Prod.fst).Nodup) {k : κ} {a : α} : (Std.ExtTreeMap.ofList l)[k]? = some a ↔ (k, a) ∈ l := by
  have hdistinct : l.Pairwise fun e e' => ¬ compare e.1 e'.1 = .eq := by
    refine (List.pairwise_map.mp hkeys).imp fun hne heq => hne ?_
    exact Std.LawfulEqOrd.eq_of_compare heq
  have hget {a : α} (hmem : (k, a) ∈ l) : (Std.ExtTreeMap.ofList l)[k]? = some a :=
    Std.ExtTreeMap.getElem?_ofList_of_mem Std.ReflCmp.compare_self hdistinct hmem
  refine ⟨?_, hget⟩
  intro hk
  by_cases hmem : k ∈ l.map Prod.fst
  · obtain ⟨⟨k', a'⟩, hentry, rfl⟩ := List.mem_map.mp hmem
    cases hk.symm.trans (hget hentry)
    exact hentry
  · rw [Std.ExtTreeMap.getElem?_ofList_of_contains_eq_false] at hk
    · cases hk
    · rwa [← Bool.not_eq_true, List.contains_iff_mem]

/-- What each of some sources gives with its keys can be grouped if every source gives something. -/
theorem exists_groupByKey_mapM [Std.LawfulEqOrd κ] {ε σ : Type} {l : List σ}
    {f : σ → Except ε (List (κ × α))} (htotal : ∀ x ∈ l, ∃ entries, f x = .ok entries) :
    ∃ table, (do return groupByKey (← l.mapM f).flatten) = (.ok table : Except ε _) ∧
      Lists table fun k a => ∃ x ∈ l, ∃ entries, f x = .ok entries ∧ (k, a) ∈ entries := by
  obtain ⟨rows, hrows⟩ := Checked.exists_mapM_eq_ok.mpr htotal
  refine ⟨groupByKey rows.flatten, ?_, ?_⟩
  · rw [hrows]
    rfl
  · exact (lists_groupByKey _).congr fun k a => Checked.mem_flatten_of_mapM hrows

theorem getElem?_mergeByKey [Std.LawfulEqOrd κ] (merge : α → α → α) (l : List (κ × α)) (k : κ) :
    (mergeByKey merge l)[k]? =
      match itemsUnder l k with
      | [] => none
      | a :: rest => some (rest.foldl merge a) := by
  rw [mergeByKey, Std.ExtTreeMap.getElem?_filterMap', getElem?_groupByKey]
  cases itemsUnder l k <;> simp

theorem getElem?_firstByKey [Std.LawfulEqOrd κ] (l : List (κ × α)) (k : κ) :
    (firstByKey l)[k]? = (itemsUnder l k).head? := by
  have hfirst (a : α) (rest : List α) : rest.foldl (fun first _ => first) a = a := by
    induction rest with
    | nil => rfl
    | cons _ rest ih => exact ih
  rw [firstByKey, getElem?_mergeByKey]
  cases itemsUnder l k with
  | nil => rfl
  | cons a rest => simp only [hfirst, List.head?_cons]

def itemsWith (key : α → κ) (l : List α) (k : κ) : List α :=
  l.filter fun a => compare (key a) k == .eq

omit [Std.TransOrd κ] in
theorem itemsUnder_map (key : α → κ) (l : List α) (k : κ) :
    itemsUnder (l.map fun a => (key a, a)) k = itemsWith key l k := by
  rw [itemsUnder, List.filter_map, List.map_map]
  exact List.map_id _

omit [Std.TransOrd κ] in
theorem mem_itemsWith [Std.LawfulEqOrd κ] {key : α → κ} {l : List α} {k : κ} {a : α} :
    a ∈ itemsWith key l k ↔ a ∈ l ∧ key a = k := by
  simp [itemsWith]

omit [Std.TransOrd κ] in
theorem head?_itemsWith_eq_some_iff [Std.LawfulEqOrd κ] {key : α → κ} {l : List α} {k : κ} {a : α} :
    (itemsWith key l k).head? = some a ↔
      key a = k ∧ ∃ before after, l = before ++ a :: after ∧ ∀ b ∈ before, key b ≠ k := by
  rw [itemsWith, List.head?_filter, List.find?_eq_some_iff_append]
  simp

theorem getElem?_tableBy [Std.LawfulEqOrd κ] (key : α → κ) (l : List α) (k : κ) :
    (tableBy key l)[k]? = (itemsWith key l k).head? := by
  rw [tableBy, getElem?_firstByKey, itemsUnder_map]

end PolicyAnalysis
