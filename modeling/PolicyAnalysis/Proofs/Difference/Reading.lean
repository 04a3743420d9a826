import PolicyAnalysis.Policy.Build
import PolicyAnalysis.Proofs.Checked
import PolicyAnalysis.Proofs.Difference.Between
import PolicyAnalysis.Proofs.Difference.Change

/-!
# Readings of aspects

A reading says what an aspect sees in a policy: under each key, the value of one item that is made of the items
with that key. What differs in the aspect between two policies is just what differs between what is seen,
and it is enough to get from the one to the other.
-/

namespace PolicyAnalysis

open Checked

structure Reading where
  aspect : Aspect
  lawful : Std.LawfulEqOrd aspect.Key
  /-- The items of a policy in their order, each for single types where it is about types. -/
  items : Policy → List aspect.Item
  key : aspect.Item → aspect.Key
  /-- The one item that stands for those with one key. -/
  gather : List aspect.Item → Option aspect.Item
  gauge : Gauge aspect.change?
  key_gather : ∀ {l item k}, (∀ i ∈ l, key i = k) → gather l = some item → key item = k
  tabulates : ∀ {d : Draft} {p : Policy}, d.build = .ok p →
    ∃ table, aspect.table p = .ok table ∧ ∀ k, table[k]? = gather (itemsWith key (items p) k)

namespace Reading

attribute [instance] Reading.lawful

variable (R : Reading) {l r p : Policy} {dl dr d : Draft}

/-- What is compared with another policy under a key. -/
def item? (p : Policy) (k : R.aspect.Key) : Option R.aspect.Item :=
  R.gather (itemsWith R.key (R.items p) k)

/-- The value that a policy has under a key. -/
def view (p : Policy) (k : R.aspect.Key) : Option R.gauge.Value :=
  (R.item? p k).map R.gauge.value

/-- The values on the right, made from those on the left. -/
def patch (c : Difference R.aspect.Item R.aspect.Change) (values : R.aspect.Key → Option R.gauge.Value)
    (k : R.aspect.Key) : Option R.gauge.Value :=
  if c.removed.any fun item => compare (R.key item) k == .eq then none
  else
    match c.added.find? fun item => compare (R.key item) k == .eq with
    | some item => some (R.gauge.value item)
    | none =>
      match c.modified.find? fun m => compare (R.key m.item) k == .eq with
      | some m => (values k).map (R.gauge.patch m.change)
      | none => values k

/-- A policy has an item with a value under a key. -/
def States (p : Policy) (k : R.aspect.Key) (v : R.gauge.Value) : Prop :=
  ∃ item ∈ R.items p, R.key item = k ∧ R.gauge.value item = v

/-- The first of the items of a policy under a key has a value. -/
def Leads (p : Policy) (k : R.aspect.Key) (v : R.gauge.Value) : Prop :=
  ∃ before item after, R.items p = before ++ item :: after ∧ R.key item = k ∧ R.gauge.value item = v ∧
    ∀ earlier ∈ before, R.key earlier ≠ k

/-- A difference lists what differs, each key once and in order, and tells the values on the right from
those on the left. -/
structure Exact (l r : Policy) (c : Difference R.aspect.Item R.aspect.Change) : Prop where
  mem_removed_iff : ∀ item, item ∈ c.removed ↔
    R.item? l (R.key item) = some item ∧ R.item? r (R.key item) = none
  mem_added_iff : ∀ item, item ∈ c.added ↔
    R.item? r (R.key item) = some item ∧ R.item? l (R.key item) = none
  mem_modified_iff : ∀ item, (∃ change, ⟨item, change⟩ ∈ c.modified) ↔
    R.item? l (R.key item) = some item ∧
      ∃ v, R.view r (R.key item) = some v ∧ R.gauge.value item ≠ v
  nodup_keys : (c.removed.map R.key ++ c.added.map R.key ++ c.modified.map fun m => R.key m.item).Nodup
  ordered_removed : c.removed.Pairwise fun a b => compare (R.key a) (R.key b) = .lt
  ordered_added : c.added.Pairwise fun a b => compare (R.key a) (R.key b) = .lt
  ordered_modified : c.modified.Pairwise fun a b => compare (R.key a.item) (R.key b.item) = .lt
  patch_view : R.patch c (R.view l) = R.view r

/-- A difference is the other with the sides exchanged. -/
structure Mirrored (c c' : Difference R.aspect.Item R.aspect.Change) : Prop where
  added_eq : c.added = c'.removed
  removed_eq : c.removed = c'.added
  modified : List.Forall₂ (fun m m' => R.key m.item = R.key m'.item ∧ m'.change = R.gauge.flip m.change)
    c.modified c'.modified

section Single

variable {R} {k : R.aspect.Key} {v : R.gauge.Value}

theorem Leads.states (h : R.Leads p k v) : R.States p k v := by
  obtain ⟨before, item, after, hitems, hk, hv, -⟩ := h
  exact ⟨item, by simp [hitems], hk, hv⟩

/-- Where the first of several items stands for them, its value is what is compared. -/
theorem view_eq_some_iff (hfirst : R.gather = List.head?) : R.view p k = some v ↔ R.Leads p k v := by
  simp only [view, item?, hfirst, Option.map_eq_some_iff, head?_itemsWith_eq_some_iff]
  constructor
  · rintro ⟨item, ⟨hk, before, after, hitems, hbefore⟩, hv⟩
    exact ⟨before, item, after, hitems, hk, hv, hbefore⟩
  · rintro ⟨before, item, after, hitems, hk, hv, hbefore⟩
    exact ⟨item, ⟨hk, before, after, hitems, hbefore⟩, hv⟩

theorem exists_leads_iff (hfirst : R.gather = List.head?) : (∃ v, R.Leads p k v) ↔ ∃ v, R.States p k v := by
  refine ⟨fun ⟨v, hv⟩ => ⟨v, hv.states⟩, ?_⟩
  rintro ⟨_, item, hitem, hk, rfl⟩
  have hmem : item ∈ itemsWith R.key (R.items p) k := mem_itemsWith.mpr ⟨hitem, hk⟩
  obtain ⟨first, rest, hcons⟩ := List.exists_cons_of_ne_nil (List.ne_nil_of_mem hmem)
  refine ⟨R.gauge.value first, (view_eq_some_iff hfirst).mp ?_⟩
  rw [view, item?, hfirst, hcons]
  rfl

/-- The only value of a policy under a key is one that a policy with the same view has there, too. -/
theorem states_of_view_eq (hfirst : R.gather = List.head?) (hview : R.view l = R.view r) (hv : R.States l k v)
    (honly : ∀ v', R.States l k v' → v' = v) : R.States r k v := by
  obtain ⟨v', hlead⟩ := (exists_leads_iff hfirst).mpr ⟨v, hv⟩
  cases honly v' hlead.states
  rw [← view_eq_some_iff hfirst, hview, view_eq_some_iff hfirst] at hlead
  exact hlead.states

/-- An item that is alone under its key and that its key and value determine. -/
theorem mem_items_of_view_eq (hfirst : R.gather = List.head?) (hview : R.view l = R.view r) {item : R.aspect.Item}
    (hitem : item ∈ R.items l) (halone : ∀ i ∈ R.items l, R.key i = R.key item → i = item)
    (hdetermined : ∀ i, R.key i = R.key item → R.gauge.value i = R.gauge.value item → i = item) :
    item ∈ R.items r := by
  obtain ⟨i, hi, hkey, hvalue⟩ : R.States r (R.key item) (R.gauge.value item) := by
    refine states_of_view_eq hfirst hview ⟨item, hitem, rfl, rfl⟩ ?_
    rintro _ ⟨i, hi, hkey, rfl⟩
    rw [halone i hi hkey]
  cases hdetermined i hkey hvalue
  exact hi

end Single

/-- The table of an aspect has just what is compared, under its keys. -/
theorem exists_table (h : d.build = .ok p) :
    ∃ table, R.aspect.table p = .ok table ∧ Keyed R.key table ∧ ∀ k, table[k]? = R.item? p k := by
  obtain ⟨table, htable, hget⟩ := R.tabulates h
  refine ⟨table, htable, ?_, hget⟩
  intro k item hitem
  rw [hget] at hitem
  exact R.key_gather (fun i hi => (mem_itemsWith.mp hi).2) hitem

theorem exists_difference (hl : dl.build = .ok l) (hr : dr.build = .ok r) :
    ∃ left right, R.aspect.difference l r = .ok (.between R.aspect.change? left right) ∧
      R.aspect.difference r l = .ok (.between R.aspect.change? right left) ∧
      Keyed R.key left ∧ Keyed R.key right ∧
      (∀ k, left[k]? = R.item? l k) ∧ ∀ k, right[k]? = R.item? r k := by
  obtain ⟨left, hleft, hkl, hgl⟩ := R.exists_table hl
  obtain ⟨right, hright, hkr, hgr⟩ := R.exists_table hr
  refine ⟨left, right, ?_, ?_, hkl, hkr, hgl, hgr⟩
  · rw [Aspect.difference, hleft, hright]
    rfl
  · rw [Aspect.difference, hleft, hright]
    rfl

section Tables

variable {R} {left right : Std.ExtTreeMap R.aspect.Key R.aspect.Item}

theorem map_value_eq (hl : Keyed R.key left) (hr : Keyed R.key right) {k : R.aspect.Key}
    (hremoved : ∀ item ∈ (Difference.between R.aspect.change? left right).removed, R.key item ≠ k)
    (hadded : ∀ item ∈ (Difference.between R.aspect.change? left right).added, R.key item ≠ k)
    (hmodified : ∀ m ∈ (Difference.between R.aspect.change? left right).modified, R.key m.item ≠ k) :
    (left[k]?).map R.gauge.value = (right[k]?).map R.gauge.value := by
  cases hleft : left[k]? with
  | none =>
    cases hright : right[k]? with
    | none => rfl
    | some item =>
      cases hr _ _ hright
      exact absurd rfl (hadded item ((Difference.mem_added hr).mpr ⟨hright, hleft⟩))
  | some item =>
    cases hl _ _ hleft
    cases hright : right[R.key item]? with
    | none => exact absurd rfl (hremoved item ((Difference.mem_removed hl).mpr ⟨hleft, hright⟩))
    | some item' =>
      cases hchange : R.aspect.change? item item' with
      | none => rw [Option.map_some, Option.map_some, (R.gauge.eq_none_iff item item').mp hchange]
      | some change =>
        have hmem := (Difference.mem_modified hl (m := ⟨item, change⟩)).mpr ⟨hleft, item', hright, hchange⟩
        exact absurd rfl (hmodified _ hmem)

/-- From the values of one table, a difference makes those of the other. -/
theorem patch_between (hl : Keyed R.key left) (hr : Keyed R.key right) (k : R.aspect.Key) :
    R.patch (.between R.aspect.change? left right) (fun k => (left[k]?).map R.gauge.value) k =
      (right[k]?).map R.gauge.value := by
  have hself {k' : R.aspect.Key} : (compare k' k == .eq) = true ↔ k' = k := by simp
  rw [patch]
  split
  next hremoved =>
    obtain ⟨item, hitem, hk⟩ := List.any_eq_true.mp hremoved
    cases hself.mp hk
    rw [((Difference.mem_removed hl).mp hitem).2]
    rfl
  next hremoved =>
    split
    next item hitem =>
      have hk := List.find?_some hitem
      cases hself.mp hk
      rw [((Difference.mem_added hr).mp (List.mem_of_find?_eq_some hitem)).1]
      rfl
    next hadded =>
      split
      next m hm =>
        have hk := List.find?_some hm
        cases hself.mp hk
        obtain ⟨hleft, item, hright, hchange⟩ := (Difference.mem_modified hl).mp (List.mem_of_find?_eq_some hm)
        rw [hleft, hright, Option.map_some, Option.map_some, Option.map_some,
          R.gauge.patch_value _ _ _ hchange]
      next hmodified =>
        simp only [List.any_eq_true, List.find?_eq_none, hself, not_exists, not_and] at hremoved hadded hmodified
        exact map_value_eq hl hr hremoved hadded hmodified

theorem exact_between (hl : Keyed R.key left) (hr : Keyed R.key right) (hgl : ∀ k, left[k]? = R.item? l k)
    (hgr : ∀ k, right[k]? = R.item? r k) : R.Exact l r (.between R.aspect.change? left right) where
  mem_removed_iff item := by rw [Difference.mem_removed hl, hgl, hgr]
  mem_added_iff item := by rw [Difference.mem_added hr, hgl, hgr]
  mem_modified_iff item := by
    simp only [Difference.mem_modified hl, hgl, hgr, exists_and_left, view]
    refine and_congr_right fun _ => ?_
    constructor
    · intro ⟨change, item', hright, hchange⟩
      refine ⟨R.gauge.value item', by rw [hright]; rfl, ?_⟩
      rw [Ne, ← R.gauge.eq_none_iff, hchange]
      exact Option.some_ne_none change
    · intro ⟨v, hv, hne⟩
      obtain ⟨item', hright, rfl⟩ := Option.map_eq_some_iff.mp hv
      rw [Ne, ← R.gauge.eq_none_iff] at hne
      obtain ⟨change, hchange⟩ := Option.ne_none_iff_exists'.mp hne
      exact ⟨change, item', hright, hchange⟩
  nodup_keys := Difference.nodup_keys hl hr
  ordered_removed := Difference.ordered_removed hl
  ordered_added := Difference.ordered_added hr
  ordered_modified := Difference.ordered_modified hl
  patch_view := by
    have hleft : R.view l = fun k => (left[k]?).map R.gauge.value := by
      funext k
      rw [hgl, view]
    funext k
    rw [hleft, patch_between hl hr, hgr, view]

theorem mirrored_between (hl : Keyed R.key left) (hr : Keyed R.key right) :
    R.Mirrored (.between R.aspect.change? left right) (.between R.aspect.change? right left) where
  added_eq := by rw [Difference.added_between, Difference.removed_between]
  removed_eq := by rw [Difference.added_between, Difference.removed_between]
  modified := Difference.forall₂_modified hl hr R.gauge.map_flip

end Tables

end Reading

end PolicyAnalysis
