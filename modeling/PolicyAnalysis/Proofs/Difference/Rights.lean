import PolicyAnalysis.Proofs.Difference.Comparison
import PolicyAnalysis.Proofs.Policy.Names

/-!
# Rights

What the access rules and the extended rules of a policy give, key by key. The tables that are compared hold
just that: a key that some rule covers, with the permissions or numbers of all rules that cover it. So nothing
differs between two policies in such an aspect if and only if they give the same rights.
-/

namespace PolicyAnalysis

variable {d dl dr : Draft} {p q l r : Policy}

/-- What rules of a kind give under a key: a permission or number, or at least that the key is covered. -/
inductive Right where
  | access (kind : AccessKind) (key : RuleKey) (perm : Option String)
  | extended (kind : ExtendedKind) (key : RuleKey) (number : Option UInt16)

def AccessRule.single (rule : AccessRule) (pair : String × String) : AccessRule :=
  { rule with source := pair.1, target := pair.2 }

def ExtendedRule.single (rule : ExtendedRule) (pair : String × String) : ExtendedRule :=
  { rule with source := pair.1, target := pair.2 }

/-- A rule gives a right: it is of its kind, it covers its key with some pair of types that its source and target
stand for, and it has its permission or number. -/
def Rule.Gives (p : Policy) : Rule → Right → Prop
  | .access rule, .access kind key perm =>
    rule.kind = kind ∧ (∃ pair, p.Names rule.source rule.target pair ∧ (rule.single pair).key = key) ∧
      ∀ x, perm = some x → x ∈ rule.perms
  | .extended rule, .extended kind key number =>
    rule.kind = kind ∧ (∃ pair, p.Names rule.source rule.target pair ∧ (rule.single pair).key = key) ∧
      ∀ x, number = some x → x ∈ rule.numbers
  | _, _ => False

def Policy.Gives (p : Policy) (right : Right) : Prop :=
  ∃ rule ∈ p.rules, rule.Gives p right

theorem Policy.gives_access_iff {kind : AccessKind} {key : RuleKey} {perm : Option String} :
    p.Gives (.access kind key perm) ↔ ∃ rule ∈ p.accessRules, rule.kind = kind ∧
      (∃ pair, p.Names rule.source rule.target pair ∧ (rule.single pair).key = key) ∧
        ∀ x, perm = some x → x ∈ rule.perms := by
  constructor
  · intro ⟨rule, hrule, hgives⟩
    cases rule with
    | access rule => exact ⟨rule, mem_accessRules.mpr hrule, hgives⟩
    | _ => cases hgives
  · intro ⟨rule, hrule, hgives⟩
    exact ⟨.access rule, mem_accessRules.mp hrule, hgives⟩

theorem Policy.gives_extended_iff {kind : ExtendedKind} {key : RuleKey} {number : Option UInt16} :
    p.Gives (.extended kind key number) ↔ ∃ rule ∈ p.extendedRules, rule.kind = kind ∧
      (∃ pair, p.Names rule.source rule.target pair ∧ (rule.single pair).key = key) ∧
        ∀ x, number = some x → x ∈ rule.numbers := by
  constructor
  · intro ⟨rule, hrule, hgives⟩
    cases rule with
    | extended rule => exact ⟨rule, mem_extendedRules.mpr hrule, hgives⟩
    | _ => cases hgives
  · intro ⟨rule, hrule, hgives⟩
    exact ⟨.extended rule, mem_extendedRules.mp hrule, hgives⟩

section Sets

variable {α : Type} [Ord α] [Std.TransOrd α]

theorem mem_unionAll {sets : List (Std.ExtTreeSet α)} {x : α} : x ∈ unionAll sets ↔ ∃ s ∈ sets, x ∈ s := by
  induction sets using List.reverseRecOn with
  | nil => simp [unionAll]
  | append_singleton sets s ih =>
    have hlast : unionAll (sets ++ [s]) = unionAll sets ∪ s := by simp [unionAll]
    rw [hlast, Std.ExtTreeSet.mem_union_iff, ih]
    simp only [List.mem_append, List.mem_singleton]
    constructor
    · rintro (⟨s', hs', hx⟩ | hx)
      · exact ⟨s', Or.inl hs', hx⟩
      · exact ⟨s, Or.inr rfl, hx⟩
    · rintro ⟨s', hs' | rfl, hx⟩
      · exact Or.inl ⟨s', hs', hx⟩
      · exact Or.inr hx

def Has (set? : Option (Std.ExtTreeSet α)) (x : Option α) : Prop :=
  ∃ s, set? = some s ∧ ∀ y, x = some y → y ∈ s

theorem has_none_iff {set? : Option (Std.ExtTreeSet α)} : Has set? none ↔ set?.isSome := by
  rw [Option.isSome_iff_exists]
  simp [Has]

theorem has_some_iff {s : Std.ExtTreeSet α} {x : α} : Has (some s) (some x) ↔ x ∈ s := by
  simp [Has]

theorem eq_iff_has [Std.LawfulEqOrd α] {set? set?' : Option (Std.ExtTreeSet α)} :
    set? = set?' ↔ ∀ x, Has set? x ↔ Has set?' x := by
  constructor
  · rintro rfl x
    rfl
  · intro h
    cases set? with
    | none =>
      cases set?' with
      | none => rfl
      | some s' =>
        have hnone := (h none).mpr (has_none_iff.mpr rfl)
        exact absurd (has_none_iff.mp hnone) (by simp)
    | some s =>
      cases set?' with
      | none =>
        have hnone := (h none).mp (has_none_iff.mpr rfl)
        exact absurd (has_none_iff.mp hnone) (by simp)
      | some s' =>
        congr 1
        ext x
        rw [← has_some_iff, h, has_some_iff]

theorem has_map_unionAll_iff {ι : Type} {items : List ι} {get : ι → Std.ExtTreeSet α} {x : Option α} :
    Has (items.head?.map fun _ => unionAll (items.map get)) x ↔ ∃ i ∈ items, ∀ y, x = some y → y ∈ get i := by
  cases items with
  | nil => simp [Has]
  | cons i items =>
    rw [List.head?_cons, Option.map_some]
    cases x with
    | none =>
      rw [has_none_iff]
      simp
    | some x =>
      rw [has_some_iff, mem_unionAll]
      simp

end Sets

theorem mem_pairNames {source target : String} {pair : String × String} :
    pair ∈ p.pairNames source target ↔ p.Names source target pair := by
  rw [Policy.pairNames, Policy.namedPairs]
  cases hpairs : p.expandPairs source target with
  | error e =>
    have hnot : ¬ p.Names source target pair := by
      intro hnames
      obtain ⟨s, t, ⟨pairs, h, -⟩, -⟩ := hnames
      rw [hpairs] at h
      cases h
    simp [bind, Except.bind, Except.toOption, hnot]
  | ok pairs =>
    have hcovers := Policy.covers_iff hpairs
    simp [bind, Except.bind, pure, Except.pure, Except.toOption, Policy.Names, hcovers]

theorem exists_mem_itemsWith_iff {ρ κ : Type} [Ord κ] [Std.LawfulEqOrd κ] (p : Policy) (rules : List ρ)
    (ends : ρ → String × String) (single : ρ → String × String → ρ) (key : ρ → κ) (k : κ) {P : ρ → Prop}
    (hP : ∀ rule pair, P (single rule pair) ↔ P rule) :
    (∃ item ∈ itemsWith key
        (rules.flatMap fun rule => (p.pairNames (ends rule).1 (ends rule).2).map (single rule)) k, P item) ↔
      ∃ rule ∈ rules,
        (∃ pair, p.Names (ends rule).1 (ends rule).2 pair ∧ key (single rule pair) = k) ∧ P rule := by
  simp only [mem_itemsWith, List.mem_flatMap, List.mem_map, mem_pairNames]
  constructor
  · rintro ⟨_, ⟨⟨rule, hrule, pair, hpair, rfl⟩, hkey⟩, hitem⟩
    exact ⟨rule, hrule, ⟨pair, hpair, hkey⟩, (hP rule pair).mp hitem⟩
  · intro ⟨rule, hrule, ⟨pair, hpair, hkey⟩, hitem⟩
    exact ⟨single rule pair, ⟨⟨rule, hrule, pair, hpair, rfl⟩, hkey⟩, (hP rule pair).mpr hitem⟩

/-- The rights under a key are those that the comparison sees there. -/
theorem has_view_access_iff (name : String) (kind : AccessKind) (k : RuleKey) (perm : Option String) :
    Has ((Reading.access name kind).view p k) perm ↔ p.Gives (.access kind k perm) := by
  have hview : (Reading.access name kind).view p k =
      ((itemsWith AccessRule.key (p.singleAccessRules kind) k).head?.map fun _ =>
        unionAll ((itemsWith AccessRule.key (p.singleAccessRules kind) k).map AccessRule.perms)) :=
    Option.map_map _ _ _
  have hitems := exists_mem_itemsWith_iff p (p.accessRules.filter (·.kind = kind))
    (fun rule => (rule.source, rule.target)) AccessRule.single AccessRule.key k
    (P := fun rule => ∀ x, perm = some x → x ∈ rule.perms) fun _ _ => Iff.rfl
  rw [hview, has_map_unionAll_iff, Policy.gives_access_iff]
  refine hitems.trans ?_
  simp only [List.mem_filter, decide_eq_true_iff, and_assoc]

theorem has_view_extended_iff (name : String) (kind : ExtendedKind) (k : RuleKey) (number : Option UInt16) :
    Has ((Reading.extended name kind).view p k) number ↔ p.Gives (.extended kind k number) := by
  have hview : (Reading.extended name kind).view p k =
      ((itemsWith ExtendedRule.key (p.singleExtendedRules kind) k).head?.map fun _ =>
        unionAll ((itemsWith ExtendedRule.key (p.singleExtendedRules kind) k).map ExtendedRule.numbers)) :=
    Option.map_map _ _ _
  have hitems := exists_mem_itemsWith_iff p (p.extendedRules.filter (·.kind = kind))
    (fun rule => (rule.source, rule.target)) ExtendedRule.single ExtendedRule.key k
    (P := fun rule => ∀ x, number = some x → x ∈ rule.numbers) fun _ _ => Iff.rfl
  rw [hview, has_map_unionAll_iff, Policy.gives_extended_iff]
  refine hitems.trans ?_
  simp only [List.mem_filter, decide_eq_true_iff, and_assoc]

/-- A table of rules holds just the keys that are covered, each with what the rules that cover it give. -/
structure Holds {ρ α : Type} [Ord α] [Std.TransOrd α] (table : Std.ExtTreeMap RuleKey ρ)
    (get : ρ → Std.ExtTreeSet α) (gives : RuleKey → Option α → Prop) : Prop where
  mem_iff : ∀ k, k ∈ table ↔ gives k none
  mem_get_iff : ∀ k rule, table[k]? = some rule → ∀ x, x ∈ get rule ↔ gives k (some x)

theorem holds_of_has {ρ α : Type} [Ord α] [Std.TransOrd α] {table : Std.ExtTreeMap RuleKey ρ}
    {get : ρ → Std.ExtTreeSet α} {gives : RuleKey → Option α → Prop}
    (h : ∀ k x, Has ((table[k]?).map get) x ↔ gives k x) : Holds table get gives where
  mem_iff k := by
    rw [← h, has_none_iff, Option.isSome_map, Std.ExtTreeMap.mem_iff_isSome_getElem?]
  mem_get_iff k rule hk x := by
    rw [← h, hk, Option.map_some, has_some_iff]

theorem exists_accessTable (h : d.build = .ok p) (kind : AccessKind) :
    ∃ table, p.accessTable kind = .ok table ∧
      Holds table AccessRule.perms fun k perm => p.Gives (.access kind k perm) := by
  obtain ⟨table, htable, -, hget⟩ := (Reading.access "" kind).exists_table h
  refine ⟨table, htable, holds_of_has ?_⟩
  intro k perm
  rw [← has_view_access_iff ""]
  exact iff_of_eq (congrArg (fun rule : Option AccessRule => Has (rule.map AccessRule.perms) perm) (hget k))

theorem exists_extendedTable (h : d.build = .ok p) (kind : ExtendedKind) :
    ∃ table, p.extendedTable kind = .ok table ∧
      Holds table ExtendedRule.numbers fun k number => p.Gives (.extended kind k number) := by
  obtain ⟨table, htable, -, hget⟩ := (Reading.extended "" kind).exists_table h
  refine ⟨table, htable, holds_of_has ?_⟩
  intro k number
  rw [← has_view_extended_iff ""]
  exact iff_of_eq (congrArg (fun rule : Option ExtendedRule => Has (rule.map ExtendedRule.numbers) number) (hget k))

namespace Reading

theorem exists_isEmpty_iff (R : Reading) (hl : dl.build = .ok l) (hr : dr.build = .ok r) :
    ∃ c, R.aspect.difference l r = .ok c ∧ (c.isEmpty ↔ R.view l = R.view r) := by
  obtain ⟨left, right, hc, -⟩ := R.exists_difference hl hr
  exact ⟨_, hc, (exact_of_difference hl hr hc).isEmpty_iff⟩

theorem view_access_eq_iff (name : String) (kind : AccessKind) (k : RuleKey) :
    (access name kind).view l k = (access name kind).view r k ↔
      ∀ perm, l.Gives (.access kind k perm) ↔ r.Gives (.access kind k perm) := by
  simp only [← has_view_access_iff name]
  exact eq_iff_has

theorem view_eq_iff_access (name : String) (kind : AccessKind) :
    (access name kind).view l = (access name kind).view r ↔
      ∀ k perm, l.Gives (.access kind k perm) ↔ r.Gives (.access kind k perm) := by
  rw [funext_iff]
  exact forall_congr' fun k => view_access_eq_iff name kind k

theorem view_eq_iff_extended (name : String) (kind : ExtendedKind) :
    (extended name kind).view l = (extended name kind).view r ↔
      ∀ k number, l.Gives (.extended kind k number) ↔ r.Gives (.extended kind k number) := by
  simp only [← has_view_extended_iff name]
  rw [funext_iff]
  exact forall_congr' fun _ => eq_iff_has

end Reading

end PolicyAnalysis
