import PolicyAnalysis.Proofs.Difference.Rights
import PolicyAnalysis.Proofs.Policy.Replacing
import PolicyAnalysis.Proofs.Policy.Synonyms

/-!
# Rules that change their branch

An access rule for one pair of types is moved from one branch of its block to the other. What is compared is not
the rule but what all rules under a key give together. So an entry is removed under the old key and one is added
under the new key if no other rule is under that key; where there is one, all that can change is the permissions.
-/

namespace PolicyAnalysis

open Checked

variable {l r p : Policy} {old new : AccessRule} {given : RuleKey → Option String → Prop}

/-- The other branch of the same block. -/
def Conditional.turned (place : Conditional) : Conditional :=
  { place with branch := !place.branch }

def AccessRule.turned (rule : AccessRule) : AccessRule :=
  { rule with conditional := rule.conditional.map Conditional.turned }

/-- Some rule among statements gives a right. -/
def Policy.GivenBy (p : Policy) (statements : List Statement) (right : Right) : Prop :=
  ∃ rule, Statement.rule rule ∈ statements ∧ rule.Gives p right

/-- What is found where an old entry gives way to a new one, beside the rights that are given anyway. -/
structure Moved (given : RuleKey → Option String → Prop) (old new : AccessRule)
    (c : Difference AccessRule (SetChange String)) : Prop where
  removed_alone : ¬ given old.key none → c.removed = [old]
  removed_shared : given old.key none → c.removed = []
  added_alone : ¬ given new.key none → c.added = [new]
  added_shared : given new.key none → c.added = []
  modified_iff : ∀ k, (∃ m ∈ c.modified, m.item.key = k) ↔
    (k = old.key ∨ k = new.key) ∧ given k none ∧ ∃ perm ∈ old.perms, ¬ given k (some perm)

/-- Beside the rights that are given anyway, a policy has just those of one entry. -/
structure Policy.Adds (p : Policy) (kind : AccessKind) (given : RuleKey → Option String → Prop)
    (entry : AccessRule) : Prop where
  gives_iff : ∀ k perm, p.Gives (.access kind k perm) ↔
    given k perm ∨ k = entry.key ∧ ∀ x, perm = some x → x ∈ entry.perms
  eq_of_key_eq : ¬ given entry.key none → ∀ rule ∈ p.singleAccessRules kind, rule.key = entry.key → rule = entry

theorem AccessRule.gather_of_forall_eq {entry : AccessRule} {rules : List AccessRule} (hne : rules ≠ [])
    (h : ∀ rule ∈ rules, rule = entry) : gather rules = some entry := by
  obtain ⟨first, rest, rfl⟩ := List.exists_cons_of_ne_nil hne
  obtain rfl := h first List.mem_cons_self
  have hperms : unionAll ((first :: rest).map AccessRule.perms) = first.perms := by
    ext perm
    rw [mem_unionAll]
    constructor
    · rintro ⟨_, hperms, hperm⟩
      obtain ⟨rule, hrule, rfl⟩ := List.mem_map.mp hperms
      rwa [h rule hrule] at hperm
    · intro hperm
      exact ⟨first.perms, List.mem_map_of_mem List.mem_cons_self, hperm⟩
  rw [gather, List.head?_cons, Option.map_some, hperms]

theorem Reading.item?_access_eq_none_iff (label : String) (kind : AccessKind) (k : RuleKey) :
    (access label kind).item? p k = none ↔ ¬ p.Gives (.access kind k none) := by
  have hview : ((access label kind).view p k).isSome = ((access label kind).item? p k).isSome := Option.isSome_map
  have hgives : ((access label kind).view p k).isSome ↔ p.Gives (.access kind k none) :=
    has_none_iff.symm.trans (has_view_access_iff label kind k none)
  rw [← hgives, hview, Bool.not_eq_true, Option.isSome_eq_false_iff, Option.isNone_iff_eq_none]

namespace Policy.Adds

variable {kind : AccessKind} {entry : AccessRule}

theorem congr {given' : RuleKey → Option String → Prop} (h : p.Adds kind given entry)
    (hgiven : ∀ k perm, given k perm ↔ given' k perm) : p.Adds kind given' entry where
  gives_iff k perm := by rw [h.gives_iff, hgiven]
  eq_of_key_eq halone := h.eq_of_key_eq fun hg => halone ((hgiven _ _).mp hg)

theorem gives_none (h : p.Adds kind given entry) : p.Gives (.access kind entry.key none) :=
  (h.gives_iff entry.key none).mpr (Or.inr ⟨rfl, nofun⟩)

theorem item?_eq (h : p.Adds kind given entry) (halone : ¬ given entry.key none) (label : String) :
    (Reading.access label kind).item? p entry.key = some entry := by
  apply AccessRule.gather_of_forall_eq
  · intro hnil
    have hnone : (Reading.access label kind).item? p entry.key = none := congrArg AccessRule.gather hnil
    exact (Reading.item?_access_eq_none_iff label kind entry.key).mp hnone h.gives_none
  · intro rule hrule
    obtain ⟨hrule, hkey⟩ := mem_itemsWith.mp hrule
    exact h.eq_of_key_eq halone rule hrule hkey

/-- What only one of two policies has is its own entry, unless it is given anyway. -/
theorem only_iff (hl : l.Adds kind given old) (hr : r.Adds kind given new) (hkeys : old.key ≠ new.key)
    (label : String) (rule : AccessRule) :
    (Reading.access label kind).item? l rule.key = some rule ∧ (Reading.access label kind).item? r rule.key = none ↔
      rule = old ∧ ¬ given old.key none := by
  rw [Reading.item?_access_eq_none_iff, hr.gives_iff]
  constructor
  · rintro ⟨hitem, hnot⟩
    obtain ⟨hgiven, -⟩ := not_or.mp hnot
    have hgives : l.Gives (.access kind rule.key none) := by
      by_contra hnone
      rw [(Reading.item?_access_eq_none_iff label kind rule.key).mpr hnone] at hitem
      cases hitem
    rcases (hl.gives_iff _ _).mp hgives with h | ⟨hkey, -⟩
    · exact absurd h hgiven
    · rw [hkey] at hgiven
      rw [hkey, hl.item?_eq hgiven] at hitem
      exact ⟨(Option.some.inj hitem).symm, hgiven⟩
  · rintro ⟨rfl, halone⟩
    refine ⟨hl.item?_eq halone label, ?_⟩
    rintro (h | ⟨hkey, -⟩)
    · exact halone h
    · exact hkeys hkey

end Policy.Adds

/-- The keys of changes are those under which both sides have something, but not the same. -/
theorem Reading.Exact.exists_modified_iff {R : Reading} {c : Difference R.aspect.Item R.aspect.Change}
    (h : R.Exact l r c) {k : R.aspect.Key} :
    (∃ m ∈ c.modified, R.key m.item = k) ↔ R.item? l k ≠ none ∧ R.item? r k ≠ none ∧ R.view l k ≠ R.view r k := by
  constructor
  · rintro ⟨m, hm, rfl⟩
    obtain ⟨hitem, v, hv, hne⟩ := (h.mem_modified_iff m.item).mp ⟨m.change, hm⟩
    obtain ⟨item', hitem', rfl⟩ := Option.map_eq_some_iff.mp hv
    rw [view, view, hitem, hitem']
    exact ⟨Option.some_ne_none _, Option.some_ne_none _, fun heq => hne (Option.some.inj heq)⟩
  · rintro ⟨hleft, hright, hne⟩
    obtain ⟨item, hitem⟩ := Option.ne_none_iff_exists'.mp hleft
    obtain ⟨item', hitem'⟩ := Option.ne_none_iff_exists'.mp hright
    have hkey : R.key item = k := R.key_gather (fun i hi => (mem_itemsWith.mp hi).2) hitem
    subst hkey
    rw [view, view, hitem, hitem'] at hne
    obtain ⟨change, hm⟩ := (h.mem_modified_iff item).mpr
      ⟨hitem, R.gauge.value item', by rw [view, hitem']; rfl, fun heq => hne (congrArg some heq)⟩
    exact ⟨⟨item, change⟩, hm, rfl⟩

theorem Reading.Exact.exists_modified_access_iff {label : String} {kind : AccessKind}
    {c : Difference AccessRule (SetChange String)} (h : (access label kind).Exact l r c) (k : RuleKey) :
    (∃ m ∈ c.modified, m.item.key = k) ↔ l.Gives (.access kind k none) ∧ r.Gives (.access kind k none) ∧
      ∃ perm, ¬ (l.Gives (.access kind k perm) ↔ r.Gives (.access kind k perm)) := by
  have hview : (access label kind).view l k ≠ (access label kind).view r k ↔
      ∃ perm, ¬ (l.Gives (.access kind k perm) ↔ r.Gives (.access kind k perm)) :=
    (not_congr (view_access_eq_iff label kind k)).trans not_forall
  refine h.exists_modified_iff.trans ?_
  rw [Ne, Ne, item?_access_eq_none_iff, item?_access_eq_none_iff, not_not, not_not, hview]

/-- Where something is given anyway, an entry adds just the permissions that are not given. -/
theorem exists_not_iff_or {k : RuleKey} {perms : NameSet} (hnone : given k none) :
    (∃ perm, ¬ ((given k perm ∨ ∀ x, perm = some x → x ∈ perms) ↔ given k perm)) ↔
      ∃ perm ∈ perms, ¬ given k (some perm) := by
  constructor
  · rintro ⟨perm, h⟩
    cases perm with
    | none => exact absurd (iff_of_true (Or.inl hnone) hnone) h
    | some x =>
      have hnot : ¬ given k (some x) := fun hx => h (iff_of_true (Or.inl hx) hx)
      refine ⟨x, ?_, hnot⟩
      by_contra hx
      exact h ⟨fun hor => hor.resolve_right fun hall => hx (hall x rfl), Or.inl⟩
  · rintro ⟨x, hx, hnot⟩
    refine ⟨some x, fun h => hnot (h.mp (Or.inr ?_))⟩
    rintro _ ⟨⟩
    exact hx

/-- Under the key of its own entry, a policy has other permissions than one without the entry if the entry has some
that are not given anyway. -/
theorem Policy.Adds.differ_iff {kind : AccessKind} (hl : l.Adds kind given old) (hr : r.Adds kind given new)
    (hkeys : old.key ≠ new.key) :
    (l.Gives (.access kind old.key none) ∧ r.Gives (.access kind old.key none) ∧
      ∃ perm, ¬ (l.Gives (.access kind old.key perm) ↔ r.Gives (.access kind old.key perm))) ↔
      given old.key none ∧ ∃ perm ∈ old.perms, ¬ given old.key (some perm) := by
  rw [and_iff_right hl.gives_none]
  simp only [hl.gives_iff, hr.gives_iff, hkeys, true_and, false_and, or_false]
  exact and_congr_right exists_not_iff_or

theorem eq_singleton_or_nil {α : Type} {a : α} {xs : List α} {P : Prop} (hnodup : xs.Nodup)
    (hmem : ∀ x, x ∈ xs ↔ x = a ∧ ¬ P) : (¬ P → xs = [a]) ∧ (P → xs = []) := by
  constructor
  · intro hP
    refine List.perm_singleton.mp ((List.perm_ext_iff_of_nodup hnodup (List.nodup_singleton a)).mpr fun x => ?_)
    simp [hmem, hP]
  · intro hP
    refine List.eq_nil_iff_forall_not_mem.mpr fun x hx => ?_
    exact ((hmem x).mp hx).2 hP

theorem moved_of_adds {label : String} {kind : AccessKind} {c : Difference AccessRule (SetChange String)}
    (hl : l.Adds kind given old) (hr : r.Adds kind given new) (hperms : new.perms = old.perms)
    (hkeys : old.key ≠ new.key) (h : (Reading.access label kind).Exact l r c) : Moved given old new c := by
  have hremoved : (¬ given old.key none → c.removed = [old]) ∧ (given old.key none → c.removed = []) :=
    eq_singleton_or_nil (Difference.nodup_of_ordered h.ordered_removed).of_map fun rule =>
      (h.mem_removed_iff rule).trans (hl.only_iff hr hkeys label rule)
  have hadded : (¬ given new.key none → c.added = [new]) ∧ (given new.key none → c.added = []) :=
    eq_singleton_or_nil (Difference.nodup_of_ordered h.ordered_added).of_map fun rule =>
      (h.mem_added_iff rule).trans (hr.only_iff hl hkeys.symm label rule)
  refine ⟨hremoved.1, hremoved.2, hadded.1, hadded.2, ?_⟩
  intro k
  rw [h.exists_modified_access_iff]
  by_cases hold : k = old.key
  · subst hold
    rw [hl.differ_iff hr hkeys, and_iff_right (Or.inl rfl)]
  · by_cases hnew : k = new.key
    · subst hnew
      have hdiffer := hr.differ_iff hl hkeys.symm
      simp only [hperms] at hdiffer
      rw [and_iff_right (Or.inr rfl), ← hdiffer, and_left_comm]
      exact and_congr_right fun _ => and_congr_right fun _ => exists_congr fun _ => not_congr iff_comm
    · simp [hl.gives_iff, hr.gives_iff, hold, hnew]

namespace Policy

variable {first last : List Rule} {rule : AccessRule} {pair : String × String} {source target : String} {right : Right}

theorem gives_of_resolveRule {r r' : Rule} (h : p.resolveRule r = .ok r') : r'.Gives p right ↔ r.Gives p right := by
  cases r with
  | access rule =>
    simp only [resolveRule, bind_eq_ok, pure_eq_ok] at h
    obtain ⟨-, -, -, -, -, -, rfl⟩ := h
    rfl
  | extended rule =>
    simp only [resolveRule, bind_eq_ok, pure_eq_ok] at h
    obtain ⟨-, -, -, -, rfl⟩ := h
    rfl
  | type _ | role _ | range _ | bound _ | default _ | constraint _ | filesystem _ | path _ | port _ | node _
  | interface _ | pkey _ | endport _ =>
    simp only [resolveRule, bind_eq_ok, pure_eq_ok] at h
    grind [Rule.Gives]

theorem mem_flatMap_rules {r : Rule} {statements : List Statement} :
    r ∈ statements.flatMap Statement.rules ↔ .rule r ∈ statements := by
  rw [List.mem_flatMap]
  constructor
  · rintro ⟨s, hs, hr⟩
    cases s with
    | rule r' =>
      cases List.mem_singleton.mp hr
      exact hs
    | _ => cases hr
  · intro h
    exact ⟨.rule r, h, List.mem_singleton_self r⟩

/-- Resolved rules give what the statements give. -/
theorem exists_gives_iff {statements : List Statement} {rules : List Rule}
    (h : (statements.flatMap Statement.rules).mapM p.resolveRule = .ok rules) :
    (∃ r ∈ rules, r.Gives p right) ↔ p.GivenBy statements right := by
  constructor
  · intro ⟨r', hr', hgives⟩
    obtain ⟨r, hr, hresolve⟩ := (mem_iff_of_mapM h).mp hr'
    exact ⟨r, mem_flatMap_rules.mp hr, (gives_of_resolveRule hresolve).mp hgives⟩
  · intro ⟨r, hr, hgives⟩
    have hr := mem_flatMap_rules.mpr hr
    obtain ⟨r', hresolve⟩ := exists_mapM_eq_ok.mp ⟨rules, h⟩ r hr
    exact ⟨r', (mem_iff_of_mapM h).mpr ⟨r, hr, hresolve⟩, (gives_of_resolveRule hresolve).mpr hgives⟩

/-- A policy has what a rule for one pair of types gives beside what its other rules give. -/
theorem adds_of_rules (hrules : p.rules = first ++ .access rule :: last)
    (hpair : ∀ e, p.Names rule.source rule.target e ↔ e = pair) :
    p.Adds rule.kind (fun k perm => ∃ r ∈ first ++ last, r.Gives p (.access rule.kind k perm)) (rule.single pair) where
  gives_iff k perm := by
    have hrule : (Rule.access rule).Gives p (.access rule.kind k perm) ↔
        k = (rule.single pair).key ∧ ∀ x, perm = some x → x ∈ rule.perms := by
      simp [Rule.Gives, hpair, eq_comm]
    simp only [Policy.Gives, hrules, List.mem_append, List.mem_cons, or_and_right, exists_or, exists_eq_left, hrule]
    rw [← or_assoc, or_right_comm]
    rfl
  eq_of_key_eq := by
    intro halone i hi hkey
    obtain ⟨rule', hrule', hi⟩ := List.mem_flatMap.mp hi
    obtain ⟨pair', hpair', rfl⟩ := List.mem_map.mp hi
    obtain ⟨hrule', hkind⟩ := List.mem_filter.mp hrule'
    have hmem := mem_accessRules.mp hrule'
    have hnot : Rule.access rule' ∉ first ++ last := fun hother =>
      halone ⟨.access rule', hother, of_decide_eq_true hkind, ⟨pair', mem_pairNames.mp hpair', hkey⟩, nofun⟩
    have heq : rule' = rule := by simpa [hrules, not_or.mp (List.mem_append.not.mp hnot)] using hmem
    subst heq
    rw [(hpair pair').mp (mem_pairNames.mp hpair')]
    rfl

theorem stands_of_lookupType {name type : String} {id : TypeId} (h : p.lookupType name = .ok id) :
    p.Stands name type ↔ p.typeName id = type := by
  simp [Stands, expand_of_lookupType h]

theorem exists_pair (hsource : ∃ id, p.lookupType source = .ok id)
    (htarget : target = selfTarget ∨ ∃ id, p.lookupType target = .ok id) :
    ∃ pair, ∀ e, p.Names source target e ↔ e = pair := by
  obtain ⟨s, hs⟩ := hsource
  by_cases hself : target = selfTarget
  · refine ⟨(p.typeName s, p.typeName s), fun e => ?_⟩
    rw [names_iff, stands_of_lookupType hs, Prod.ext_iff]
    constructor
    · rintro ⟨hfirst, ⟨-, hsecond⟩ | ⟨hne, -⟩⟩
      · exact ⟨hfirst.symm, hsecond.trans hfirst.symm⟩
      · exact absurd hself hne
    · intro ⟨hfirst, hsecond⟩
      exact ⟨hfirst.symm, Or.inl ⟨hself, hsecond.trans hfirst.symm⟩⟩
  · obtain ⟨t, ht⟩ := htarget.resolve_left hself
    refine ⟨(p.typeName s, p.typeName t), fun e => ?_⟩
    rw [names_iff, stands_of_lookupType hs, stands_of_lookupType ht, Prod.ext_iff]
    simp only [hself, not_false_eq_true, ne_eq, false_and, false_or, true_and, eq_comm]

end Policy

theorem AccessRule.key_turned_ne {rule : AccessRule} {place : Conditional} (h : rule.conditional = some place)
    (pair : String × String) : (rule.single pair).key ≠ (rule.turned.single pair).key := by
  intro hkey
  have hplace := congrArg RuleKey.place hkey
  simp [key, single, turned, h, Conditional.identity, Conditional.turned] at hplace

theorem Policy.resolveRule_turned {rule : AccessRule} {resolved : Rule}
    (h : p.resolveRule (.access rule) = .ok resolved) :
    resolved = .access rule ∧ p.resolveRule (.access rule.turned) = .ok (.access rule.turned) := by
  have hcheck : p.checkConditional rule.turned.conditional = p.checkConditional rule.conditional := by
    rw [AccessRule.turned]
    cases rule.conditional <;> rfl
  simp only [resolveRule, bind_eq_ok, pure_eq_ok] at h ⊢
  obtain ⟨⟨⟩, hends, ⟨⟩, hclass, ⟨⟩, hconditional, rfl⟩ := h
  exact ⟨rfl, (), hends, (), hclass, (), hcheck.trans hconditional, trivial⟩

/-- One entry is removed and one is added, and that is all, just if no other rule is under either key. -/
theorem Moved.single_iff {c : Difference AccessRule (SetChange String)} (h : Moved given old new c) :
    c.removed = [old] ∧ c.added = [new] ∧ c.modified = [] ↔ ¬ given old.key none ∧ ¬ given new.key none := by
  constructor
  · rintro ⟨hremoved, hadded, -⟩
    refine ⟨fun hgiven => ?_, fun hgiven => ?_⟩
    · rw [h.removed_shared hgiven] at hremoved
      cases hremoved
    · rw [h.added_shared hgiven] at hadded
      cases hadded
  · intro ⟨hold, hnew⟩
    refine ⟨h.removed_alone hold, h.added_alone hnew, List.eq_nil_iff_forall_not_mem.mpr fun m hm => ?_⟩
    obtain ⟨hkey | hkey, hgiven, -⟩ := (h.modified_iff m.item.key).mp ⟨m, hm, rfl⟩
    · exact hold (hkey ▸ hgiven)
    · exact hnew (hkey ▸ hgiven)

/-- A rule for one pair of types is moved to the other branch of its block, among any other statements. What the
comparison finds depends on what the others give under its two keys. -/
theorem Reading.access_moved (label : String) {name : String} {before after : List Statement} {rule : AccessRule}
    {place : Conditional} (built : Policy.build name (before ++ .rule (.access rule) :: after) = .ok l)
    (hplace : rule.conditional = some place) (hsource : ∃ id, l.lookupType rule.source = .ok id)
    (htarget : rule.target = Policy.selfTarget ∨ ∃ id, l.lookupType rule.target = .ok id) :
    ∃ r c pair, Policy.build name (before ++ .rule (.access rule.turned) :: after) = .ok r ∧
      (∀ e, l.Names rule.source rule.target e ↔ e = pair) ∧
      (Aspect.access label rule.kind).difference l r = .ok c ∧
      Moved (fun k perm => l.GivenBy (before ++ after) (.access rule.kind k perm)) (rule.single pair)
        (rule.turned.single pair) c ∧
      (c.removed = [rule.single pair] ∧ c.added = [rule.turned.single pair] ∧ c.modified = [] ↔
        ¬ l.GivenBy (before ++ after) (.access rule.kind (rule.single pair).key none) ∧
        ¬ l.GivenBy (before ++ after) (.access rule.kind (rule.turned.single pair).key none)) := by
  obtain ⟨first, resolved, last, hrules, hresolve, hfirst, hlast, hreplace⟩ := Policy.build_replace built
  obtain ⟨rfl, hturned⟩ := Policy.resolveRule_turned hresolve
  obtain ⟨pair, hpair⟩ := Policy.exists_pair hsource htarget
  have hothers : ((before ++ after).flatMap Statement.rules).mapM l.resolveRule = .ok (first ++ last) := by
    rw [List.flatMap_append, List.mapM_append, hfirst, hlast]
    rfl
  have hl : l.Adds rule.kind (fun k perm => l.GivenBy (before ++ after) (.access rule.kind k perm))
      (rule.single pair) :=
    (Policy.adds_of_rules hrules hpair).congr fun k perm => Policy.exists_gives_iff hothers
  obtain ⟨r, hr⟩ : ∃ r : Policy, r = { l with rules := first ++ .access rule.turned :: last } := ⟨_, rfl⟩
  have built' : Policy.build name (before ++ .rule (.access rule.turned) :: after) = .ok r :=
    hr ▸ hreplace _ _ hturned
  have hrules' : r.rules = first ++ .access rule.turned :: last := by rw [hr]
  have hpair' : ∀ e, r.Names rule.turned.source rule.turned.target e ↔ e = pair := by
    rw [hr]
    exact hpair
  -- The other rules give the same in both policies, for names stand for the same.
  have hadds : r.Adds rule.kind (fun k perm => l.GivenBy (before ++ after) (.access rule.kind k perm))
      (rule.turned.single pair) := by
    refine (Policy.adds_of_rules hrules' hpair').congr fun k perm => ?_
    rw [hr]
    exact Policy.exists_gives_iff hothers
  obtain ⟨_, _, hc, -⟩ := (access label rule.kind).exists_difference built built'
  have hmoved := moved_of_adds hl hadds rfl (AccessRule.key_turned_ne hplace pair)
    (exact_of_difference built built' hc)
  exact ⟨r, _, pair, built', hpair, hc, hmoved, hmoved.single_iff⟩

namespace Reading

def valveStatements : List Statement := [
  .type "a_t" ∅,
  .type "b_t" ∅,
  .boolean "open" true,
  .objectClass "file" none (.ofList ["read", "write"]),
  .rule (.access ⟨.allow, "a_t", "b_t", "file", .ofList ["read", "write"], none⟩)]

def valveRule (branch : Bool) : AccessRule :=
  ⟨.allow, "a_t", "b_t", "file", .ofList ["read"], some ⟨.boolean "open", branch⟩⟩

def valvePolicy (rules : List AccessRule) : Policy :=
  match Policy.build "valve" (valveStatements ++ rules.map fun rule => .rule (.access rule)) with
  | .ok p => p
  | .error _ => (Draft.ofStatements "valve" []).start

theorem build_valve :
    Policy.build "valve" (valveStatements ++ .rule (.access (valveRule true)) :: []) =
      .ok (valvePolicy [valveRule true]) := by rfl

/-- Another rule for the same types, in no block, does not matter. -/
theorem exists_access_moved_valve :
    ∃ r c, Policy.build "valve" (valveStatements ++ .rule (.access (valveRule true).turned) :: []) = .ok r ∧
      (Aspect.access "allows" .allow).difference (valvePolicy [valveRule true]) r = .ok c ∧
      c.removed = [valveRule true] ∧ c.added = [valveRule false] ∧ c.modified = [] := by
  obtain ⟨r, c, pair, built, hpair, hc, -, hsingle⟩ :=
    access_moved "allows" build_valve rfl ⟨0, rfl⟩ (Or.inr ⟨1, rfl⟩)
  have hnames : (valvePolicy [valveRule true]).Names "a_t" "b_t" ("a_t", "b_t") :=
    ⟨0, 1, ⟨[(0, 1)], rfl, by simp⟩, rfl⟩
  cases (hpair _).mp hnames
  have hnot (branch : Bool) : ¬ (valvePolicy [valveRule true]).GivenBy (valveStatements ++ [])
      (.access .allow (valveRule branch).key none) := by
    rintro ⟨rule, hrule, hgives⟩
    obtain rfl : rule = .access ⟨.allow, "a_t", "b_t", "file", .ofList ["read", "write"], none⟩ := by
      simpa [valveStatements] using hrule
    obtain ⟨-, ⟨pair, -, hkey⟩, -⟩ := hgives
    have hplace := congrArg RuleKey.place hkey
    cases hplace
  exact ⟨r, c, built, hc, hsingle.mpr ⟨hnot true, hnot false⟩⟩

/-- Where the same rule is in the other branch already, one entry is removed and none is added. -/
theorem not_access_moved_doubled :
    Policy.build "valve" (valveStatements ++ .rule (.access (valveRule true)) :: [.rule (.access (valveRule false))]) =
      .ok (valvePolicy [valveRule true, valveRule false]) ∧
    Policy.build "valve"
        (valveStatements ++ .rule (.access (valveRule true).turned) :: [.rule (.access (valveRule false))]) =
      .ok (valvePolicy [valveRule false, valveRule false]) ∧
    ∃ c, (Aspect.access "allows" .allow).difference (valvePolicy [valveRule true, valveRule false])
        (valvePolicy [valveRule false, valveRule false]) = .ok c ∧ c.size = ⟨0, 1, 0⟩ := by
  refine ⟨by rfl, by rfl, _, rfl, ?_⟩
  decide +kernel

end Reading

end PolicyAnalysis
