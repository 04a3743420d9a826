import PolicyAnalysis.Proofs.Flow.Contributions
import PolicyAnalysis.Proofs.PermissionMap.Editing

/-!
# Completing a map by a policy

Once the permissions of a policy have been added to a map, every permission that the policy declares has an
entry. The entries that were there are kept, so whatever could be weighed is weighed the same, and whatever flow
graph could be built is built again.
-/

namespace PolicyAnalysis

open Checked

theorem Policy.hasPerm_iff {p : Policy} {objectClass perm : String} :
    p.HasPerm objectClass perm ↔ ∃ perms, p.classPerms objectClass = .ok perms ∧ perm ∈ perms := by
  rw [HasPerm, classPerms, lookupClass]
  cases p.classes[objectClass]? with
  | none => simp [bind, Except.bind]
  | some c => simp [mem_permsOf, bind, Except.bind, pure, Except.pure]

namespace PermissionMap

variable {m m' : PermissionMap} {p : Policy} {rule : AccessRule}

def Extends (m' m : PermissionMap) : Prop :=
  ∀ c perm x, m.entry? c perm = some x → m'.entry? c perm = some x

namespace Extends

theorem weigh (h : m'.Extends m) {w : Weights} (hw : m.weigh rule = .ok w) : m'.weigh rule = .ok w := by
  have hkind := kind_of_weigh hw
  obtain ⟨xs, hxs, rfl⟩ := (weigh_eq_ok hkind).mp hw
  refine (weigh_eq_ok hkind).mpr ⟨xs, mapM_eq_ok.mpr ((mapM_eq_ok.mp hxs).imp fun perm x hx => ?_), rfl⟩
  exact mapping_eq_ok.mpr (h rule.objectClass perm x (mapping_eq_ok.mp hx))

theorem weighRule (h : m'.Extends m) {rule : Rule} {w : Weights} (hw : m.weighRule rule = .ok w) :
    m'.weighRule rule = .ok w := by
  cases rule with
  | access rule => exact h.weigh hw
  | _ => cases hw

theorem ruleFlows (h : m'.Extends m) {entry : AccessRule × RuleId} {flows : List Flow}
    (hflows : FlowGraph.ruleFlows p m entry = .ok flows) : FlowGraph.ruleFlows p m' entry = .ok flows := by
  rw [FlowGraph.ruleFlows] at hflows ⊢
  split at hflows
  next hkind => rw [if_pos hkind, hflows]
  next hkind =>
    rw [if_neg hkind]
    obtain ⟨w, hw, hflows⟩ := bind_eq_ok.mp hflows
    exact bind_eq_ok.mpr ⟨w, h.weigh hw, hflows⟩

theorem flowGraph (h : m'.Extends m) {g : FlowGraph} (hg : FlowGraph.ofPolicy p m = .ok g) :
    FlowGraph.ofPolicy p m' = .ok g := by
  rw [FlowGraph.ofPolicy_eq_map, map_eq_ok] at hg ⊢
  obtain ⟨rows, hrows, hg⟩ := hg
  exact ⟨rows, mapM_eq_ok.mpr ((mapM_eq_ok.mp hrows).imp fun _ _ => h.ruleFlows), hg⟩

end Extends

theorem mapPolicy_extends (m : PermissionMap) (p : Policy) : (m.mapPolicy p).Extends m := by
  intro c perm x hx
  rw [entry?_mapPolicy, hx, Option.some_or]

theorem exists_mapping_mapPolicy_iff (m : PermissionMap) (p : Policy) (c perm : String) :
    (∃ x, (m.mapPolicy p).mapping c perm = .ok x) ↔ (∃ x, m.mapping c perm = .ok x) ∨ p.HasPerm c perm := by
  have hadded : p.HasPerm c perm ↔ ∃ x, added? p c perm = some x := by
    simp only [Policy.hasPerm_iff, added?_eq_some, exists_and_left, exists_eq, and_true]
  simp only [mapping_eq_ok, entry?_mapPolicy, hadded, ← Option.isSome_iff_exists, Option.isSome_or, Bool.or_eq_true]

theorem mapPolicy_mapPolicy (m : PermissionMap) (p : Policy) : (m.mapPolicy p).mapPolicy p = m.mapPolicy p := by
  refine ext_entry? (fun c => ?_) fun c perm => ?_
  · simp only [mem_classes_mapPolicy, or_assoc, or_self]
  · simp only [entry?_mapPolicy, Option.or_assoc, Option.or_self]

theorem exists_weigh_mapPolicy (m : PermissionMap) (hkind : rule.kind = .allow)
    (hperms : ∀ perm ∈ rule.perms, p.HasPerm rule.objectClass perm) : ∃ w, (m.mapPolicy p).weigh rule = .ok w := by
  refine (exists_weigh_iff hkind).mpr fun perm hperm => ?_
  simp only [← mapping_eq_ok]
  exact (exists_mapping_mapPolicy_iff m p rule.objectClass perm).mpr (Or.inr (hperms perm hperm))

/-- The second map is the first, completed by a policy. -/
structure Completes (p : Policy) (m m' : PermissionMap) : Prop where
  succeeds : (Edit.mapPolicy p).steps.run m = .ok () m'
  mapping_iff : ∀ c perm,
    (∃ x, m'.mapping c perm = .ok x) ↔ (∃ x, m.mapping c perm = .ok x) ∨ p.HasPerm c perm
  keeps : ∀ c perm x, m.mapping c perm = .ok x → m'.mapping c perm = .ok x
  weighs : ∀ rule w, m.weigh rule = .ok w → m'.weigh rule = .ok w
  weighsRule : ∀ rule w, m.weighRule rule = .ok w → m'.weighRule rule = .ok w
  weighsDeclared : ∀ rule : AccessRule, rule.kind = .allow →
    (∀ perm ∈ rule.perms, p.HasPerm rule.objectClass perm) → ∃ w, m'.weigh rule = .ok w
  again : (Edit.mapPolicy p).steps.run m' = .ok () m'
  flowGraph : ∀ g, FlowGraph.ofPolicy p m = .ok g → FlowGraph.ofPolicy p m' = .ok g

theorem completes_mapPolicy {name : String} {statements : List Statement}
    (built : Policy.build name statements = .ok p) (m : PermissionMap) : Completes p m (m.mapPolicy p) := by
  have hextends := mapPolicy_extends m p
  exact {
    succeeds := Editing.run_addPolicy built m
    mapping_iff := exists_mapping_mapPolicy_iff m p
    keeps c perm x hx := mapping_eq_ok.mpr (hextends c perm x (mapping_eq_ok.mp hx))
    weighs _ _ hw := hextends.weigh hw
    weighsRule _ _ hw := hextends.weighRule hw
    weighsDeclared _ hkind hperms := exists_weigh_mapPolicy m hkind hperms
    again := (Editing.run_addPolicy built _).trans (congrArg _ (mapPolicy_mapPolicy m p))
    flowGraph _ hg := hextends.flowGraph hg }

/-- A drawer can be peeked into and opened, but the map tells only of peeking. -/
def peekMap : PermissionMap :=
  empty.put "drawer" "peek" ⟨.read, 7, true⟩

theorem completes_peekMap :
    Policy.build "drawer" drawerStatements = .ok drawer ∧ ¬ (∃ x, peekMap.mapping "drawer" "open" = .ok x) ∧
      Completes drawer peekMap (peekMap.mapPolicy drawer) := by
  refine ⟨build_drawer, ?_, completes_mapPolicy build_drawer peekMap⟩
  rintro ⟨x, hx⟩
  cases hx

end PermissionMap

end PolicyAnalysis
