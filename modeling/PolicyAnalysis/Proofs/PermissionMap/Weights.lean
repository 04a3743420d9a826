import Mathlib.Data.List.Induction
import Mathlib.Order.Bounds.Basic
import PolicyAnalysis.PermissionMap.Basic
import PolicyAnalysis.Proofs.Checked

/-!
# Weights of access rules

A rule can be weighed exactly if the map has an entry for each of its permissions, enabled or not. Otherwise
its first permission without an entry is to blame.
-/

namespace PolicyAnalysis

open Checked

theorem isGreatest_foldl_max (l : List Nat) : IsGreatest ({0} ∪ {w | w ∈ l}) (l.foldl max 0) := by
  induction l using List.reverseRecOn with
  | nil =>
    refine ⟨Or.inl rfl, ?_⟩
    intro w hw
    rcases hw with hzero | hw
    · exact Nat.le_of_eq hzero
    · exact absurd hw List.not_mem_nil
  | append_singleton l a ih =>
    obtain ⟨hmem, hbound⟩ := ih
    rw [List.foldl_concat]
    constructor
    · rcases Nat.le_total (l.foldl max 0) a with hle | hle
      · rw [Nat.max_eq_right hle]
        exact Or.inr (List.mem_append_right l List.mem_cons_self)
      · rw [Nat.max_eq_left hle]
        rcases hmem with hzero | hmem
        · exact Or.inl hzero
        · exact Or.inr (List.mem_append_left [a] hmem)
    · intro w hw
      rcases hw with hzero | hw
      · rw [hzero]
        exact Nat.zero_le _
      · rcases List.mem_append.mp hw with hw | hw
        · have hle := hbound (Or.inr hw)
          omega
        · have heq := List.mem_singleton.mp hw
          omega

theorem isGreatest_zero_union {S : Set Nat} (hS : S.Nonempty) {w : Nat} :
    IsGreatest ({0} ∪ S) w ↔ IsGreatest S w := by
  constructor
  · intro ⟨hmem, hbound⟩
    refine ⟨?_, fun v hv => hbound (Or.inr hv)⟩
    rcases hmem with hzero | hmem
    · obtain ⟨v, hv⟩ := hS
      have hle := hbound (Or.inr hv)
      have heq : w = v := by
        rw [Set.mem_singleton_iff] at hzero
        omega
      exact heq ▸ hv
    · exact hmem
  · intro ⟨hmem, hbound⟩
    refine ⟨Or.inr hmem, ?_⟩
    rintro v (hzero | hv)
    · rw [hzero]
      exact Nat.zero_le w
    · exact hbound hv

/-- With 0 for the case that there is none, the greatest is found wherever it is positive. -/
theorem isGreatest_iff_eq {S : Set Nat} {w v : Nat} (h : IsGreatest ({0} ∪ S) w) (hv : 0 < v) :
    IsGreatest S v ↔ v = w := by
  constructor
  · intro hS
    have hzero := (isGreatest_zero_union ⟨v, hS.1⟩).mpr hS
    exact hzero.unique h
  · intro heq
    rw [heq] at hv ⊢
    have hmem : w ∈ S := h.1.resolve_left (Nat.pos_iff_ne_zero.mp hv)
    exact (isGreatest_zero_union ⟨w, hmem⟩).mp h

namespace PermissionMap

variable {m : PermissionMap} {rule : AccessRule}

def entry? (m : PermissionMap) (objectClass perm : String) : Option Mapping :=
  (m.classes[objectClass]?).bind (·[perm]?)

/-- What is wrong with a permission that has no entry. -/
def missing (m : PermissionMap) (objectClass perm : String) : PermissionMapError :=
  if objectClass ∈ m.classes then .unmappedPermission objectClass perm else .unmappedClass objectClass

def Maps (m : PermissionMap) (rule : AccessRule) : Prop :=
  ∀ perm ∈ rule.perms, ∃ x, m.entry? rule.objectClass perm = some x

/-- The first permission of a rule that has no entry. -/
structure FirstMissing (m : PermissionMap) (rule : AccessRule) (perm : String) : Prop where
  mem : perm ∈ rule.perms
  missing : m.entry? rule.objectClass perm = none
  first : ∀ q ∈ rule.perms, q < perm → ∃ x, m.entry? rule.objectClass q = some x

/-- The weights of the enabled permissions of a rule that go in one of some directions. -/
def weightsOf (m : PermissionMap) (rule : AccessRule) (goes : Direction → Prop) : Set Nat :=
  {w | ∃ perm ∈ rule.perms, ∃ x, m.entry? rule.objectClass perm = some x ∧
    x.enabled ∧ goes x.direction ∧ x.weight.toNat = w}

theorem mapping_eq (objectClass perm : String) :
    m.mapping objectClass perm =
      match m.entry? objectClass perm with
      | some x => .ok x
      | none => .error (m.missing objectClass perm) := by
  have hcontains := Std.ExtTreeMap.mem_iff_isSome_getElem? (t := m.classes) (a := objectClass)
  rw [mapping, perms, entry?, missing]
  cases hclass : m.classes[objectClass]? with
  | none =>
    rw [hclass] at hcontains
    simp [bind, Except.bind, hcontains]
  | some perms =>
    rw [hclass] at hcontains
    cases perms[perm]? <;> simp [bind, Except.bind, hcontains] <;> rfl

theorem mapping_eq_ok {objectClass perm : String} {x : Mapping} :
    m.mapping objectClass perm = .ok x ↔ m.entry? objectClass perm = some x := by
  rw [mapping_eq]
  cases m.entry? objectClass perm <;> simp

theorem mapping_eq_error {objectClass perm : String} {e : PermissionMapError} :
    m.mapping objectClass perm = .error e ↔
      m.entry? objectClass perm = none ∧ m.missing objectClass perm = e := by
  rw [mapping_eq]
  cases m.entry? objectClass perm <;> simp

theorem mappings_eq_error {e : PermissionMapError} :
    m.mappings rule.objectClass rule.perms = .error e ↔
      ∃ perm, m.FirstMissing rule perm ∧ m.missing rule.objectClass perm = e := by
  rw [mappings, mapM_eq_error]
  simp only [mapping_eq_ok, mapping_eq_error]
  have hsorted : rule.perms.toList.Pairwise (fun q perm => compare q perm = .lt) :=
    rule.perms.ordered_toList
  constructor
  · rintro ⟨before, perm, after, hsplit, hbefore, hmissing, he⟩
    have hmem : perm ∈ rule.perms := by
      rw [← Std.ExtTreeSet.mem_toList, hsplit]
      exact List.mem_append_right before List.mem_cons_self
    refine ⟨perm, ⟨hmem, hmissing, ?_⟩, he⟩
    intro q hq hlt
    rw [← Std.ExtTreeSet.mem_toList, hsplit] at hq
    -- What does not stand before `perm` is `perm` or comes after it in the order of names.
    rcases List.mem_append.mp hq with hq | hq
    · exact hbefore q hq
    · rw [hsplit] at hsorted
      have hafter := (List.pairwise_cons.mp (List.pairwise_append.mp hsorted).2.1).1
      rcases List.mem_cons.mp hq with rfl | hq
      · exact absurd hlt (String.lt_irrefl q)
      · exact absurd hlt (String.lt_asymm (compareOfLessAndEq_eq_lt.mp (hafter q hq)))
  · rintro ⟨perm, ⟨hmem, hmissing, hfirst⟩, he⟩
    obtain ⟨before, after, hsplit⟩ := List.append_of_mem (Std.ExtTreeSet.mem_toList.mpr hmem)
    refine ⟨before, perm, after, hsplit, ?_, hmissing, he⟩
    intro q hq
    have hqmem : q ∈ rule.perms := by
      rw [← Std.ExtTreeSet.mem_toList, hsplit]
      exact List.mem_append_left _ hq
    rw [hsplit] at hsorted
    have hlt := (List.pairwise_append.mp hsorted).2.2 q hq perm List.mem_cons_self
    exact hfirst q hqmem (compareOfLessAndEq_eq_lt.mp hlt)

theorem exists_mappings_iff : (∃ xs, m.mappings rule.objectClass rule.perms = .ok xs) ↔ m.Maps rule := by
  rw [mappings, exists_mapM_eq_ok]
  simp only [mapping_eq_ok, Std.ExtTreeSet.mem_toList]
  rfl

theorem mem_mappings {xs : List Mapping} (h : m.mappings rule.objectClass rule.perms = .ok xs)
    (x : Mapping) :
    x ∈ xs ↔ ∃ perm ∈ rule.perms, m.entry? rule.objectClass perm = some x := by
  simp only [← mapping_eq_ok, ← Std.ExtTreeSet.mem_toList]
  exact mem_iff_of_mapM h

theorem weigh_of_allow (hkind : rule.kind = .allow) :
    m.weigh rule = (fun xs => ⟨greatest Direction.reads xs, greatest Direction.writes xs⟩) <$>
      (m.mappings rule.objectClass rule.perms).mapError Error.permissionMap := by
  rw [weigh, if_neg (not_not_intro hkind)]
  rfl

theorem kind_of_weigh {w : Weights} (h : m.weigh rule = .ok w) : rule.kind = .allow := by
  by_contra hkind
  rw [weigh, if_pos hkind] at h
  cases h

theorem weigh_eq_ok (hkind : rule.kind = .allow) {w : Weights} :
    m.weigh rule = .ok w ↔ ∃ xs, m.mappings rule.objectClass rule.perms = .ok xs ∧
      ⟨greatest Direction.reads xs, greatest Direction.writes xs⟩ = w := by
  rw [weigh_of_allow hkind, map_eq_ok]
  simp only [mapError_eq_ok]

theorem exists_weigh_iff (hkind : rule.kind = .allow) : (∃ w, m.weigh rule = .ok w) ↔ m.Maps rule := by
  rw [← exists_mappings_iff]
  constructor
  · intro ⟨w, hw⟩
    obtain ⟨xs, hxs, -⟩ := (weigh_eq_ok hkind).mp hw
    exact ⟨xs, hxs⟩
  · intro ⟨xs, hxs⟩
    exact ⟨_, (weigh_eq_ok hkind).mpr ⟨xs, hxs, rfl⟩⟩

theorem weigh_eq_error (hkind : rule.kind = .allow) {e : Error} :
    m.weigh rule = .error e ↔
      ∃ perm, m.FirstMissing rule perm ∧ .permissionMap (m.missing rule.objectClass perm) = e := by
  rw [weigh_of_allow hkind, map_eq_error, mapError_eq_error]
  simp only [mappings_eq_error]
  constructor
  · intro ⟨e', ⟨perm, hperm, hmissing⟩, he⟩
    exact ⟨perm, hperm, hmissing ▸ he⟩
  · intro ⟨perm, hperm, he⟩
    exact ⟨_, ⟨perm, hperm, rfl⟩, he⟩

theorem isGreatest_greatest {xs : List Mapping} (h : m.mappings rule.objectClass rule.perms = .ok xs)
    {goes : Direction → Bool} {goes' : Direction → Prop} (hgoes : ∀ d, goes d ↔ goes' d) :
    IsGreatest ({0} ∪ m.weightsOf rule goes') (greatest goes xs) := by
  have hweights : m.weightsOf rule goes' =
      {w | w ∈ (xs.filter fun x => x.enabled && goes x.direction).map (·.weight.toNat)} := by
    ext w
    simp only [weightsOf, Set.mem_ofPred_eq, List.mem_map, List.mem_filter, Bool.and_eq_true,
      mem_mappings h, hgoes]
    constructor
    · rintro ⟨perm, hperm, x, hx, henabled, hdirection, hw⟩
      exact ⟨x, ⟨⟨perm, hperm, hx⟩, henabled, hdirection⟩, hw⟩
    · rintro ⟨x, ⟨⟨perm, hperm, hx⟩, henabled, hdirection⟩, hw⟩
      exact ⟨perm, hperm, x, hx, henabled, hdirection, hw⟩
  rw [hweights, greatest]
  exact isGreatest_foldl_max _

theorem reads_iff (d : Direction) : d.reads ↔ d = .read ∨ d = .both := by
  cases d <;> decide

theorem writes_iff (d : Direction) : d.writes ↔ d = .write ∨ d = .both := by
  cases d <;> decide

theorem isGreatest_weigh (hkind : rule.kind = .allow) {w : Weights} (h : m.weigh rule = .ok w) :
    IsGreatest ({0} ∪ m.weightsOf rule fun d => d = .read ∨ d = .both) w.read ∧
      IsGreatest ({0} ∪ m.weightsOf rule fun d => d = .write ∨ d = .both) w.write := by
  obtain ⟨xs, hxs, rfl⟩ := (weigh_eq_ok hkind).mp h
  exact ⟨isGreatest_greatest hxs reads_iff, isGreatest_greatest hxs writes_iff⟩

end PermissionMap

end PolicyAnalysis
