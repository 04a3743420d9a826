import PolicyAnalysis.Proofs.PermissionMap.Editing

/-!
# Excluding a class and including it again

A permission has one mark for being left out, whether it was excluded alone or with its class. Including a class
takes the mark off all its permissions, so it undoes an exclusion of the class just where none of them had been
excluded before. Else the permissions that were excluded alone count again, and a rule weighs more if one of them is
heavier than those that counted.
-/

namespace PolicyAnalysis.PermissionMap

open Checked

variable {m m₁ m' : PermissionMap} {c : String} {rule : AccessRule} {goes : Direction → Prop}

/-- No permission of a class is excluded. -/
def Included (m : PermissionMap) (c : String) : Prop :=
  ∀ perm x, m.entry? c perm = some x → x.enabled

/-- No permission of a rule for a class that is excluded and goes in one of some directions is heavier than `w`. -/
def Outweighs (m : PermissionMap) (c : String) (rule : AccessRule) (goes : Direction → Prop) (w : Nat) : Prop :=
  rule.objectClass = c → ∀ perm ∈ rule.perms, ∀ x, m.entry? c perm = some x → ¬ x.enabled → goes x.direction →
    x.weight.toNat ≤ w

namespace Edit.Changes

/-- Including a class hides whether it was excluded. -/
theorem include_of_exclude (hexclude : (Edit.excludeClass c).Changes m m₁)
    (hinclude : (Edit.includeClass c).Changes m₁ m') : (Edit.includeClass c).Changes m m' := by
  constructor
  · intro c'
    rw [hinclude.classes, hexclude.classes]
    simp only [opens, or_false]
  · intro c' perm
    rw [hinclude.entries, hexclude.entries, turns, turns, turns]
    split
    · rw [Option.map_map]
      rfl
    · rfl

theorem mem_classes_iff (h : (Edit.includeClass c).Changes m m') (c' : String) : c' ∈ m'.classes ↔ c' ∈ m.classes := by
  rw [h.classes]
  simp only [opens, or_false]

theorem included (h : (Edit.includeClass c).Changes m m') : m'.Included c := by
  intro perm x hx
  rw [h.entries, turns, if_pos rfl, Option.map_eq_some_iff] at hx
  obtain ⟨_, -, rfl⟩ := hx
  rfl

theorem eq_iff (h : (Edit.includeClass c).Changes m m') : m' = m ↔ m.Included c := by
  refine ⟨fun heq => heq ▸ h.included, fun hincluded => ext_entry? h.mem_classes_iff fun c' perm => ?_⟩
  rw [h.entries, turns]
  split
  next heq =>
    subst heq
    cases hx : m.entry? c' perm with
    | none => rfl
    | some x => rw [Option.map_some, ← hincluded perm x hx]
  next => rfl

theorem entry?_eq_none_iff (h : (Edit.includeClass c).Changes m m') (c' perm : String) :
    m'.entry? c' perm = none ↔ m.entry? c' perm = none := by
  rw [h.entries, turns]
  split
  · exact Option.map_eq_none_iff
  · rfl

theorem exists_entry? (h : (Edit.includeClass c).Changes m m') {c' perm : String} {x : Mapping}
    (hx : m.entry? c' perm = some x) :
    ∃ x', m'.entry? c' perm = some x' ∧ x'.direction = x.direction ∧ x'.weight = x.weight ∧
      (x'.enabled ↔ x.enabled ∨ c' = c) := by
  rw [h.entries, turns, hx]
  split
  next heq => exact ⟨_, rfl, rfl, rfl, by simp [heq]⟩
  next hne => exact ⟨x, rfl, rfl, rfl, by simp [hne]⟩

end Edit.Changes

section
variable (h : (Edit.includeClass c).Changes m m')
include h

theorem weightsOf_subset : m.weightsOf rule goes ⊆ m'.weightsOf rule goes := by
  rintro w ⟨perm, hperm, x, hx, henabled, hgoes, rfl⟩
  obtain ⟨x', hx', hdirection, hweight, henabled'⟩ := h.exists_entry? hx
  exact ⟨perm, hperm, x', hx', henabled'.mpr (Or.inl henabled), hdirection ▸ hgoes, by rw [hweight]⟩

/-- What weighs in a map with a class included weighed before or was excluded. -/
theorem isGreatest_weightsOf_iff {w : Nat} (hw : IsGreatest ({0} ∪ m.weightsOf rule goes) w) :
    IsGreatest ({0} ∪ m'.weightsOf rule goes) w ↔ m.Outweighs c rule goes w := by
  constructor
  · rintro hw' rfl perm hperm x hx - hgoes
    obtain ⟨x', hx', hdirection, hweight, henabled⟩ := h.exists_entry? hx
    refine hw'.2 (Or.inr ⟨perm, hperm, x', hx', henabled.mpr (Or.inr rfl), hdirection ▸ hgoes, ?_⟩)
    rw [hweight]
  · intro hout
    refine ⟨Set.union_subset_union_right _ (weightsOf_subset h) hw.1, ?_⟩
    rintro v (hzero | ⟨perm, hperm, x', hx', henabled', hgoes, rfl⟩)
    · exact hw.2 (Or.inl hzero)
    · cases hx : m.entry? rule.objectClass perm with
      | none =>
        rw [(h.entry?_eq_none_iff _ _).mpr hx] at hx'
        cases hx'
      | some x =>
        obtain ⟨x'', hx'', hdirection, hweight, henabled⟩ := h.exists_entry? hx
        cases hx'.symm.trans hx''
        rw [hdirection] at hgoes
        rw [hweight]
        by_cases hcounts : x.enabled
        · exact hw.2 (Or.inr ⟨perm, hperm, x, hx, hcounts, hgoes, rfl⟩)
        · have hclass : rule.objectClass = c := (henabled.mp henabled').resolve_left hcounts
          exact hout hclass perm hperm x (hclass ▸ hx) hcounts hgoes

theorem weigh_eq_error_of_changes {e : Error} (he : m.weigh rule = .error e) : m'.weigh rule = .error e := by
  by_cases hkind : rule.kind = .allow
  · obtain ⟨perm, hfirst, hmissing⟩ := (weigh_eq_error hkind).mp he
    refine (weigh_eq_error hkind).mpr ⟨perm, ⟨hfirst.mem, ?_, fun q hq hlt => ?_⟩, ?_⟩
    · exact (h.entry?_eq_none_iff _ _).mpr hfirst.missing
    · obtain ⟨x, hx⟩ := hfirst.first q hq hlt
      obtain ⟨x', hx', -⟩ := h.exists_entry? hx
      exact ⟨x', hx'⟩
    · rw [← hmissing, missing, missing, if_congr (h.mem_classes_iff _) rfl rfl]
  · rw [weigh, if_pos hkind] at he ⊢
    exact he

/-- A rule weighs the same just if nothing that was excluded is heavier. -/
theorem weigh_eq_iff_outweighs : m'.weigh rule = m.weigh rule ↔ ∀ w, m.weigh rule = .ok w →
    m.Outweighs c rule (fun d => d = .read ∨ d = .both) w.read ∧
      m.Outweighs c rule (fun d => d = .write ∨ d = .both) w.write := by
  cases hweigh : m.weigh rule with
  | error e => exact ⟨nofun, fun _ => weigh_eq_error_of_changes h hweigh⟩
  | ok w =>
    have hkind := kind_of_weigh hweigh
    obtain ⟨hread, hwrite⟩ := isGreatest_weigh hkind hweigh
    have hreads := isGreatest_weightsOf_iff h hread
    have hwrites := isGreatest_weightsOf_iff h hwrite
    constructor
    · rintro hweigh' _ ⟨⟩
      obtain ⟨hread', hwrite'⟩ := isGreatest_weigh hkind hweigh'
      exact ⟨hreads.mp hread', hwrites.mp hwrite'⟩
    · intro hout
      obtain ⟨hout, hout'⟩ := hout w rfl
      have hmaps : m'.Maps rule := by
        intro perm hperm
        obtain ⟨x, hx⟩ := (exists_weigh_iff hkind).mp ⟨w, hweigh⟩ perm hperm
        obtain ⟨x', hx', -⟩ := h.exists_entry? hx
        exact ⟨x', hx'⟩
      obtain ⟨w', hw'⟩ := (exists_weigh_iff hkind).mpr hmaps
      obtain ⟨hread', hwrite'⟩ := isGreatest_weigh hkind hw'
      have heq : w' = w := by
        obtain ⟨read, write⟩ := w
        obtain ⟨read', write'⟩ := w'
        cases hread'.unique (hreads.mpr hout)
        cases hwrite'.unique (hwrites.mpr hout')
        rfl
      rw [hw', heq]

end

def Edit.excludes (c : String) : Edit → Prop
  | .excludeClass c' | .excludePermission c' _ => c = c'
  | _ => False

theorem Included.of_changes {edit : Edit} (hm : m.Included c) (h : edit.Changes m m') (hedit : ¬ edit.excludes c) :
    m'.Included c := by
  intro perm x hx
  rw [h.entries] at hx
  cases edit with
  | excludeClass c' | excludePermission c' =>
    simp only [Edit.excludes] at hedit
    simp only [Edit.turns, hedit, false_and, if_false] at hx
    exact hm perm x hx
  | mapPolicy p =>
    rcases Option.or_eq_some_iff.mp hx with hx | ⟨-, hx⟩
    · exact hm perm x hx
    · rw [(added?_eq_some.mp hx).2]
      rfl
  | insert =>
    simp only [Edit.turns] at hx
    split at hx
    · cases hx
      rfl
    · exact hm perm x hx
  | includeClass | includePermission =>
    simp only [Edit.turns] at hx
    split at hx
    · obtain ⟨y, -, rfl⟩ := Option.map_eq_some_iff.mp hx
      rfl
    · exact hm perm x hx
  | setWeight | setDirection =>
    simp only [Edit.turns] at hx
    split at hx
    · obtain ⟨y, hy, rfl⟩ := Option.map_eq_some_iff.mp hx
      exact hm perm y hy
    · exact hm perm x hx

theorem Included.after {edits : List Edit} (hm : m.Included c) (built : ∀ edit ∈ edits, edit.Built)
    (hedits : ∀ edit ∈ edits, ¬ edit.excludes c) : (m.after edits).Included c := by
  refine List.foldlRecOn edits PermissionMap.next (motive := (Included · c)) hm fun m hm edit hedit => ?_
  rcases next_eq (built edit hedit) m with hsame | happly
  · rwa [hsame]
  · exact hm.of_changes (Edit.changes_of_apply happly) (hedits edit hedit)

theorem Edit.run_of_apply {edit : Edit} (built : edit.Built) (h : edit.apply m = .ok m') :
    edit.steps.run m = .ok () m' := by
  rw [run_steps built, h]
  rfl

/-- What is left of a map once a class has been excluded and then included again. -/
structure Reincludes (c : String) (m m' : PermissionMap) : Prop where
  succeeds : (do (Edit.excludeClass c).steps; (Edit.includeClass c).steps : Editing Unit).run m = .ok () m'
  /-- Nothing is left of the exclusion, but neither of any that was made before. -/
  changes : (Edit.includeClass c).Changes m m'
  eq_iff : m' = m ↔ m.Included c
  weigh_eq_iff : ∀ rule, m'.weigh rule = m.weigh rule ↔ ∀ w, m.weigh rule = .ok w →
    m.Outweighs c rule (fun d => d = .read ∨ d = .both) w.read ∧
      m.Outweighs c rule (fun d => d = .write ∨ d = .both) w.write

theorem exists_reincludes (hc : c ∈ m.classes) : ∃ m', Reincludes c m m' := by
  have hexists {m : PermissionMap} (change : Mapping → Mapping) (hc : c ∈ m.classes) :
      ∃ m', m.updateClass c change = .ok m' := by
    obtain ⟨perms, hperms⟩ := Option.isSome_iff_exists.mp (Std.ExtTreeMap.mem_iff_isSome_getElem?.mp hc)
    exact ⟨_, updateClass_eq_ok.mpr ⟨perms, hperms, rfl⟩⟩
  obtain ⟨m₁, hexclude⟩ : ∃ m₁, (Edit.excludeClass c).apply m = .ok m₁ := hexists _ hc
  have hc₁ : c ∈ m₁.classes := (mem_classes_updateClass hexclude).mpr hc
  obtain ⟨m', hinclude⟩ : ∃ m', (Edit.includeClass c).apply m₁ = .ok m' := hexists _ hc₁
  have hchanges : (Edit.includeClass c).Changes m m' :=
    (Edit.changes_of_apply hexclude).include_of_exclude (Edit.changes_of_apply hinclude)
  refine ⟨m', ?_, hchanges, hchanges.eq_iff, fun _ => weigh_eq_iff_outweighs hchanges⟩
  show EStateM.bind (Edit.excludeClass c).steps (fun _ => (Edit.includeClass c).steps) m = _
  have hrun : (Edit.excludeClass c).steps m = .ok () m₁ := Edit.run_of_apply nofun hexclude
  rw [EStateM.bind, hrun]
  exact Edit.run_of_apply nofun hinclude

/-- However a map has been edited, a class of it can be excluded and included again. The map is then as it was just if
no permission of the class had been excluded, as when no edit has excluded any. A rule weighs what it did just if no
permission of it that had been excluded is heavier than those that counted. -/
theorem after_exclude_include {start : PermissionMap} {edits : List Edit} (built : ∀ edit ∈ edits, edit.Built)
    (hc : c ∈ (start.after edits).classes) :
    ∃ m', Reincludes c (start.after edits) m' ∧
      (start.Included c → (∀ edit ∈ edits, ¬ edit.excludes c) → m' = start.after edits) := by
  obtain ⟨m', h⟩ := exists_reincludes hc
  exact ⟨m', h, fun hstart hedits => h.eq_iff.mpr (hstart.after built hedits)⟩

/-- One permission is excluded alone, and another class with all of its own. -/
def shelfEdits : List Edit := [
  .insert "drawer" "peek" .read 7,
  .mapPolicy drawer,
  .insert "shelf" "reach" .both 3,
  .excludeClass "shelf",
  .setDirection "drawer" "open" .write]

theorem exists_after_exclude_include_shelf :
    "drawer" ∈ (empty.after shelfEdits).classes ∧
      ∃ m', Reincludes "drawer" (empty.after shelfEdits) m' ∧ m' = empty.after shelfEdits := by
  have built : ∀ edit ∈ shelfEdits, edit.Built := by
    rintro _ hedit p rfl
    have hp : p = drawer := by simpa [shelfEdits] using hedit
    exact ⟨"drawer", drawerStatements, hp ▸ build_drawer⟩
  have hc : "drawer" ∈ (empty.after shelfEdits).classes := by decide +kernel
  have hincluded : empty.Included "drawer" := by
    intro perm x hx
    simp [empty, entry?] at hx
  obtain ⟨m', h, hsame⟩ := after_exclude_include built hc
  refine ⟨hc, m', h, hsame hincluded ?_⟩
  simp [shelfEdits, Edit.excludes]

/-- A map with a permission that is excluded alone. -/
def lockedDrawer : PermissionMap :=
  empty.after [.insert "drawer" "peek" .read 7, .excludePermission "drawer" "peek"]

/-- Once its class has been excluded and included, the permission counts again: the map is not what it was, and a rule
that weighed nothing weighs 7. -/
theorem not_restored_lockedDrawer :
    ∃ m', (do (Edit.excludeClass "drawer").steps; (Edit.includeClass "drawer").steps : Editing Unit).run lockedDrawer =
        .ok () m' ∧
      m' ≠ lockedDrawer ∧
      lockedDrawer.weigh ⟨.allow, "a_t", "b_t", "drawer", .ofList ["peek"], none⟩ = .ok ⟨0, 0⟩ ∧
      m'.weigh ⟨.allow, "a_t", "b_t", "drawer", .ofList ["peek"], none⟩ = .ok ⟨7, 0⟩ := by
  refine ⟨_, rfl, ?_, ?_, ?_⟩ <;> decide +kernel

end PolicyAnalysis.PermissionMap
