import PolicyAnalysis.Proofs.PermissionMap.Weights

/-!
# Entries of a changed map

A permission map is told by its classes and their entries. For each change of a map, this says which classes and
entries the changed map has.
-/

namespace PolicyAnalysis

/-- In a table that is changed at one key after the other, no key twice, each key is changed once. -/
theorem getElem?_foldl_alter {κ α β : Type} [Ord κ] [Std.TransOrd κ] [Std.LawfulEqOrd κ] {l : List (κ × α)}
    (hkeys : l.Pairwise fun e e' => compare e.1 e'.1 ≠ .eq) (change : α → Option β → Option β)
    (table : Std.ExtTreeMap κ β) (k : κ) :
    (∀ e ∈ l, e.1 = k →
      (l.foldl (fun table e => table.alter e.1 (change e.2)) table)[k]? = change e.2 table[k]?) ∧
    ((∀ e ∈ l, e.1 ≠ k) → (l.foldl (fun table e => table.alter e.1 (change e.2)) table)[k]? = table[k]?) := by
  induction l generalizing table with
  | nil => simp
  | cons e l ih =>
    obtain ⟨hhead, hkeys⟩ := List.pairwise_cons.mp hkeys
    obtain ⟨hchanged, hsame⟩ := ih hkeys (table.alter e.1 (change e.2))
    simp only [List.foldl_cons, List.forall_mem_cons]
    refine ⟨⟨?_, fun e' he' hk => ?_⟩, fun ⟨hne, hrest⟩ => ?_⟩
    · rintro rfl
      rw [hsame fun e' he' heq => hhead e' he' (heq ▸ Std.ReflCmp.compare_self), Std.ExtTreeMap.getElem?_alter_self]
    · rw [hchanged e' he' hk, Std.ExtTreeMap.getElem?_alter, if_neg (hk ▸ hhead e' he')]
    · rw [hsame hrest, Std.ExtTreeMap.getElem?_alter, if_neg fun heq => hne (Std.LawfulEqOrd.eq_of_compare heq)]

namespace PermissionMap

variable {m m' : PermissionMap} {c c' perm perm' : String} {x : Mapping}

theorem ext_entry? (hclasses : ∀ c, c ∈ m.classes ↔ c ∈ m'.classes)
    (hentries : ∀ c perm, m.entry? c perm = m'.entry? c perm) : m = m' := by
  obtain ⟨classes⟩ := m
  obtain ⟨classes'⟩ := m'
  refine congrArg PermissionMap.mk (Std.ExtTreeMap.ext_getElem? fun {c} => ?_)
  have hclass := hclasses c
  have hentry := hentries c
  unfold entry? at hentry
  simp only [Std.ExtTreeMap.mem_iff_isSome_getElem?] at hclass
  cases hperms : classes[c]? with
  | none =>
    rw [hperms] at hclass
    exact (Option.not_isSome_iff_eq_none.mp (hclass.not.mp Bool.false_ne_true)).symm
  | some perms =>
    rw [hperms] at hclass hentry
    obtain ⟨perms', hperms'⟩ := Option.isSome_iff_exists.mp (hclass.mp rfl)
    rw [hperms'] at hentry ⊢
    exact congrArg some (Std.ExtTreeMap.ext_getElem? fun {perm} => hentry perm)

theorem mem_classes_put : c' ∈ (m.put c perm x).classes ↔ c' ∈ m.classes ∨ c' = c := by
  rw [put, Std.ExtTreeMap.mem_alter]
  grind

theorem entry?_put :
    entry? (m.put c perm x) c' perm' = if c' = c ∧ perm' = perm then some x else m.entry? c' perm' := by
  unfold entry?
  rw [put, Std.ExtTreeMap.getElem?_alter]
  by_cases hc : c = c'
  · subst hc
    cases hperms : m.classes[c]? <;> simp [Std.ExtTreeMap.getElem?_insert, eq_comm (a := perm)]
  · simp [hc, Ne.symm hc]

theorem insert_eq_ok {direction : Direction} {weight : Int} :
    m.insert c perm direction weight = .ok m' ↔
      Weight.InRange weight ∧ m.put c perm ⟨direction, .ofNat weight.toNat, true⟩ = m' := by
  rw [insert, checkWeight]
  split <;> simp [*, bind, Except.bind, pure, Except.pure, liftM, monadLift, MonadLift.monadLift, Except.mapError]

theorem update_eq_ok {change : Mapping → Mapping} :
    m.update c perm change = .ok m' ↔ ∃ x, m.entry? c perm = some x ∧ m.put c perm (change x) = m' := by
  rw [update, mapping_eq]
  cases m.entry? c perm <;>
    simp [bind, Except.bind, pure, Except.pure, liftM, monadLift, MonadLift.monadLift, Except.mapError]

theorem entry?_update {change : Mapping → Mapping} (h : m.update c perm change = .ok m') :
    m'.entry? c' perm' = if c' = c ∧ perm' = perm then m.entry? c' perm' |>.map change else m.entry? c' perm' := by
  obtain ⟨x, hx, rfl⟩ := update_eq_ok.mp h
  rw [entry?_put]
  split
  next heq => rw [heq.1, heq.2, hx, Option.map_some]
  next => rfl

theorem mem_classes_of_entry? (h : m.entry? c perm = some x) : c ∈ m.classes := by
  obtain ⟨perms, hperms, -⟩ := Option.bind_eq_some_iff.mp h
  exact Std.ExtTreeMap.mem_iff_isSome_getElem?.mpr (hperms ▸ rfl)

theorem mem_classes_update {change : Mapping → Mapping} (h : m.update c perm change = .ok m') :
    c' ∈ m'.classes ↔ c' ∈ m.classes := by
  obtain ⟨x, hx, rfl⟩ := update_eq_ok.mp h
  rw [mem_classes_put, or_iff_left_iff_imp]
  rintro rfl
  exact mem_classes_of_entry? hx

theorem setWeight_eq_ok {weight : Int} :
    m.setWeight c perm weight = .ok m' ↔
      Weight.InRange weight ∧ m.update c perm (fun x => { x with weight := .ofNat weight.toNat }) = .ok m' := by
  rw [setWeight, checkWeight]
  split <;> simp [*, bind, Except.bind, liftM, monadLift, MonadLift.monadLift, Except.mapError]

theorem updateClass_eq_ok {change : Mapping → Mapping} :
    m.updateClass c change = .ok m' ↔ ∃ perms, m.classes[c]? = some perms ∧
      ⟨m.classes.insert c (perms.map fun _ => change)⟩ = m' := by
  rw [updateClass, PermissionMap.perms]
  cases m.classes[c]? <;>
    simp [bind, Except.bind, pure, Except.pure, liftM, monadLift, MonadLift.monadLift, Except.mapError]

theorem mem_classes_updateClass {change : Mapping → Mapping} (h : m.updateClass c change = .ok m') :
    c' ∈ m'.classes ↔ c' ∈ m.classes := by
  obtain ⟨perms, hperms, rfl⟩ := updateClass_eq_ok.mp h
  rw [Std.ExtTreeMap.mem_insert, or_iff_right_iff_imp]
  intro heq
  rw [← Std.LawfulEqOrd.eq_of_compare heq]
  exact Std.ExtTreeMap.mem_iff_isSome_getElem?.mpr (hperms ▸ rfl)

theorem entry?_updateClass {change : Mapping → Mapping} (h : m.updateClass c change = .ok m') :
    m'.entry? c' perm' = if c' = c then m.entry? c' perm' |>.map change else m.entry? c' perm' := by
  obtain ⟨perms, hperms, rfl⟩ := updateClass_eq_ok.mp h
  unfold entry?
  rw [Std.ExtTreeMap.getElem?_insert]
  by_cases hc : c = c'
  · subst hc
    simp [hperms]
  · simp [hc, Ne.symm hc]

theorem getElem?_complete (perms : NameTable Mapping) (names : NameSet) (perm : String) :
    (complete perms names)[perm]? = perms[perm]?.or (if perm ∈ names then some unknownMapping else none) := by
  have hall (l : List String) (perms : NameTable Mapping) :
      (l.foldl (fun perms name => perms.insertIfNew name unknownMapping) perms)[perm]? =
        perms[perm]?.or (if perm ∈ l then some unknownMapping else none) := by
    induction l generalizing perms with
    | nil => simp
    | cons name l ih =>
      rw [List.foldl_cons, ih, Std.ExtTreeMap.getElem?_insertIfNew]
      cases hname : perms[perm]? with
      | none => grind
      | some x => grind
  rw [complete, Std.ExtTreeSet.foldl_eq_foldl_toList, hall]
  simp only [Std.ExtTreeSet.mem_toList]

theorem getElem?_classes_mapPolicy (m : PermissionMap) (p : Policy) (c : String) :
    (m.mapPolicy p).classes[c]? =
      match p.classes[c]? with
      | some objectClass => some (complete (m.classes[c]?.getD ∅) (p.permsOf objectClass))
      | none => m.classes[c]? := by
  rw [mapPolicy, Std.ExtTreeMap.foldl_eq_foldl_toList]
  obtain ⟨hchanged, hsame⟩ := getElem?_foldl_alter p.classes.distinct_keys_toList
    (fun objectClass perms => some (complete (perms.getD ∅) (p.permsOf objectClass))) m.classes c
  cases hclass : p.classes[c]? with
  | some objectClass =>
    exact hchanged (c, objectClass) (Std.ExtTreeMap.mem_toList_iff_getElem?_eq_some.mpr hclass) rfl
  | none =>
    refine hsame fun e he heq => ?_
    rw [← heq, Std.ExtTreeMap.mem_toList_iff_getElem?_eq_some.mp he] at hclass
    cases hclass

/-- The entry that a policy adds for a permission that has none. -/
def added? (p : Policy) (objectClass perm : String) : Option Mapping :=
  match p.classPerms objectClass with
  | .ok perms => if perm ∈ perms then some unknownMapping else none
  | .error _ => none

theorem added?_eq_some {p : Policy} : added? p c perm = some x ↔
    (∃ perms, p.classPerms c = .ok perms ∧ perm ∈ perms) ∧ x = unknownMapping := by
  rw [added?]
  cases p.classPerms c <;> simp [eq_comm]

theorem entry?_mapPolicy (m : PermissionMap) (p : Policy) (c perm : String) :
    entry? (m.mapPolicy p) c perm = ( m.entry? c perm).or (added? p c perm) := by
  unfold entry?
  rw [added?, getElem?_classes_mapPolicy, Policy.classPerms, Policy.lookupClass]
  cases hclass : p.classes[c]? with
  | none => cases m.classes[c]? <;> simp [bind, Except.bind]
  | some objectClass =>
    cases m.classes[c]? <;> simp [getElem?_complete, bind, Except.bind, pure, Except.pure]

theorem mem_classes_mapPolicy (m : PermissionMap) (p : Policy) (c : String) :
    c ∈ (m.mapPolicy p).classes ↔ c ∈ m.classes ∨ c ∈ p.classes := by
  simp only [Std.ExtTreeMap.mem_iff_isSome_getElem?, getElem?_classes_mapPolicy]
  cases p.classes[c]? <;> simp

end PermissionMap

end PolicyAnalysis
