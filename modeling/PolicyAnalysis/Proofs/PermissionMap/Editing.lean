import PolicyAnalysis.PermissionMap.Document
import PolicyAnalysis.PermissionMap.Editing
import PolicyAnalysis.Proofs.PermissionMap.Entries
import PolicyAnalysis.Proofs.Policy.Tables

/-!
# Runs of edits

An edit either fails and leaves the map as it was, or changes the entries that it is about and no others. No edit
stores a weight off the scale, and reading a map refuses one, so a weight of 0 always means that nothing flows.
-/

namespace PolicyAnalysis.PermissionMap

open Checked

variable {m m' : PermissionMap} {c c' perm perm' : String} {x : Mapping}

/-- What is left of a map by steps that make the whole change or none of it. -/
def allOrNothing (m : PermissionMap) : Except Error PermissionMap → EStateM.Result Error PermissionMap Unit
  | .ok m' => .ok () m'
  | .error e => .error e m

namespace Editing

section
variable {κ β : Type} [Ord κ] [Std.TransOrd κ] [Std.LawfulEqOrd κ] {table : Std.ExtTreeMap κ β} {k : κ} {b : β}

theorem alter_eq_insert (table : Std.ExtTreeMap κ β) (k : κ) (change : Option β → β) :
    table.alter k (fun x => some (change x)) = table.insert k (change table[k]?) := by
  refine Std.ExtTreeMap.ext_getElem? fun {k'} => ?_
  rw [Std.ExtTreeMap.getElem?_alter, Std.ExtTreeMap.getElem?_insert]

theorem modify_eq_insert (hk : table[k]? = some b) (change : β → β) :
    table.modify k change = table.insert k (change b) := by
  refine Std.ExtTreeMap.ext_getElem? fun {k'} => ?_
  rw [Std.ExtTreeMap.getElem?_modify, Std.ExtTreeMap.getElem?_insert, hk]
  rfl

/-- Putting in what is missing is an alteration as well, so it can be put together with what follows. -/
theorem insertIfNew_eq_alter (table : Std.ExtTreeMap κ β) (k : κ) (b : β) :
    table.insertIfNew k b = table.alter k fun x => some (x.getD b) := by
  refine Std.ExtTreeMap.ext_getElem? fun {k'} => ?_
  rw [Std.ExtTreeMap.getElem?_insertIfNew, Std.ExtTreeMap.getElem?_alter]
  cases hk : table[k]? <;> grind

theorem modify_alter (table : Std.ExtTreeMap κ β) (k : κ) (change : Option β → Option β) (change' : β → β) :
    (table.alter k change).modify k change' = table.alter k fun x => (change x).map change' := by
  refine Std.ExtTreeMap.ext_getElem? fun {k'} => ?_
  rw [Std.ExtTreeMap.getElem?_modify, Std.ExtTreeMap.getElem?_alter_self, Std.ExtTreeMap.getElem?_alter,
    Std.ExtTreeMap.getElem?_alter]
  split <;> rfl

end

theorem run_forM {α : Type} {step : α → Editing Unit} {change : PermissionMap → α → PermissionMap} {l : List α}
    (hstep : ∀ a ∈ l, ∀ m, (step a).run m = .ok () (change m a)) (m : PermissionMap) :
    (l.forM step).run m = .ok () (l.foldl change m) := by
  induction l generalizing m with
  | nil => rfl
  | cons a l ih =>
    obtain ⟨ha, hl⟩ := List.forall_mem_cons.mp hstep
    have ha : step a m = .ok () (change m a) := ha m
    have hrun : ((a :: l).forM step).run m = (l.forM step).run (change m a) := by
      show EStateM.bind (step a) (fun _ => l.forM step) m = _
      rw [EStateM.bind, ha]
      rfl
    rw [hrun]
    exact ih hl (change m a)

theorem run_insert (m : PermissionMap) (c perm : String) (direction : Direction) (weight : Int) :
    (Edit.insert c perm direction weight).steps.run m = allOrNothing m (m.insert c perm direction weight) := by
  rw [Edit.steps, insert]
  cases checkWeight weight with
  | error e => rfl
  | ok weight =>
    show EStateM.Result.ok () (⟨(m.classes.insertIfNew c ∅).modify c _⟩ : PermissionMap) = _
    rw [insertIfNew_eq_alter, modify_alter]
    rfl

theorem run_modifyMapping (m : PermissionMap) (c perm : String) (change : Mapping → Mapping) :
    (modifyMapping c perm change).run m = allOrNothing m (m.update c perm change) := by
  have hrun : (modifyMapping c perm change).run m = match m.mapping c perm with
      | .ok _ => .ok () ⟨m.classes.modify c (·.modify perm change)⟩
      | .error e => .error (.permissionMap e) m := by
    show (do discard (liftM (m.mapping c perm)); modifyPerms c (·.modify perm change) : Editing Unit).run m = _
    cases m.mapping c perm <;> rfl
  rw [hrun, update]
  cases hmapping : m.mapping c perm with
  | error e => rfl
  | ok x =>
    obtain ⟨perms, hperms, hx⟩ := Option.bind_eq_some_iff.mp (mapping_eq_ok.mp hmapping)
    show _ = EStateM.Result.ok () (m.put c perm (change x))
    rw [put, modify_eq_insert hperms, modify_eq_insert hx, alter_eq_insert, hperms]
    rfl

theorem run_modifyClass (m : PermissionMap) (c : String) (change : Mapping → Mapping) :
    (modifyClass c change).run m = allOrNothing m (m.updateClass c change) := by
  have hrun : (modifyClass c change).run m = match m.perms c with
      | .ok _ => .ok () ⟨m.classes.modify c (·.map fun _ => change)⟩
      | .error e => .error (.permissionMap e) m := by
    show (do discard (liftM (m.perms c)); modifyPerms c (·.map fun _ => change) : Editing Unit).run m = _
    cases m.perms c <;> rfl
  rw [hrun, updateClass, PermissionMap.perms]
  cases hperms : m.classes[c]? with
  | none => rfl
  | some perms =>
    show _ = EStateM.Result.ok () (⟨m.classes.insert c (perms.map fun _ => change)⟩ : PermissionMap)
    rw [modify_eq_insert hperms]

theorem run_addPerms (m : PermissionMap) (c : String) (perms : NameSet) :
    (perms.toList.forM fun perm => modifyPerms c (·.insertIfNew perm unknownMapping)).run
        ⟨m.classes.insertIfNew c ∅⟩ =
      .ok () ⟨m.classes.alter c fun x => some (complete (x.getD ∅) perms)⟩ := by
  refine (run_forM (fun _ _ _ => rfl) _).trans (congrArg _ ?_)
  simp only [complete, Std.ExtTreeSet.foldl_eq_foldl_toList]
  induction perms.toList using List.reverseRecOn with
  | nil => exact congrArg PermissionMap.mk (insertIfNew_eq_alter m.classes c ∅)
  | append_singleton l perm ih =>
    simp only [List.foldl_concat]
    rw [ih, modify_alter]
    rfl

theorem run_addPolicy {d : Draft} {p : Policy} (h : d.build = .ok p) (m : PermissionMap) :
    (addPolicy p).run m = .ok () (m.mapPolicy p) := by
  have hkeyed := (Policy.filed_of_build h).classes
  have hstep (objectClass : ObjectClass) (hmem : objectClass ∈ p.classes.values) (m : PermissionMap) :
      (do
        let perms ← p.classPerms objectClass.name
        openClass objectClass.name
        perms.toList.forM fun perm => modifyPerms objectClass.name (·.insertIfNew perm unknownMapping)
        : Editing Unit).run m =
      .ok () ⟨m.classes.alter objectClass.name fun x => some (complete (x.getD ∅) (p.permsOf objectClass))⟩ := by
    have hperms : p.classPerms objectClass.name = .ok (p.permsOf objectClass) := by
      rw [Policy.classPerms, Policy.lookupClass, hkeyed.mem_values_iff.mp hmem]
      rfl
    rw [hperms]
    exact run_addPerms m objectClass.name (p.permsOf objectClass)
  refine (run_forM hstep m).trans (congrArg _ ?_)
  rw [mapPolicy, values_eq_map_toList, List.foldl_map, Std.ExtTreeMap.foldl_eq_foldl_toList]
  -- Every class of a built policy is looked up under its own name, so it makes no difference which name is used.
  let add (m : PermissionMap) (e : String × ObjectClass) : PermissionMap :=
    ⟨m.classes.alter e.1 fun x => some (complete (x.getD ∅) (p.permsOf e.2))⟩
  refine Eq.trans ?_ (List.foldl_hom PermissionMap.mk fun classes e => (rfl : add ⟨classes⟩ e = _))
  refine List.foldl_ext _ _ _ fun m e he => ?_
  rw [hkeyed e.1 e.2 (Std.ExtTreeMap.mem_toList_iff_getElem?_eq_some.mp he)]

end Editing

namespace Edit

def Built (edit : Edit) : Prop :=
  ∀ p, edit = .mapPolicy p → ∃ name statements, Policy.build name statements = .ok p

/-- What an edit makes of the entry of a permission. -/
def turns (c' perm' : String) (x : Option Mapping) : Edit → Option Mapping
  | .insert c perm direction weight =>
    if c' = c ∧ perm' = perm then some ⟨direction, .ofNat weight.toNat, true⟩ else x
  | .setWeight c perm weight =>
    if c' = c ∧ perm' = perm then x.map fun x => { x with weight := .ofNat weight.toNat } else x
  | .setDirection c perm direction =>
    if c' = c ∧ perm' = perm then x.map fun x => { x with direction } else x
  | .excludeClass c => if c' = c then x.map fun x => { x with enabled := false } else x
  | .includeClass c => if c' = c then x.map fun x => { x with enabled := true } else x
  | .excludePermission c perm =>
    if c' = c ∧ perm' = perm then x.map fun x => { x with enabled := false } else x
  | .includePermission c perm =>
    if c' = c ∧ perm' = perm then x.map fun x => { x with enabled := true } else x
  | .mapPolicy p => x.or (added? p c' perm')

/-- Whether a class is there after an edit even if it was not before. -/
def opens (c' : String) : Edit → Prop
  | .insert c _ _ _ => c' = c
  | .mapPolicy p => c' ∈ p.classes
  | _ => False

/-- The second map has what an edit makes of the first. -/
structure Changes (edit : Edit) (m m' : PermissionMap) : Prop where
  classes : ∀ c, c ∈ m'.classes ↔ c ∈ m.classes ∨ edit.opens c
  entries : ∀ c perm, m'.entry? c perm = edit.turns c perm ( m.entry? c perm)

variable {edit : Edit}

theorem run_steps (h : edit.Built) (m : PermissionMap) : edit.steps.run m = allOrNothing m (edit.apply m) := by
  cases edit with
  | insert c perm direction weight => exact Editing.run_insert m c perm direction weight
  | setWeight c perm weight =>
    rw [steps, apply, PermissionMap.setWeight]
    cases checkWeight weight with
    | error e => rfl
    | ok weight => exact Editing.run_modifyMapping m c perm fun x => { x with weight }
  | setDirection c perm | excludePermission c perm | includePermission c perm =>
    exact Editing.run_modifyMapping m c perm _
  | excludeClass c | includeClass c => exact Editing.run_modifyClass m c _
  | mapPolicy p =>
    obtain ⟨name, statements, hp⟩ := h p rfl
    exact Editing.run_addPolicy hp m

theorem changes_of_apply (h : edit.apply m = .ok m') : edit.Changes m m' := by
  cases edit with
  | insert c perm direction weight =>
    obtain ⟨-, rfl⟩ := insert_eq_ok.mp h
    exact ⟨fun _ => mem_classes_put, fun _ _ => entry?_put⟩
  | setWeight c perm weight =>
    have h := (setWeight_eq_ok.mp h).2
    exact ⟨fun _ => (mem_classes_update h).trans (iff_of_eq (or_false _)).symm, fun _ _ => entry?_update h⟩
  | setDirection | excludePermission | includePermission =>
    exact ⟨fun _ => (mem_classes_update h).trans (iff_of_eq (or_false _)).symm, fun _ _ => entry?_update h⟩
  | excludeClass | includeClass =>
    exact ⟨fun _ => (mem_classes_updateClass h).trans (iff_of_eq (or_false _)).symm, fun _ _ => entry?_updateClass h⟩
  | mapPolicy p =>
    cases h
    exact ⟨mem_classes_mapPolicy m p, entry?_mapPolicy m p⟩

end Edit

def InScale (m : PermissionMap) : Prop :=
  ∀ c perm x, m.entry? c perm = some x → Weight.InRange x.weight.toNat

theorem inRange_toNat_ofNat {weight : Int} (h : Weight.InRange weight) :
    Weight.InRange (UInt8.ofNat weight.toNat).toNat := by
  simp only [Weight.InRange, Weight.min, Weight.max] at h
  have heq : ((UInt8.ofNat weight.toNat).toNat : Int) = weight := by
    rw [UInt8.toNat_ofNat']
    omega
  rw [heq]
  exact h

theorem checkWeight_eq_ok {weight : Int} {weight' : UInt8} :
    checkWeight weight = .ok weight' ↔ Weight.InRange weight ∧ .ofNat weight.toNat = weight' := by
  rw [checkWeight]
  split <;> simp [*]

theorem inScale_empty : InScale empty := by
  intro c perm x hx
  simp [empty, entry?] at hx

theorem inScale_of_ofText {text : String} (h : ofText text = .ok m) : m.InScale := by
  rw [ofText] at h
  split at h
  next classes _ =>
    obtain ⟨⟨⟩, hcheck, hm⟩ := bind_eq_ok.mp h
    cases pure_eq_ok.mp hm
    intro c perm x hx
    obtain ⟨perms, hperms, hx⟩ := Option.bind_eq_some_iff.mp hx
    have hclass := forM_eq_ok.mp hcheck perms (mem_values.mpr ⟨c, hperms⟩)
    obtain ⟨weight, hweight⟩ := discard_eq_ok.mp (forM_eq_ok.mp hclass x (mem_values.mpr ⟨perm, hx⟩))
    exact (checkWeight_eq_ok.mp (mapError_eq_ok.mp hweight)).1
  next => cases h

namespace InScale

theorem put (hm : m.InScale) (hx : Weight.InRange x.weight.toNat) : (m.put c perm x).InScale := by
  intro c' perm' y hy
  rw [entry?_put] at hy
  split at hy
  · cases hy
    exact hx
  · exact hm c' perm' y hy

theorem update {change : Mapping → Mapping} (hm : m.InScale) (h : m.update c perm change = .ok m')
    (hchange : ∀ x, Weight.InRange x.weight.toNat → Weight.InRange (change x).weight.toNat) : m'.InScale := by
  obtain ⟨x, hx, rfl⟩ := update_eq_ok.mp h
  exact hm.put (hchange x (hm c perm x hx))

theorem updateClass {change : Mapping → Mapping} (hm : m.InScale) (h : m.updateClass c change = .ok m')
    (hchange : ∀ x, Weight.InRange x.weight.toNat → Weight.InRange (change x).weight.toNat) : m'.InScale := by
  intro c' perm' y hy
  rw [entry?_updateClass h] at hy
  split at hy
  · obtain ⟨x, hx, rfl⟩ := Option.map_eq_some_iff.mp hy
    exact hchange x (hm c' perm' x hx)
  · exact hm c' perm' y hy

theorem mapPolicy (hm : m.InScale) (p : Policy) : (m.mapPolicy p).InScale := by
  intro c perm x hx
  rw [entry?_mapPolicy, Option.or_eq_some_iff] at hx
  rcases hx with hx | ⟨-, hx⟩
  · exact hm c perm x hx
  · rw [(added?_eq_some.mp hx).2]
    decide

theorem apply {edit : Edit} (hm : m.InScale) (h : edit.apply m = .ok m') : m'.InScale := by
  cases edit with
  | insert c perm direction weight =>
    obtain ⟨hweight, rfl⟩ := insert_eq_ok.mp h
    exact hm.put (inRange_toNat_ofNat hweight)
  | setWeight c perm weight =>
    obtain ⟨hweight, h⟩ := setWeight_eq_ok.mp h
    exact hm.update h fun _ _ => inRange_toNat_ofNat hweight
  | setDirection | excludePermission | includePermission => exact hm.update h fun _ hx => hx
  | excludeClass | includeClass => exact hm.updateClass h fun _ hx => hx
  | mapPolicy p =>
    cases h
    exact hm.mapPolicy p

end InScale

theorem next_eq {edit : Edit} (h : edit.Built) (m : PermissionMap) :
    m.next edit = m ∨ edit.apply m = .ok (m.next edit) := by
  rw [next, Edit.run_steps h]
  cases edit.apply m with
  | error e => exact Or.inl rfl
  | ok m' => exact Or.inr rfl

theorem InScale.after {edits : List Edit} (hm : m.InScale) (built : ∀ edit ∈ edits, edit.Built) :
    (m.after edits).InScale := by
  refine List.foldlRecOn edits PermissionMap.next (motive := InScale) hm fun m hm edit hedit => ?_
  rcases next_eq (built edit hedit) m with hsame | happly
  · rwa [hsame]
  · exact hm.apply happly

/-- An edit that succeeds changes what it is to change, and one that fails leaves the map as it was. -/
def Edit.Atomic (edit : Edit) (m : PermissionMap) : Prop :=
  match edit.steps.run m with
  | .ok _ m' => edit.Changes m m'
  | .error _ m' => m' = m

theorem Edit.atomic {edit : Edit} (h : edit.Built) (m : PermissionMap) : edit.Atomic m := by
  rw [Edit.Atomic, Edit.run_steps h]
  cases happly : edit.apply m with
  | error e => rfl
  | ok m' => exact Edit.changes_of_apply happly

/-- Whether an enabled permission of a rule goes in one of some directions. -/
def Flows (m : PermissionMap) (rule : AccessRule) (goes : Direction → Prop) : Prop :=
  ∃ perm ∈ rule.perms, ∃ x, m.entry? rule.objectClass perm = some x ∧ x.enabled ∧ goes x.direction

/-- The weights of a rule are 0 or on the scale, and 0 just if nothing flows. -/
structure Faithful (m : PermissionMap) (rule : AccessRule) (w : Weights) : Prop where
  read_le : w.read ≤ Weight.max
  write_le : w.write ≤ Weight.max
  read_eq_zero_iff : w.read = 0 ↔ ¬ m.Flows rule fun d => d = .read ∨ d = .both
  write_eq_zero_iff : w.write = 0 ↔ ¬ m.Flows rule fun d => d = .write ∨ d = .both

theorem InScale.isGreatest {rule : AccessRule} {goes : Direction → Prop} {w : Nat} (hm : m.InScale)
    (h : IsGreatest ({0} ∪ m.weightsOf rule goes) w) : w ≤ Weight.max ∧ (w = 0 ↔ ¬ m.Flows rule goes) := by
  have hscale {v : Nat} (hv : v ∈ m.weightsOf rule goes) : Weight.min ≤ v ∧ v ≤ Weight.max := by
    obtain ⟨perm, -, x, hx, -, -, rfl⟩ := hv
    have hrange := hm rule.objectClass perm x hx
    exact ⟨Int.ofNat_le.mp hrange.1, Int.ofNat_le.mp hrange.2⟩
  obtain ⟨hmem, hbound⟩ := h
  constructor
  · rcases hmem with hzero | hmem
    · rw [hzero]
      exact Nat.zero_le _
    · exact (hscale hmem).2
  · constructor
    · rintro hzero ⟨perm, hperm, x, hx, henabled, hgoes⟩
      have hweight : x.weight.toNat ∈ m.weightsOf rule goes := ⟨perm, hperm, x, hx, henabled, hgoes, rfl⟩
      have hpos : 1 ≤ x.weight.toNat := (hscale hweight).1
      have hle := hbound (Or.inr hweight)
      omega
    · intro hnone
      rcases hmem with hzero | ⟨perm, hperm, x, hx, henabled, hgoes, -⟩
      · exact hzero
      · exact absurd ⟨perm, hperm, x, hx, henabled, hgoes⟩ hnone

theorem InScale.faithful {rule : AccessRule} {w : Weights} (hm : m.InScale) (h : m.weigh rule = .ok w) :
    m.Faithful rule w := by
  obtain ⟨hread, hwrite⟩ := isGreatest_weigh (kind_of_weigh h) h
  obtain ⟨hread_le, hread_zero⟩ := hm.isGreatest hread
  obtain ⟨hwrite_le, hwrite_zero⟩ := hm.isGreatest hwrite
  exact ⟨hread_le, hwrite_le, hread_zero, hwrite_zero⟩

/-- However a map is edited, failing edits included, its weights stay on the scale, each further edit changes what
it is to change or nothing, and a rule is weighed 0 only where nothing flows. -/
theorem sound_after {edits : List Edit} (start : m = empty ∨ ∃ text, ofText text = .ok m)
    (built : ∀ edit ∈ edits, edit.Built) :
    (m.after edits).InScale ∧
      (∀ edit : Edit, edit.Built → edit.Atomic (m.after edits)) ∧
      ∀ rule w, (m.after edits).weigh rule = .ok w → (m.after edits).Faithful rule w := by
  have hm : m.InScale := by
    rcases start with rfl | ⟨text, htext⟩
    · exact inScale_empty
    · exact inScale_of_ofText htext
  have hafter := hm.after built
  exact ⟨hafter, fun edit hedit => Edit.atomic hedit _, fun rule w hw => hafter.faithful hw⟩

def drawerStatements : List Statement := [
  .objectClass "drawer" none (.ofList ["open", "peek"])]

def drawer : Policy :=
  match Policy.build "drawer" drawerStatements with
  | .ok p => p
  | .error _ => (Draft.ofStatements "drawer" []).start

theorem build_drawer : Policy.build "drawer" drawerStatements = .ok drawer := by rfl

/-- The third edit fails, as its weight is off the scale, and so does the last, as there is no such class. -/
def drawerEdits : List Edit := [
  .insert "drawer" "peek" .read 7,
  .mapPolicy drawer,
  .setWeight "drawer" "open" 11,
  .excludeClass "shelf"]

theorem sound_after_drawerEdits :
    entry? (empty.after drawerEdits) "drawer" "open" = some unknownMapping ∧ (empty.after drawerEdits).InScale ∧
      ∀ rule w, (empty.after drawerEdits).weigh rule = .ok w → (empty.after drawerEdits).Faithful rule w := by
  have built : ∀ edit ∈ drawerEdits, edit.Built := by
    rintro _ hedit p rfl
    have hp : p = drawer := by simpa [drawerEdits] using hedit
    exact ⟨"drawer", drawerStatements, hp ▸ build_drawer⟩
  obtain ⟨hscale, -, hfaithful⟩ := sound_after (Or.inl rfl) built
  exact ⟨by decide +kernel, hscale, hfaithful⟩

end PolicyAnalysis.PermissionMap
