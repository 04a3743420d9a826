import Mathlib.Data.List.Induction
import PolicyAnalysis.Proofs.Policy.Types

/-!
# What a draft holds

A statement adds to a draft and takes nothing out of it. So a draft holds what each of its statements declares,
but for those that had nothing to act on, and these leave a fault.
-/

namespace PolicyAnalysis.Draft

variable {d d' : Draft} {s : Statement}

section
variable {α : Type} {test : α → Bool} {change : α → α} {l l' : List α}

theorem mem_updateFirst? (h : updateFirst? test change l = some l') {a : α} (ha : a ∈ l) :
    a ∈ l' ∨ change a ∈ l' := by
  induction l generalizing l' with
  | nil => cases ha
  | cons b l ih =>
    rw [updateFirst?] at h
    split at h
    · cases h
      grind
    · obtain ⟨l'', hl'', rfl⟩ := Option.map_eq_some_iff.mp h
      rcases List.mem_cons.mp ha with rfl | ha
      · exact Or.inl List.mem_cons_self
      · exact (ih hl'' ha).imp (List.mem_cons_of_mem b) (List.mem_cons_of_mem b)

theorem exists_mem_updateFirst? (h : updateFirst? test change l = some l') :
    ∃ a ∈ l, test a ∧ change a ∈ l' := by
  induction l generalizing l' with
  | nil => cases h
  | cons b l ih =>
    rw [updateFirst?] at h
    split at h
    next hb =>
      cases h
      exact ⟨b, List.mem_cons_self, hb, List.mem_cons_self⟩
    next =>
      obtain ⟨l'', hl'', rfl⟩ := Option.map_eq_some_iff.mp h
      obtain ⟨a, ha, htest, hchange⟩ := ih hl''
      exact ⟨a, List.mem_cons_of_mem b ha, htest, List.mem_cons_of_mem b hchange⟩

end

/-- The second draft holds all that the first does. Types may have got more aliases, and users their levels. -/
structure Grows (d d' : Draft) : Prop where
  fault : d'.fault = none → d.fault = none
  types : ∀ t ∈ d.types, ∃ t' ∈ d'.types, t'.name = t.name ∧ t'.attributes = t.attributes ∧
    ∀ name ∈ t.aliases, name ∈ t'.aliases
  attributes : ∀ name ∈ d.attributes, name ∈ d'.attributes
  roles : d.roles ⊆ d'.roles
  users : ∀ user ∈ d.users, ∃ user' ∈ d'.users, user'.name = user.name ∧ user'.roles = user.roles
  booleans : d.booleans ⊆ d'.booleans
  commons : d.commons ⊆ d'.commons
  classes : d.classes ⊆ d'.classes
  initialSids : d.initialSids ⊆ d'.initialSids

namespace Grows

theorem refl (d : Draft) : d.Grows d where
  fault h := h
  types t ht := ⟨t, ht, rfl, rfl, fun _ h => h⟩
  attributes _ h := h
  roles _ h := h
  users user huser := ⟨user, huser, rfl, rfl⟩
  booleans _ h := h
  commons _ h := h
  classes _ h := h
  initialSids _ h := h

theorem recordFault (d : Draft) (e : PolicyError) : d.Grows (d.recordFault e) := by
  refine { refl d with fault := fun h => ?_ }
  rw [Draft.recordFault, Option.or_eq_none_iff] at h
  exact h.1

theorem updateType (d : Draft) (name : String) {change : TypeSymbol → TypeSymbol}
    (hchange : ∀ t, (change t).name = t.name ∧ (change t).attributes = t.attributes ∧
      ∀ name ∈ t.aliases, name ∈ (change t).aliases) : d.Grows (d.updateType name change) := by
  rw [Draft.updateType]
  split
  next types htypes =>
    refine { refl d with types := fun t ht => ?_ }
    rcases mem_updateFirst? htypes ht with hmem | hmem
    · exact ⟨t, hmem, rfl, rfl, fun _ h => h⟩
    · exact ⟨change t, hmem, hchange t⟩
  next => exact recordFault d _

theorem addInitialSid (d : Draft) (name : String) (context : Context) : d.Grows (d.addInitialSid name context) :=
  { refl d with initialSids := List.subset_append_left _ _ }

theorem add (d : Draft) (s : Statement) : d.Grows (d.add s) := by
  match s with
  | .type name attributes =>
    refine { refl d with types := fun t ht => ?_, attributes := fun a ha => ?_ }
    · exact ⟨t, List.mem_append_left _ ht, rfl, rfl, fun _ h => h⟩
    · exact Std.ExtTreeSet.mem_union_of_left ha
  | .attribute name => exact { refl d with attributes := fun a ha => Std.ExtTreeSet.mem_insert.mpr (Or.inr ha) }
  | .alias type name =>
    exact updateType d type fun t => ⟨rfl, rfl, fun a ha => Std.ExtTreeSet.mem_insert.mpr (Or.inr ha)⟩
  | .permissive type => exact updateType d type fun t => ⟨rfl, rfl, fun _ h => h⟩
  | .role name types => exact { refl d with roles := List.subset_append_left _ _ }
  | .user name roles =>
    exact { refl d with users := fun user huser => ⟨user, List.mem_append_left _ huser, rfl, rfl⟩ }
  | .clearance name level range =>
    rw [Draft.add]
    split
    next users husers =>
      refine { refl d with users := fun user huser => ?_ }
      rcases mem_updateFirst? husers huser with hmem | hmem
      · exact ⟨user, hmem, rfl, rfl⟩
      · exact ⟨_, hmem, rfl, rfl⟩
    next => exact recordFault d _
  | .boolean name state => exact { refl d with booleans := List.subset_append_left _ _ }
  | .common name perms => exact { refl d with commons := List.subset_append_left _ _ }
  | .objectClass name common perms => exact { refl d with classes := List.subset_append_left _ _ }
  | .initialSid name context => exact addInitialSid d name context
  | .initialSidNumber number context =>
    rw [Draft.add]
    split
    · exact addInitialSid d _ context
    · exact recordFault d _
  | .properties _ | .sensitivity _ _ | .category _ _ | .level _ | .capability _ | .rule _ => exact { refl d with }

end Grows

def Holds (d : Draft) : Statement → Prop
  | .type name attributes => ∃ t ∈ d.types, t.name = name ∧ t.attributes = attributes
  | .attribute name => name ∈ d.attributes
  | .alias type name => ∃ t ∈ d.types, t.name = type ∧ name ∈ t.aliases
  | .role name types => ⟨name, types⟩ ∈ d.roles
  | .user name roles => ∃ user ∈ d.users, user.name = name ∧ user.roles = roles
  | .boolean name state => ⟨name, state⟩ ∈ d.booleans
  | .common name perms => ⟨name, perms⟩ ∈ d.commons
  | .objectClass name common perms => ⟨name, common, perms⟩ ∈ d.classes
  | .initialSid name context => ⟨name, context⟩ ∈ d.initialSids
  | .initialSidNumber number context => ∃ name ∈ initialSidName? number, ⟨name, context⟩ ∈ d.initialSids
  | _ => True

theorem Holds.mono (h : d.Holds s) (hgrows : d.Grows d') : d'.Holds s := by
  match s with
  | .type name attributes =>
    obtain ⟨t, ht, rfl, rfl⟩ := h
    obtain ⟨t', ht', hname, hattributes, -⟩ := hgrows.types t ht
    exact ⟨t', ht', hname, hattributes⟩
  | .attribute name => exact hgrows.attributes name h
  | .alias type name =>
    obtain ⟨t, ht, rfl, halias⟩ := h
    obtain ⟨t', ht', hname, -, haliases⟩ := hgrows.types t ht
    exact ⟨t', ht', hname, haliases name halias⟩
  | .role name types => exact hgrows.roles h
  | .user name roles =>
    obtain ⟨user, huser, rfl, rfl⟩ := h
    exact hgrows.users user huser
  | .boolean name state => exact hgrows.booleans h
  | .common name perms => exact hgrows.commons h
  | .objectClass name common perms => exact hgrows.classes h
  | .initialSid name context => exact hgrows.initialSids h
  | .initialSidNumber number context =>
    obtain ⟨name, hname, hmem⟩ := h
    exact ⟨name, hname, hgrows.initialSids hmem⟩
  | .properties _ | .permissive _ | .clearance _ _ _ | .sensitivity _ _ | .category _ _ | .level _ | .capability _
  | .rule _ => trivial

theorem fault_recordFault (d : Draft) (e : PolicyError) : (d.recordFault e).fault ≠ none := by
  rw [recordFault]
  cases d.fault <;> exact nofun

theorem holds_add (h : (d.add s).fault = none) : (d.add s).Holds s := by
  match s with
  | .type name attributes => exact ⟨_, List.mem_concat_self, rfl, rfl⟩
  | .attribute name => exact Std.ExtTreeSet.mem_insert_self
  | .alias type name =>
    rw [add, updateType] at h ⊢
    split at h
    next types htypes =>
      obtain ⟨t, ht, hname, hmem⟩ := exists_mem_updateFirst? htypes
      exact ⟨_, hmem, beq_iff_eq.mp hname, Std.ExtTreeSet.mem_insert_self⟩
    next => exact absurd h (fault_recordFault d _)
  | .role name types => exact List.mem_concat_self
  | .user name roles => exact ⟨_, List.mem_concat_self, rfl, rfl⟩
  | .boolean name state => exact List.mem_concat_self
  | .common name perms => exact List.mem_concat_self
  | .objectClass name common perms => exact List.mem_concat_self
  | .initialSid name context => exact List.mem_concat_self
  | .initialSidNumber number context =>
    rw [add] at h ⊢
    split at h
    next name hname =>
      exact ⟨name, hname, List.mem_concat_self⟩
    next => exact absurd h (fault_recordFault d _)
  | .properties _ | .permissive _ | .clearance _ _ _ | .sensitivity _ _ | .category _ _ | .level _ | .capability _
  | .rule _ => trivial

/-- What a statement declares is held by the draft once the statement has been added, and kept from then on. -/
theorem holds_ofStatements {name : String} {statements : List Statement}
    (h : (ofStatements name statements).fault = none) : ∀ s ∈ statements, (ofStatements name statements).Holds s := by
  rw [ofStatements] at h ⊢
  induction statements using List.reverseRecOn with
  | nil => exact nofun
  | append_singleton statements s ih =>
    rw [List.foldl_concat] at h ⊢
    have hgrows := Grows.add (statements.foldl add { name }) s
    intro s' hs'
    rcases List.mem_append.mp hs' with hs' | hs'
    · exact (ih (hgrows.fault h) s' hs').mono hgrows
    · rw [List.mem_singleton.mp hs']
      exact holds_add h

end PolicyAnalysis.Draft
