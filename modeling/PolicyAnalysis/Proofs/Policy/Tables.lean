import PolicyAnalysis.Proofs.Keyed
import PolicyAnalysis.Proofs.Policy.Types

/-!
# Tables of a built policy

The tables of symbols of a built policy are filled one entry after the other, each under the name of the
symbol that it is for. What a role stands for has been looked up when it was added, so it can be looked up
in the finished policy.
-/

namespace PolicyAnalysis

open Checked

variable {d : Draft} {p q : Policy}

namespace Policy

/-- Symbols stand under their names, and roles stand for names that are declared. -/
structure Filed (p : Policy) : Prop where
  attributes : Keyed Attribute.name p.attributes
  roles : Keyed Role.name p.roles
  users : Keyed User.name p.users
  booleans : Keyed Boolean.name p.booleans
  commons : Keyed CommonPerms.name p.commons
  classes : Keyed ObjectClass.name p.classes
  initialSids : Keyed InitialSid.name p.initialSids
  expands : ∀ role ∈ p.roles.values, ∀ name ∈ role.types, ∃ ids, p.expand name = .ok ids

/-- Whether a class has a permission, of its own or of those that it shares. -/
def HasPerm (p : Policy) (objectClass perm : String) : Prop :=
  ∃ c, p.classes[objectClass]? = some c ∧
    (perm ∈ c.perms ∨ ∃ name ∈ c.common, ∃ common, p.commons[name]? = some common ∧ perm ∈ common.perms)

theorem mem_permsOf {c : ObjectClass} {perm : String} : perm ∈ p.permsOf c ↔
    perm ∈ c.perms ∨ ∃ name ∈ c.common, ∃ common, p.commons[name]? = some common ∧ perm ∈ common.perms := by
  rw [permsOf]
  cases c.common with
  | none => simp
  | some name => cases hcommon : p.commons[name]? <;> simp [hcommon]

theorem insertUnique_eq_ok {α : Type} {table table' : NameTable α} {name : String} {a : α} :
    insertUnique table name a = .ok table' ↔ name ∉ table ∧ table.insert name a = table' := by
  rw [insertUnique]
  by_cases h : name ∈ table
  · simp [h]
  · simp [h]

theorem keyed_insertUnique {α : Type} {key : α → String} {table table' : NameTable α} {a : α}
    (h : Keyed key table) (hinsert : insertUnique table (key a) a = .ok table') : Keyed key table' := by
  obtain ⟨-, rfl⟩ := insertUnique_eq_ok.mp hinsert
  exact h.insert a

theorem forall_mem_values_insertUnique {α : Type} {P : α → Prop} {table table' : NameTable α} {name : String}
    {a : α} (h : ∀ b ∈ table.values, P b) (ha : P a) (hinsert : insertUnique table name a = .ok table') :
    ∀ b ∈ table'.values, P b := by
  obtain ⟨-, rfl⟩ := insertUnique_eq_ok.mp hinsert
  intro b hb
  obtain ⟨k, hk⟩ := mem_values.mp hb
  rw [Std.ExtTreeMap.getElem?_insert] at hk
  split at hk
  next =>
    cases hk
    exact ha
  next => exact h b (mem_values.mpr ⟨k, hk⟩)

namespace Filed

theorem addRole {role : Role} (h : p.Filed) (hq : p.addRole role = .ok q) : q.Filed := by
  simp only [Policy.addRole, bind_eq_ok, pure_eq_ok, forM_eq_ok, discard_eq_ok] at hq
  obtain ⟨⟨⟩, htypes, roles, hroles, rfl⟩ := hq
  refine { h with roles := keyed_insertUnique h.roles hroles, expands := ?_ }
  refine forall_mem_values_insertUnique h.expands ?_ hroles
  intro name hname
  exact htypes name (Std.ExtTreeSet.mem_toList.mpr hname)

theorem addUser {user : User} (h : p.Filed) (hq : p.addUser user = .ok q) : q.Filed := by
  simp only [Policy.addUser, bind_eq_ok, pure_eq_ok] at hq
  obtain ⟨-, -, level, -, range, -, users, husers, rfl⟩ := hq
  have hkeyed := keyed_insertUnique (a := { user with level, range }) h.users husers
  exact { h with users := hkeyed }

theorem addBoolean {boolean : Boolean} (h : p.Filed) (hq : p.addBoolean boolean = .ok q) : q.Filed := by
  simp only [Policy.addBoolean, bind_eq_ok, pure_eq_ok] at hq
  obtain ⟨booleans, hbooleans, rfl⟩ := hq
  exact { h with booleans := keyed_insertUnique h.booleans hbooleans }

theorem addCommon {common : CommonPerms} (h : p.Filed) (hq : p.addCommon common = .ok q) : q.Filed := by
  simp only [Policy.addCommon, bind_eq_ok, pure_eq_ok] at hq
  obtain ⟨commons, hcommons, rfl⟩ := hq
  exact { h with commons := keyed_insertUnique h.commons hcommons }

theorem addClass {objectClass : ObjectClass} (h : p.Filed) (hq : p.addClass objectClass = .ok q) :
    q.Filed := by
  obtain ⟨classes, hclasses, rfl⟩ := insertUnique_of_addClass hq
  exact { h with classes := keyed_insertUnique h.classes hclasses }

theorem addInitialSid {sid : InitialSid} (h : p.Filed) (hq : p.addInitialSid sid = .ok q) : q.Filed := by
  simp only [Policy.addInitialSid, bind_eq_ok, pure_eq_ok] at hq
  obtain ⟨context, -, initialSids, hinitialSids, rfl⟩ := hq
  have hkeyed := keyed_insertUnique (a := { sid with context }) h.initialSids hinitialSids
  exact { h with initialSids := hkeyed }

end Filed

theorem keyed_attributeTable (d : Draft) : Keyed Attribute.name d.attributeTable := by
  intro k a ha
  rw [getElem?_attributeTable] at ha
  split at ha
  · cases ha
    rfl
  · cases ha

theorem filed_start (d : Draft) (types : List TypeSymbol) : ({ d.start with types } : Policy).Filed where
  attributes := keyed_attributeTable d
  roles := by simp [Keyed, Draft.start, Draft.ofTables]
  users := by simp [Keyed, Draft.start, Draft.ofTables]
  booleans := by simp [Keyed, Draft.start, Draft.ofTables]
  commons := by simp [Keyed, Draft.start, Draft.ofTables]
  classes := by simp [Keyed, Draft.start, Draft.ofTables]
  initialSids := by simp [Keyed, Draft.start, Draft.ofTables]
  expands := by simp [mem_values, Draft.start, Draft.ofTables]

theorem filed_of_build (h : d.build = .ok p) : p.Filed := by
  obtain ⟨-, p₁, p₂, p₃, p₄, p₅, p₆, p₇, levels, h₁, h₂, h₃, h₄, h₅, h₆, -, h₇, -, hp⟩ :=
    Draft.build_stages h
  have f₁ : p₁.Filed := eq_of_foldlM_addType h₁ ▸ filed_start d _
  have f₂ := foldlM_induction Filed h₂ f₁ fun _ _ _ _ => Filed.addRole
  have f₃ := foldlM_induction Filed h₃ f₂ fun _ _ _ _ => Filed.addUser
  have f₄ := foldlM_induction Filed h₄ f₃ fun _ _ _ _ => Filed.addBoolean
  have f₅ := foldlM_induction Filed h₅ f₄ fun _ _ _ _ => Filed.addCommon
  have f₆ := foldlM_induction Filed h₆ f₅ fun _ _ _ _ => Filed.addClass
  have f₇ := foldlM_induction Filed h₇ { f₆ with } fun _ _ _ _ => Filed.addInitialSid
  rw [hp]
  exact { f₇ with }

end Policy

end PolicyAnalysis
