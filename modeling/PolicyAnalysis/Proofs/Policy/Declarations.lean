import PolicyAnalysis.Proofs.Policy.Tables

/-!
# Names declared twice

A build takes up the declarations of its draft one after the other. It checks first that what the declaration
uses is there, then that no other symbol of the kind has one of its names. So it fails with the first name
that is declared twice, unless a declaration up to that one uses something that is not there.
-/

namespace PolicyAnalysis

open Checked

variable {d : Draft} {p q : Policy}

/-- Symbols of different kinds may share a name. Types, aliases and attributes are of one kind. -/
inductive SymbolKind where
  | type
  | role
  | user
  | boolean
  | common
  | objectClass
  | initialSid
deriving DecidableEq

abbrev SymbolName := SymbolKind × String

/-- What a draft declares with names of its own, and its levels, which are looked up in between. -/
inductive Declaration where
  | type (t : TypeSymbol)
  | role (role : Role)
  | user (user : User)
  | boolean (boolean : Boolean)
  | common (common : CommonPerms)
  | objectClass (objectClass : ObjectClass)
  | levels (levels : List Level)
  | initialSid (sid : InitialSid)

def Declaration.names : Declaration → List SymbolName
  | .type t => (t.name :: t.aliases.toList).map (SymbolKind.type, ·)
  | .role r => [(.role, r.name)]
  | .user u => [(.user, u.name)]
  | .boolean b => [(.boolean, b.name)]
  | .common c => [(.common, c.name)]
  | .objectClass c => [(.objectClass, c.name)]
  | .levels _ => []
  | .initialSid sid => [(.initialSid, sid.name)]

namespace Draft

/-- The declarations in the order in which a build takes them up. -/
def declarations (d : Draft) : List Declaration :=
  d.types.map .type ++ d.roles.map .role ++ d.users.map .user ++ d.booleans.map .boolean ++
    d.commons.map .common ++ d.classes.map .objectClass ++ [.levels d.levels] ++ d.initialSids.map .initialSid

def attributeNames (d : Draft) : List SymbolName :=
  d.attributes.toList.map (SymbolKind.type, ·)

def names (d : Draft) : List SymbolName :=
  d.attributeNames ++ d.declarations.flatMap Declaration.names

end Draft

namespace Policy

def Has (p : Policy) : SymbolName → Prop
  | (.type, name) => p.isTaken name
  | (.role, name) => name ∈ p.roles
  | (.user, name) => name ∈ p.users
  | (.boolean, name) => name ∈ p.booleans
  | (.common, name) => name ∈ p.commons
  | (.objectClass, name) => name ∈ p.classes
  | (.initialSid, name) => name ∈ p.initialSids

def declare (p : Policy) : Declaration → Except PolicyError Policy
  | .type t => p.addType t
  | .role role => p.addRole role
  | .user user => p.addUser user
  | .boolean boolean => p.addBoolean boolean
  | .common common => p.addCommon common
  | .objectClass objectClass => p.addClass objectClass
  | .levels levels => do return { p with levels := ← levels.mapM p.resolveLevel }
  | .initialSid sid => p.addInitialSid sid

/-- Whether a declaration uses only what is there. -/
def checkUses (p : Policy) : Declaration → Except PolicyError Unit
  | .type _ | .boolean _ | .common _ => .ok ()
  | .role role => role.types.toList.forM fun name => discard (p.expand name)
  | .user user => do
    user.roles.toList.forM fun name => discard (p.lookupRole name)
    discard (user.level.mapM p.resolveLevel)
    discard (user.range.mapM p.resolveRange)
  | .objectClass objectClass =>
    match objectClass.common with
    | some common =>
      if p.commons.contains common then .ok ()
      else .error (.unknownClass (objectClass.name ++ " inherits undeclared common " ++ common))
    | none => .ok ()
  | .levels levels => discard (levels.mapM p.resolveLevel)
  | .initialSid sid => discard (p.resolveContext sid.context)

end Policy

theorem Draft.build_eq (hfault : d.fault = none) :
    d.build = do
      let p ← d.declarations.foldlM Policy.declare d.start
      let rules ← d.rules.mapM p.resolveRule
      return { p with rules } := by
  simp only [Draft.build_eq_addTypes, Draft.complete, hfault, declarations, List.foldlM_append, List.foldlM_map,
    List.foldlM_cons, List.foldlM_nil, Policy.declare, bind_assoc, pure_bind, bind_pure]

/-- The first item of a list that stands in it before. -/
def FirstRepeat {α : Type} (l : List α) (a : α) : Prop :=
  ∃ seen rest, l = seen ++ a :: rest ∧ seen.Nodup ∧ a ∈ seen

theorem FirstRepeat.append {α : Type} {l : List α} {a : α} (h : FirstRepeat l a) (l' : List α) :
    FirstRepeat (l ++ l') a := by
  obtain ⟨seen, rest, rfl, hseen, ha⟩ := h
  exact ⟨seen, rest ++ l', by rw [List.append_assoc, List.cons_append], hseen, ha⟩

namespace Policy

/-- What comes of a declaration where some names have been declared before. -/
inductive Outcome (p : Policy) (seen : List SymbolName) (x : Declaration) : Prop
  | unknown (e : PolicyError) (uses : p.checkUses x = .error e) (fails : p.declare x = .error e)
  | repeated (n : SymbolName) (uses : p.checkUses x = .ok ()) (first : FirstRepeat (seen ++ x.names) n)
    (fails : p.declare x = .error (.duplicateSymbol n.2))
  | added (q : Policy) (uses : p.checkUses x = .ok ()) (nodup : (seen ++ x.names).Nodup)
    (has_iff : ∀ n, q.Has n ↔ n ∈ seen ++ x.names) (succeeds : p.declare x = .ok q)

variable {seen : List SymbolName} {x : Declaration}

/-- A declaration with one name puts an entry into a table. -/
theorem outcome_insertUnique {α : Type} {table : NameTable α} (put : NameTable α → Policy) {n : SymbolName}
    (hp : ∀ m, p.Has m ↔ m ∈ seen) (hseen : seen.Nodup) (hnames : x.names = [n]) (hn : p.Has n ↔ n.2 ∈ table)
    (hput : ∀ a m, (put (table.insert n.2 a)).Has m ↔ p.Has m ∨ m = n)
    (hunknown : ∀ e, p.checkUses x = .error e → p.declare x = .error e)
    (hknown : p.checkUses x = .ok () → ∃ a, p.declare x = put <$> insertUnique table n.2 a) :
    p.Outcome seen x := by
  cases huses : p.checkUses x with
  | error e => exact .unknown e huses (hunknown e huses)
  | ok _ =>
    obtain ⟨a, hdeclare⟩ := hknown huses
    by_cases hmem : n ∈ seen
    · have htable : n.2 ∈ table := hn.mp ((hp n).mpr hmem)
      refine .repeated n huses ⟨seen, [], by rw [hnames], hseen, hmem⟩ ?_
      rw [hdeclare, insertUnique, if_pos (Std.ExtTreeMap.contains_iff_mem.mpr htable)]
      rfl
    · have htable : n.2 ∉ table := fun htable => hmem ((hp n).mp (hn.mpr htable))
      refine .added (put (table.insert n.2 a)) huses ?_ ?_ ?_
      · rw [hnames]
        exact List.nodup_append.mpr ⟨hseen, List.nodup_singleton n, by grind⟩
      · intro m
        rw [hput, hp, hnames, List.mem_append, List.mem_singleton]
      · rw [hdeclare, insertUnique_eq_ok.mpr ⟨htable, rfl⟩]
        rfl

/-- The names of a type are new where none of them is taken. -/
theorem nodup_append_typeNames {names : List String} (hp : ∀ m, p.Has m ↔ m ∈ seen) (hseen : seen.Nodup)
    (hnames : names.Nodup) (hfree : ∀ name ∈ names, ¬ p.isTaken name) :
    (seen ++ names.map (SymbolKind.type, ·)).Nodup := by
  refine List.nodup_append.mpr ⟨hseen, hnames.map fun _ _ heq => congrArg Prod.snd heq, ?_⟩
  rintro m hm _ hmem rfl
  obtain ⟨name, hname, rfl⟩ := List.mem_map.mp hmem
  exact hfree name hname ((hp (.type, name)).mpr hm)

theorem firstRepeat_of_clash? {t : TypeSymbol} {name : String} (hp : ∀ m, p.Has m ↔ m ∈ seen)
    (hseen : seen.Nodup) (hclash : p.clash? t = some name) :
    FirstRepeat (seen ++ (Declaration.type t).names) (.type, name) := by
  rw [clash?] at hclash
  split at hclash
  next htaken =>
    cases hclash
    exact ⟨seen, _, rfl, hseen, (hp (.type, t.name)).mp htaken⟩
  next htaken =>
    obtain ⟨hname, before, after, hsplit, hbefore⟩ := List.find?_eq_some_iff_append.mp hclash
    have hnodup := nodup_toList t.aliases
    rw [hsplit] at hnodup
    simp only [Bool.not_eq_true', Bool.or_eq_false_iff, beq_eq_false_iff_ne, ne_eq] at hbefore
    refine ⟨seen ++ (t.name :: before).map (SymbolKind.type, ·), after.map (SymbolKind.type, ·), ?_, ?_, ?_⟩
    · simp [Declaration.names, hsplit]
    · refine nodup_append_typeNames hp hseen (List.nodup_cons.mpr ⟨?_, (List.nodup_append.mp hnodup).1⟩) ?_
      · exact fun hmem => (hbefore t.name hmem).1 rfl
      · refine List.forall_mem_cons.mpr ⟨htaken, fun other hother => ?_⟩
        rw [(hbefore other hother).2]
        exact Bool.false_ne_true
    · rw [List.mem_append, List.map_cons, List.mem_cons, ← hp (.type, name)]
      rcases Bool.or_eq_true_iff.mp hname with heq | htaken
      · exact Or.inr (Or.inl (congrArg _ (beq_iff_eq.mp heq)))
      · exact Or.inl htaken

theorem outcome_type (t : TypeSymbol) (hp : ∀ m, p.Has m ↔ m ∈ seen) (hseen : seen.Nodup) :
    p.Outcome seen (.type t) := by
  cases hclash : p.clash? t with
  | some name =>
    refine .repeated (.type, name) rfl (firstRepeat_of_clash? hp hseen hclash) ?_
    rw [declare, addType, hclash]
  | none =>
    obtain ⟨hfree, haliases⟩ := (p.clash?_eq_none_iff t).mp hclash
    simp only [answersTo_iff] at hfree
    refine .added { p with types := p.types ++ [t] } rfl ?_ ?_ (addType_eq_ok.mpr ⟨hclash, rfl⟩)
    · refine nodup_append_typeNames hp hseen (List.nodup_cons.mpr ⟨?_, nodup_toList t.aliases⟩) ?_
      · exact mt Std.ExtTreeSet.mem_toList.mp haliases
      · refine List.forall_mem_cons.mpr ⟨hfree t.name (Or.inl rfl), fun name hname => ?_⟩
        exact hfree name (Or.inr (Std.ExtTreeSet.mem_toList.mp hname))
    · rintro ⟨kind, name⟩
      rw [List.mem_append, ← hp]
      cases kind with
      | type =>
        simp [Has, Declaration.names, isTaken_iff, answersTo_iff, or_and_right, exists_or]
        grind
      | role | user | boolean | common | objectClass | initialSid => simp [Has, Declaration.names]

theorem outcome_levels (levels : List Level) (hp : ∀ m, p.Has m ↔ m ∈ seen) (hseen : seen.Nodup) :
    p.Outcome seen (.levels levels) := by
  cases hlevels : levels.mapM p.resolveLevel with
  | error e =>
    refine .unknown e (discard_eq_error.mpr hlevels) ?_
    rw [declare, hlevels]
    rfl
  | ok levels' =>
    have hnames : seen ++ (Declaration.levels levels).names = seen := List.append_nil seen
    refine .added { p with levels := levels' } (discard_eq_ok.mpr ⟨levels', hlevels⟩) ?_ ?_ ?_
    · rwa [hnames]
    · rw [hnames]
      exact hp
    · rw [declare, hlevels]
      rfl

theorem addClass_eq (p : Policy) (objectClass : ObjectClass) :
    p.addClass objectClass = do
      p.checkUses (.objectClass objectClass)
      return { p with classes := ← insertUnique p.classes objectClass.name objectClass } := by
  rw [addClass, checkUses]
  cases objectClass.common with
  | none => rfl
  | some common => cases hcontains : p.commons.contains common <;> simp [hcontains] <;> rfl

theorem outcome (x : Declaration) (hp : ∀ m, p.Has m ↔ m ∈ seen) (hseen : seen.Nodup) : p.Outcome seen x := by
  cases x with
  | type t => exact outcome_type t hp hseen
  | levels levels => exact outcome_levels levels hp hseen
  | role role =>
    refine outcome_insertUnique (fun roles => { p with roles }) (n := (.role, role.name)) hp hseen rfl
      Iff.rfl ?_ (fun e huses => bind_eq_error.mpr (Or.inl huses)) fun huses => ⟨role, ?_⟩
    · -- An entry of the table of one kind changes nothing for the names of the others.
      rintro a ⟨kind, name⟩
      cases kind <;> simp [Has, isTaken, or_comm, eq_comm (a := role.name)]
    · rw [checkUses] at huses
      rw [declare, addRole, huses]
      rfl
  | user user =>
    refine outcome_insertUnique (fun users => { p with users }) (n := (.user, user.name)) hp hseen rfl
      Iff.rfl ?_ ?_ ?_
    · rintro a ⟨kind, name⟩
      cases kind <;> simp [Has, isTaken, or_comm, eq_comm (a := user.name)]
    · intro e huses
      simp only [checkUses, bind_eq_error, discard_eq_error, discard_eq_ok] at huses
      simp only [declare, addUser, bind_eq_error]
      grind
    · intro huses
      simp only [checkUses, bind_eq_ok, discard_eq_ok] at huses
      obtain ⟨⟨⟩, hroles, ⟨⟩, ⟨level, hlevel⟩, range, hrange⟩ := huses
      refine ⟨{ user with level, range }, ?_⟩
      rw [declare, addUser, hroles, hlevel, hrange]
      rfl
  | boolean boolean =>
    refine outcome_insertUnique (fun booleans => { p with booleans }) (n := (.boolean, boolean.name)) hp hseen
      rfl Iff.rfl ?_ (fun e huses => ?_) fun _ => ⟨boolean, rfl⟩
    · rintro a ⟨kind, name⟩
      cases kind <;> simp [Has, isTaken, or_comm, eq_comm (a := boolean.name)]
    · cases huses
  | common common =>
    refine outcome_insertUnique (fun commons => { p with commons }) (n := (.common, common.name)) hp hseen
      rfl Iff.rfl ?_ (fun e huses => ?_) fun _ => ⟨common, rfl⟩
    · rintro a ⟨kind, name⟩
      cases kind <;> simp [Has, isTaken, or_comm, eq_comm (a := common.name)]
    · cases huses
  | objectClass objectClass =>
    refine outcome_insertUnique (fun classes => { p with classes })
      (n := (.objectClass, objectClass.name)) hp hseen rfl Iff.rfl ?_ ?_ ?_
    · rintro a ⟨kind, name⟩
      cases kind <;> simp [Has, isTaken, or_comm, eq_comm (a := objectClass.name)]
    · intro e huses
      rw [declare, addClass_eq]
      exact bind_eq_error.mpr (Or.inl huses)
    · intro huses
      refine ⟨objectClass, ?_⟩
      rw [declare, addClass_eq, huses]
      rfl
  | initialSid sid =>
    refine outcome_insertUnique (fun initialSids => { p with initialSids }) (n := (.initialSid, sid.name))
      hp hseen rfl Iff.rfl ?_ ?_ ?_
    · rintro a ⟨kind, name⟩
      cases kind <;> simp [Has, isTaken, or_comm, eq_comm (a := sid.name)]
    · intro e huses
      exact bind_eq_error.mpr (Or.inl (discard_eq_error.mp huses))
    · intro huses
      obtain ⟨context, hcontext⟩ := discard_eq_ok.mp huses
      refine ⟨{ sid with context }, ?_⟩
      rw [declare, addInitialSid, hcontext]
      rfl

/-- Whether the first of the declarations to fail does so as it uses something that is not there. -/
def failsUses (p : Policy) : List Declaration → Bool
  | [] => false
  | x :: l =>
    match p.checkUses x with
    | .error _ => true
    | .ok _ =>
      match p.declare x with
      | .error _ => false
      | .ok q => q.failsUses l

/-- The names that there are before a declaration decide what comes of it, so each step is that of one
declaration. -/
theorem foldlM_declare {l : List Declaration} (hp : ∀ m, p.Has m ↔ m ∈ seen) (hseen : seen.Nodup)
    (huses : ¬ p.failsUses l) :
    (∃ n, FirstRepeat (seen ++ l.flatMap Declaration.names) n ∧
      l.foldlM declare p = .error (.duplicateSymbol n.2)) ∨
    (seen ++ l.flatMap Declaration.names).Nodup ∧ ∃ q, l.foldlM declare p = .ok q := by
  induction l generalizing p seen with
  | nil => exact Or.inr ⟨by rwa [List.flatMap_nil, List.append_nil], p, rfl⟩
  | cons x l ih =>
    rw [List.flatMap_cons, ← List.append_assoc]
    rw [failsUses] at huses
    cases outcome x hp hseen with
    | unknown e hx _ => simp [hx] at huses
    | repeated n _ hfirst hx => exact Or.inl ⟨n, hfirst.append _, bind_eq_error.mpr (Or.inl hx)⟩
    | added q hchecked hnodup hq hx =>
      rw [hchecked, hx] at huses
      have hrest : (x :: l).foldlM declare p = l.foldlM declare q := by
        rw [List.foldlM_cons, hx]
        rfl
      rw [hrest]
      exact ih hq hnodup huses

end Policy

namespace Draft

theorem has_start (d : Draft) (m : SymbolName) : d.start.Has m ↔ m ∈ d.attributeNames := by
  obtain ⟨kind, name⟩ := m
  cases kind with
  | type =>
    have hattribute := Policy.mem_attributeTable_iff d name
    simp [Policy.Has, Policy.isTaken, start, ofTables, attributeNames, hattribute]
  | role | user | boolean | common | objectClass | initialSid => simp [Policy.Has, start, ofTables, attributeNames]

theorem nodup_attributeNames (d : Draft) : d.attributeNames.Nodup :=
  (nodup_toList d.attributes).map fun _ _ heq => congrArg Prod.snd heq

/-- Up to the rules, no check of a build is the first to fail unless it is that for a name declared twice. -/
structure UsesDeclared (d : Draft) : Prop where
  acts : d.fault = none
  uses : ¬ d.start.failsUses d.declarations

/-- Names that are declared twice make a build fail, and it tells the first of them. -/
theorem build_eq_duplicateSymbol (h : d.UsesDeclared) (hrepeat : ¬ d.names.Nodup) :
    ∃ n, FirstRepeat d.names n ∧ d.build = .error (.duplicateSymbol n.2) := by
  rcases Policy.foldlM_declare d.has_start d.nodup_attributeNames h.uses with ⟨n, hfirst, hrun⟩ | ⟨hnodup, -⟩
  · refine ⟨n, hfirst, ?_⟩
    rw [build_eq h.acts, hrun]
    rfl
  · exact absurd hnodup hrepeat

end Draft

end PolicyAnalysis
