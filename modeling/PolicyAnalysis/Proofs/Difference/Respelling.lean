import Mathlib.Logic.Relation
import PolicyAnalysis.Proofs.Difference.Rights

/-!
# Rules spelled in other ways

The same rights can be given by other rules: in another order, repeated, with the permissions of one rule split
over two, with types in place of an attribute or of the source itself, or under a condition that is written
differently. Differences in access rules and in extended rules see none of this.
-/

namespace PolicyAnalysis

variable {d d' : Draft} {p q : Policy}

/-- Some sources and targets together stand for the pairs of types that one source and target stand for. -/
def Policy.StandTogether (p : Policy) (source target : String) (ends : List (String × String)) : Prop :=
  ∀ pair, p.Names source target pair ↔ ∃ e ∈ ends, p.Names e.1 e.2 pair

/-- A type with the name that stands for the source itself may be declared. As the target of a rule for single types
it would be taken for the source, so it is only paired with itself here. -/
def Policy.Unreserved (p : Policy) (source target : String) : Prop :=
  ∀ pair, p.Names source target pair → pair.2 = selfTarget → pair.1 = selfTarget

/-- One rule says as much as some others. -/
inductive Rule.SpelledAs (p : Policy) : Rule → List Rule → Prop
  | repeated (rule : Rule) : SpelledAs p rule [rule, rule]
  | splitAccess (rule : AccessRule) (a b : NameSet) :
      rule.perms = a ∪ b →
      SpelledAs p (.access rule) [.access { rule with perms := a }, .access { rule with perms := b }]
  | splitExtended (rule : ExtendedRule) (a b : Std.ExtTreeSet UInt16) :
      rule.numbers = a ∪ b →
      SpelledAs p (.extended rule) [.extended { rule with numbers := a }, .extended { rule with numbers := b }]
  | spreadAccess (rule : AccessRule) :
      p.Unreserved rule.source rule.target →
      SpelledAs p (.access rule) ((p.pairNames rule.source rule.target).map fun pair => .access (rule.single pair))
  | spreadExtended (rule : ExtendedRule) :
      p.Unreserved rule.source rule.target →
      SpelledAs p (.extended rule)
        ((p.pairNames rule.source rule.target).map fun pair => .extended (rule.single pair))
  | rewritten (rule : AccessRule) (place place' : Conditional) :
      rule.conditional = some place → place'.condition.truthTable = place.condition.truthTable →
      place'.branch = place.branch → SpelledAs p (.access rule) [.access { rule with conditional := some place' }]

/-- One step from a list of rules to another that says the same. -/
inductive Respelling (p : Policy) : List Rule → List Rule → Prop
  | permuted {rules rules' : List Rule} : rules.Perm rules' → Respelling p rules rules'
  | replaced {rule : Rule} {rules : List Rule} (rest : List Rule) :
      rule.SpelledAs p rules → Respelling p (rule :: rest) (rules ++ rest)

/-- The pairs that a source and target stand for are of names of types. -/
theorem Policy.Names.exists_types (h : d.build = .ok p) {source target : String} {pair : String × String}
    (hpair : p.Names source target pair) :
    (∃ t ∈ p.types, t.name = pair.1) ∧ ∃ t ∈ p.types, t.name = pair.2 := by
  obtain ⟨hsource, htarget⟩ := names_iff.mp hpair
  have hfirst := exists_type_of_stands h hsource
  rcases htarget with ⟨-, hsame⟩ | ⟨-, htarget⟩
  · rw [hsame]
    exact ⟨hfirst, hfirst⟩
  · exact ⟨hfirst, exists_type_of_stands h htarget⟩

theorem Policy.unreserved_of_forall_ne (h : d.build = .ok p) (hself : ∀ t ∈ p.types, t.name ≠ selfTarget)
    (source target : String) : p.Unreserved source target := by
  intro pair hpair hname
  obtain ⟨-, t, ht, htname⟩ := hpair.exists_types h
  exact absurd (htname.trans hname) (hself t ht)

/-- A rule can be spread over the pairs of types that it is about. -/
theorem Policy.standTogether_pairNames (h : d.build = .ok p) {source target : String}
    (unreserved : p.Unreserved source target) : p.StandTogether source target (p.pairNames source target) := by
  have hsingle {e pair : String × String} (he : p.Names source target e) :
      p.Names e.1 e.2 pair ↔ pair = e := by
    obtain ⟨⟨t, ht, htname⟩, u, hu, huname⟩ := he.exists_types h
    rw [names_iff, ← htname, ← huname, stands_name_iff h ht, stands_name_iff h hu]
    have hself : u.name = selfTarget → t.name = selfTarget := by
      rw [htname, huname]
      exact unreserved e he
    constructor
    · rintro ⟨hfirst, ⟨hname, hsecond⟩ | ⟨-, hsecond⟩⟩
      · refine Prod.ext (hfirst.trans htname) ?_
        rw [hsecond, hfirst, hself hname, ← hname, huname]
      · exact Prod.ext (hfirst.trans htname) (hsecond.trans huname)
    · rintro rfl
      refine ⟨htname.symm, ?_⟩
      by_cases hname : u.name = selfTarget
      · refine Or.inl ⟨hname, ?_⟩
        rw [← htname, ← huname, hname, hself hname]
      · exact Or.inr ⟨hname, huname.symm⟩
  intro pair
  simp only [mem_pairNames]
  constructor
  · intro hpair
    exact ⟨pair, hpair, (hsingle hpair).mpr rfl⟩
  · intro ⟨e, he, hpair⟩
    rw [(hsingle he).mp hpair]
    exact he

theorem forall_mem_union_iff {α : Type} [Ord α] [Std.TransOrd α] {s a b : Std.ExtTreeSet α} (h : s = a ∪ b)
    (x : Option α) : (∀ y, x = some y → y ∈ s) ↔ (∀ y, x = some y → y ∈ a) ∨ ∀ y, x = some y → y ∈ b := by
  cases x <;> simp [h]

/-- What a rule says of some pair of types is said by one of the rules that it is spread over. -/
theorem Policy.StandTogether.exists_pair_iff {source target : String} {ends : List (String × String)}
    (h : p.StandTogether source target ends) {kind perm : Prop} {C : String × String → Prop} :
    (kind ∧ (∃ pair, p.Names source target pair ∧ C pair) ∧ perm) ↔
      ∃ e ∈ ends, kind ∧ (∃ pair, p.Names e.1 e.2 pair ∧ C pair) ∧ perm := by
  constructor
  · intro ⟨hkind, ⟨pair, hpair, hC⟩, hperm⟩
    obtain ⟨e, he, hnames⟩ := (h pair).mp hpair
    exact ⟨e, he, hkind, ⟨pair, hnames, hC⟩, hperm⟩
  · intro ⟨e, he, hkind, ⟨pair, hnames, hC⟩, hperm⟩
    exact ⟨hkind, ⟨pair, (h pair).mpr ⟨e, he, hnames⟩, hC⟩, hperm⟩

theorem AccessRule.key_rewritten {rule : AccessRule} {place place' : Conditional}
    (hplace : rule.conditional = some place) (htable : place'.condition.truthTable = place.condition.truthTable)
    (hbranch : place'.branch = place.branch) (pair : String × String) :
    (({ rule with conditional := some place' } : AccessRule).single pair).key = (rule.single pair).key := by
  have hidentity : place'.identity = place.identity := Prod.ext htable hbranch
  simp only [AccessRule.key, AccessRule.single, hplace, Option.map_some, hidentity]

theorem Rule.SpelledAs.gives_iff (hp : d.build = .ok p) {rule : Rule} {rules : List Rule}
    (h : rule.SpelledAs p rules) (right : Right) : rule.Gives p right ↔ ∃ rule' ∈ rules, rule'.Gives p right := by
  cases h with
  | repeated => simp
  | splitAccess rule a b hperms =>
    simp only [List.mem_cons, List.not_mem_nil, or_false, exists_eq_or_imp, exists_eq_left]
    cases right with
    | access kind key perm =>
      simp only [Gives, forall_mem_union_iff hperms, and_or_left]
      rfl
    | extended kind key number => simp [Gives]
  | splitExtended rule a b hnumbers =>
    simp only [List.mem_cons, List.not_mem_nil, or_false, exists_eq_or_imp, exists_eq_left]
    cases right with
    | access kind key perm => simp [Gives]
    | extended kind key number =>
      simp only [Gives, forall_mem_union_iff hnumbers, and_or_left]
      rfl
  | spreadAccess rule unreserved =>
    have hends := Policy.standTogether_pairNames hp unreserved
    simp only [List.mem_map, exists_exists_and_eq_and]
    cases right with
    | access kind key perm => exact hends.exists_pair_iff
    | extended kind key number => simp [Gives]
  | spreadExtended rule unreserved =>
    have hends := Policy.standTogether_pairNames hp unreserved
    simp only [List.mem_map, exists_exists_and_eq_and]
    cases right with
    | access kind key perm => simp [Gives]
    | extended kind key number => exact hends.exists_pair_iff
  | rewritten rule place place' hplace htable hbranch =>
    simp only [List.mem_singleton, exists_eq_left]
    cases right with
    | access kind key perm => simp only [Gives, AccessRule.key_rewritten hplace htable hbranch]
    | extended kind key number => rfl

theorem Respelling.gives_iff (hp : d.build = .ok p) {rules rules' : List Rule} (h : Respelling p rules rules')
    (right : Right) : (∃ rule ∈ rules, rule.Gives p right) ↔ ∃ rule ∈ rules', rule.Gives p right := by
  cases h with
  | permuted hperm => simp only [hperm.mem_iff]
  | @replaced rule rules rest hspelled =>
    simp only [List.mem_cons, List.mem_append, or_and_right, exists_or, exists_eq_left, hspelled.gives_iff hp right]

theorem gives_iff_of_eqvGen (hp : d.build = .ok p) {rules rules' : List Rule}
    (h : Relation.EqvGen (Respelling p) rules rules') (right : Right) :
    (∃ rule ∈ rules, rule.Gives p right) ↔ ∃ rule ∈ rules', rule.Gives p right := by
  induction h with
  | rel _ _ step => exact step.gives_iff hp right
  | refl _ => rfl
  | symm _ _ _ ih => exact ih.symm
  | trans _ _ _ _ _ first second => exact first.trans second

theorem Policy.SameTypes.gives_iff (h : p.SameTypes q) (hp : d.build = .ok p) (hq : d'.build = .ok q)
    (rule : Rule) (right : Right) : rule.Gives p right ↔ rule.Gives q right := by
  cases rule <;> cases right <;> simp only [Rule.Gives, h.names_iff hp hq]

/-- Policies with the same types, of which one is the other with its rules spelled in other ways, give the same
rights. -/
theorem Policy.gives_iff_of_respelled (h : p.SameTypes q) (hp : d.build = .ok p) (hq : d'.build = .ok q)
    (respelled : Relation.EqvGen (Respelling p) p.rules q.rules) (right : Right) :
    p.Gives right ↔ q.Gives right := by
  have hsame : (∃ rule ∈ q.rules, rule.Gives p right) ↔ q.Gives right := by
    refine exists_congr fun rule => and_congr_right fun _ => ?_
    exact h.gives_iff hp hq rule right
  exact (gives_iff_of_eqvGen hp respelled right).trans hsame

/-- What is compared in access rules and in extended rules are the rights that they give, so nothing differs just
if the rights are the same, however the rules are spelled. -/
theorem Policy.difference_of_rights {name name' : String} {statements statements' : List Statement}
    (hp : Policy.build name statements = .ok p) (hq : Policy.build name' statements' = .ok q) :
    (∀ kind, ∃ table, p.accessTable kind = .ok table ∧
      Holds table AccessRule.perms fun k perm => p.Gives (.access kind k perm)) ∧
    (∀ kind, ∃ table, p.extendedTable kind = .ok table ∧
      Holds table ExtendedRule.numbers fun k number => p.Gives (.extended kind k number)) ∧
    (∀ title kind, ∃ c, (Aspect.access title kind).difference p q = .ok c ∧
      (c.isEmpty ↔ ∀ k perm, p.Gives (.access kind k perm) ↔ q.Gives (.access kind k perm)) ∧
      (p.SameTypes q → Relation.EqvGen (Respelling p) p.rules q.rules → c.isEmpty)) ∧
    ∀ title kind, ∃ c, (Aspect.extended title kind).difference p q = .ok c ∧
      (c.isEmpty ↔ ∀ k number, p.Gives (.extended kind k number) ↔ q.Gives (.extended kind k number)) ∧
      (p.SameTypes q → Relation.EqvGen (Respelling p) p.rules q.rules → c.isEmpty) := by
  refine ⟨exists_accessTable hp, exists_extendedTable hp, ?_, ?_⟩
  · intro title kind
    obtain ⟨c, hc, hempty⟩ := (Reading.access title kind).exists_isEmpty_iff hp hq
    rw [Reading.view_eq_iff_access] at hempty
    refine ⟨c, hc, hempty, ?_⟩
    intro same respelled
    apply hempty.mpr
    intro k perm
    exact gives_iff_of_respelled same hp hq respelled _
  · intro title kind
    obtain ⟨c, hc, hempty⟩ := (Reading.extended title kind).exists_isEmpty_iff hp hq
    rw [Reading.view_eq_iff_extended] at hempty
    refine ⟨c, hc, hempty, ?_⟩
    intro same respelled
    apply hempty.mpr
    intro k number
    exact gives_iff_of_respelled same hp hq respelled _

def reservedDeclarations : List Statement := [
  .attribute "domain",
  .type "a_t" ∅,
  .type "self" (.ofList ["domain"]),
  .objectClass "file" none (.ofList ["read"])]

def reservedRule (target : String) : AccessRule :=
  ⟨.allow, "a_t", target, "file", .ofList ["read"], none⟩

/-- A type may read the files of one that is called as if it were the type itself. -/
def reserved : Policy :=
  match Policy.build "reserved" (reservedDeclarations ++ [.rule (.access (reservedRule "domain"))]) with
  | .ok p => p
  | .error _ => (Draft.ofStatements "reserved" []).start

/-- The type may read its own files. -/
def spreadReserved : Policy :=
  match Policy.build "reserved" (reservedDeclarations ++ [.rule (.access (reservedRule "self"))]) with
  | .ok p => p
  | .error _ => (Draft.ofStatements "reserved" []).start

/-- The rule for the one pair of types that a rule is about is read in another way. -/
theorem not_difference_of_rights_reserved :
    Policy.build "reserved" (reservedDeclarations ++ [.rule (.access (reservedRule "domain"))]) = .ok reserved ∧
      Policy.build "reserved" (reservedDeclarations ++ [.rule (.access (reservedRule "self"))]) =
        .ok spreadReserved ∧
      reserved.SameTypes spreadReserved ∧ reserved.rules = [.access (reservedRule "domain")] ∧
      spreadReserved.rules = (reserved.pairNames "a_t" "domain").map (fun pair =>
        .access ((reservedRule "domain").single pair)) ∧
      ∃ c, (Aspect.access "allows" .allow).difference reserved spreadReserved = .ok c ∧ ¬ c.isEmpty := by
  refine ⟨by rfl, by rfl, ⟨fun _ => Iff.rfl, rfl⟩, by rfl, by decide +kernel, ?_⟩
  obtain ⟨c, hc⟩ : ∃ c, (Aspect.access "allows" .allow).difference reserved spreadReserved = .ok c := ⟨_, rfl⟩
  refine ⟨c, hc, ?_⟩
  cases hc
  decide +kernel

def doorDeclarations : List Statement := [
  .attribute "domain",
  .type "a_t" (.ofList ["domain"]),
  .type "b_t" (.ofList ["domain"]),
  .boolean "open" true,
  .objectClass "file" none (.ofList ["read", "write"])]

def notShut : Condition where
  tokens := [.boolean "open", .not, .not]
  balanced := by decide
  size_booleans_le := by decide

def doorRules : List Rule := [
  .access ⟨.allow, "domain", "a_t", "file", .ofList ["read", "write"], none⟩,
  .access ⟨.allow, "a_t", "self", "file", .ofList ["write"], some ⟨.boolean "open", true⟩⟩]

def respelledDoorRules : List Rule := [
  .access ⟨.allow, "a_t", "a_t", "file", .ofList ["write"], some ⟨notShut, true⟩⟩,
  .access ⟨.allow, "a_t", "a_t", "file", .ofList ["write"], none⟩,
  .access ⟨.allow, "b_t", "a_t", "file", .ofList ["write"], none⟩,
  .access ⟨.allow, "domain", "a_t", "file", .ofList ["read"], none⟩]

def door : Policy :=
  match Policy.build "door" (doorDeclarations ++ doorRules.map .rule) with
  | .ok p => p
  | .error _ => (Draft.ofStatements "door" []).start

def respelledDoor : Policy :=
  match Policy.build "door" (doorDeclarations ++ respelledDoorRules.map .rule) with
  | .ok p => p
  | .error _ => (Draft.ofStatements "door" []).start

theorem build_door : Policy.build "door" (doorDeclarations ++ doorRules.map .rule) = .ok door := by rfl

theorem build_respelledDoor :
    Policy.build "door" (doorDeclarations ++ respelledDoorRules.map .rule) = .ok respelledDoor := by rfl

def doorRule (source target : String) (perms : List String) (place : Option Conditional) : AccessRule :=
  ⟨.allow, source, target, "file", .ofList perms, place⟩

/-- The permissions are split, the rules for writing are spread over their pairs of types, and the condition is
rewritten. -/
theorem respelled_door : Relation.EqvGen (Respelling door) door.rules respelledDoor.rules := by
  have hself : ∀ t ∈ door.types, t.name ≠ Policy.selfTarget := by decide +kernel
  have hdomain : door.pairNames "domain" "a_t" = [("a_t", "a_t"), ("b_t", "a_t")] := by decide +kernel
  have hitself : door.pairNames "a_t" "self" = [("a_t", "a_t")] := by decide +kernel
  let read : Rule := .access (doorRule "domain" "a_t" ["read"] none)
  let write (source target : String) : Rule := .access (doorRule source target ["write"] none)
  let writeIf (target : String) (place : Conditional) : Rule := .access (doorRule "a_t" target ["write"] place)
  let isOpen : Conditional := ⟨.boolean "open", true⟩
  have split : Respelling door door.rules [read, write "domain" "a_t", writeIf "self" isOpen] :=
    .replaced [writeIf "self" isOpen] (.splitAccess (doorRule "domain" "a_t" ["read", "write"] none)
      (.ofList ["read"]) (.ofList ["write"]) (by decide +kernel))
  have moved : Respelling door [read, write "domain" "a_t", writeIf "self" isOpen]
      [write "domain" "a_t", writeIf "self" isOpen, read] := .permuted (by decide +kernel)
  have spread : Respelling door [write "domain" "a_t", writeIf "self" isOpen, read]
      ((door.pairNames "domain" "a_t").map (fun pair => write pair.1 pair.2) ++ [writeIf "self" isOpen, read]) :=
    .replaced [writeIf "self" isOpen, read] (.spreadAccess (doorRule "domain" "a_t" ["write"] none)
      (Policy.unreserved_of_forall_ne build_door hself "domain" "a_t"))
  rw [hdomain] at spread
  have movedBack : Respelling door [write "a_t" "a_t", write "b_t" "a_t", writeIf "self" isOpen, read]
      [writeIf "self" isOpen, write "a_t" "a_t", write "b_t" "a_t", read] := .permuted (by decide +kernel)
  have spreadSelf : Respelling door [writeIf "self" isOpen, write "a_t" "a_t", write "b_t" "a_t", read]
      ((door.pairNames "a_t" "self").map (fun pair => .access (doorRule pair.1 pair.2 ["write"] isOpen)) ++
        [write "a_t" "a_t", write "b_t" "a_t", read]) :=
    .replaced [write "a_t" "a_t", write "b_t" "a_t", read]
      (.spreadAccess (doorRule "a_t" "self" ["write"] isOpen)
        (Policy.unreserved_of_forall_ne build_door hself "a_t" "self"))
  rw [hitself] at spreadSelf
  have rewritten : Respelling door [writeIf "a_t" isOpen, write "a_t" "a_t", write "b_t" "a_t", read]
      respelledDoor.rules :=
    .replaced [write "a_t" "a_t", write "b_t" "a_t", read]
      (.rewritten (doorRule "a_t" "a_t" ["write"] isOpen) isOpen ⟨notShut, true⟩ rfl (by decide +kernel) rfl)
  exact .trans _ _ _ (.rel _ _ split) (.trans _ _ _ (.rel _ _ moved) (.trans _ _ _ (.rel _ _ spread)
    (.trans _ _ _ (.rel _ _ movedBack) (.trans _ _ _ (.rel _ _ spreadSelf) (.rel _ _ rewritten)))))

theorem difference_of_rights_door :
    Policy.build "door" (doorDeclarations ++ doorRules.map .rule) = .ok door ∧
      Policy.build "door" (doorDeclarations ++ respelledDoorRules.map .rule) = .ok respelledDoor ∧
      door.SameTypes respelledDoor ∧ Relation.EqvGen (Respelling door) door.rules respelledDoor.rules ∧
      ∃ c, (Aspect.access "allows" .allow).difference door respelledDoor = .ok c ∧ c.isEmpty := by
  have same : door.SameTypes respelledDoor := ⟨fun _ => Iff.rfl, rfl⟩
  obtain ⟨-, -, haccess, -⟩ := Policy.difference_of_rights build_door build_respelledDoor
  obtain ⟨c, hc, -, hempty⟩ := haccess "allows" .allow
  exact ⟨build_door, build_respelledDoor, same, respelled_door, c, hc, hempty same respelled_door⟩

end PolicyAnalysis
