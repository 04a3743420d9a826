import PolicyAnalysis.Proofs.Grouping
import PolicyAnalysis.Proofs.Policy.Rules
import PolicyAnalysis.Transition.Grants

/-!
# What the rules grant

The grants of a built policy can always be worked out. Their tables list the rules that permit something by
the pairs of types that they permit it to, but what a process may do to itself is listed by the sources of
the rules, whatever their targets are.
-/

namespace PolicyAnalysis

open Checked

variable {d : Draft} {p : Policy} {g : Grants}

namespace Policy

/-- A rule permits something of objects of a class to a type on another. -/
structure Permits (p : Policy) (rule : AccessRule) (objectClass perm : String) (s t : TypeId) : Prop where
  allows : rule.kind = .allow
  on_class : rule.objectClass = objectClass
  mem_perms : perm ∈ rule.perms
  covers : p.Covers rule.source rule.target s t

/-- A rule permits something of processes, and a type is among its sources. -/
structure PermitsFrom (p : Policy) (rule : AccessRule) (perm : String) (s : TypeId) : Prop where
  allows : rule.kind = .allow
  on_class : rule.objectClass = Grants.processClass
  mem_perms : perm ∈ rule.perms
  mem_sources : ∃ ids, p.expand rule.source = .ok ids ∧ s ∈ ids

/-- A rule makes a domain the default for processes of another that run files of a type. -/
structure Directs (p : Policy) (rule : TypeRule) (s file t : TypeId) : Prop where
  decides : rule.kind = .transition
  on_class : rule.objectClass = Grants.processClass
  covers : p.Covers rule.source rule.target s file
  leads : p.lookupType rule.default = .ok t

def Allows (p : Policy) (objectClass perm : String) (s t : TypeId) : Prop :=
  ∃ rule ∈ p.accessRules, p.Permits rule objectClass perm s t

instance (objectClass perm : String) (s t : TypeId) : Decidable (p.Allows objectClass perm s t) :=
  decidable_of_iff
    (∃ rule ∈ p.accessRules, rule.kind = .allow ∧ rule.objectClass = objectClass ∧ perm ∈ rule.perms ∧
      p.Covers rule.source rule.target s t)
    ⟨fun ⟨rule, hrule, ha, hc, hp, hcovers⟩ => ⟨rule, hrule, ha, hc, hp, hcovers⟩,
      fun ⟨rule, hrule, ha, hc, hp, hcovers⟩ => ⟨rule, hrule, ha, hc, hp, hcovers⟩⟩

def AllowsFrom (p : Policy) (perm : String) (s : TypeId) : Prop :=
  ∃ rule ∈ p.accessRules, p.PermitsFrom rule perm s

def HasDefault (p : Policy) (s file t : TypeId) : Prop :=
  ∃ rule ∈ p.typeRules, p.Directs rule s file t

/-- The rules that permit something of processes permit it on themselves. -/
def OnlySelf (p : Policy) (perm : String) : Prop :=
  ∀ rule ∈ p.accessRules, rule.kind = .allow → rule.objectClass = Grants.processClass →
    perm ∈ rule.perms → rule.target = selfTarget

instance (perm : String) : Decidable (p.OnlySelf perm) :=
  inferInstanceAs (Decidable (∀ rule ∈ p.accessRules, _ → _ → _ → _))

/-- What a rule permits a domain on itself it permits with the domain among its sources. -/
theorem Allows.allowsFrom {perm : String} {s t : TypeId} (h : p.Allows Grants.processClass perm s t) :
    p.AllowsFrom perm s := by
  obtain ⟨rule, hrule, ⟨hallows, hclass, hperm, pairs, hpairs, hmem⟩⟩ := h
  refine ⟨rule, hrule, hallows, hclass, hperm, ?_⟩
  obtain ⟨sources, hsources, ⟨-, rfl⟩ | ⟨-, targets, -, rfl⟩⟩ := expandPairs_eq_ok.mp hpairs
  · obtain ⟨s', hs', heq⟩ := List.mem_map.mp hmem
    cases heq
    exact ⟨sources, hsources, hs'⟩
  · exact ⟨sources, hsources, (List.pair_mem_product.mp hmem).1⟩

theorem OnlySelf.allowsFrom_iff {perm : String} (h : p.OnlySelf perm) (s : TypeId) :
    p.AllowsFrom perm s ↔ p.Allows Grants.processClass perm s s := by
  constructor
  · intro ⟨rule, hrule, ⟨hallows, hclass, hperm, sources, hsources, hs⟩⟩
    have hself := h rule hrule hallows hclass hperm
    refine ⟨rule, hrule, hallows, hclass, hperm, sources.map fun s => (s, s), ?_, ?_⟩
    · exact expandPairs_eq_ok.mpr ⟨sources, hsources, Or.inl ⟨hself, rfl⟩⟩
    · exact List.mem_map.mpr ⟨s, hs, rfl⟩
  · exact Allows.allowsFrom

end Policy

namespace Grants

/-- The tables list just what the rules of a policy permit. -/
structure Reads (g : Grants) (p : Policy) : Prop where
  transition : Lists g.transition fun pair id =>
    ∃ rule, p.accessRules[id]? = some rule ∧ p.Permits rule processClass "transition" pair.1 pair.2
  dyntransition : Lists g.dyntransition fun pair id =>
    ∃ rule, p.accessRules[id]? = some rule ∧ p.Permits rule processClass "dyntransition" pair.1 pair.2
  setexec : Lists g.setexec fun s id =>
    ∃ rule, p.accessRules[id]? = some rule ∧ p.PermitsFrom rule "setexec" s
  setcurrent : Lists g.setcurrent fun s id =>
    ∃ rule, p.accessRules[id]? = some rule ∧ p.PermitsFrom rule "setcurrent" s
  execute : Lists g.execute fun pair id =>
    ∃ rule, p.accessRules[id]? = some rule ∧ p.Permits rule fileClass "execute" pair.1 pair.2
  entrypoint : Lists g.entrypoint fun pair id =>
    ∃ rule, p.accessRules[id]? = some rule ∧ p.Permits rule fileClass "entrypoint" pair.1 pair.2
  typeTransition : Lists g.typeTransition fun pair entry =>
    ∃ rule, p.typeRules[entry.2]? = some rule ∧ p.Directs rule pair.1 pair.2 entry.1

theorem mem_allowRules {objectClass perm : String} {rule : AccessRule} {id : RuleId} :
    (rule, id) ∈ allowRules p objectClass perm ↔
      p.accessRules[id]? = some rule ∧
        rule.kind = .allow ∧ rule.objectClass = objectClass ∧ perm ∈ rule.perms := by
  rw [allowRules, List.mem_filter, List.mk_mem_zipIdx_iff_getElem?]
  simp only [Bool.and_eq_true, decide_eq_true_eq, Std.ExtTreeSet.contains_iff_mem, and_assoc]

/-- The rules that allow something can be listed by whatever keys every access rule has. -/
theorem exists_groupRules {κ : Type} [Ord κ] [Std.TransOrd κ] [Std.LawfulEqOrd κ]
    {keys : AccessRule → Except PolicyError (List κ)}
    (htotal : ∀ rule ∈ p.accessRules, ∃ ks, keys rule = .ok ks) (objectClass perm : String) :
    ∃ table, (do
        let entries ← (allowRules p objectClass perm).mapM fun (rule, id) => do
          let ks ← keys rule
          return ks.map fun k => (k, id)
        return groupByKey entries.flatten) = (.ok table : Except PolicyError _) ∧
      Lists table fun k id => ∃ rule, p.accessRules[id]? = some rule ∧ rule.kind = .allow ∧
        rule.objectClass = objectClass ∧ perm ∈ rule.perms ∧ ∃ ks, keys rule = .ok ks ∧ k ∈ ks := by
  have hentries (entry : AccessRule × RuleId) (hentry : entry ∈ allowRules p objectClass perm) :
      ∃ entries, (do
        let ks ← keys entry.1
        return ks.map fun k => (k, entry.2)) = (.ok entries : Except PolicyError _) := by
    have hrule : entry.1 ∈ p.accessRules := List.mem_of_getElem? (mem_allowRules.mp hentry).1
    obtain ⟨ks, hks⟩ := htotal entry.1 hrule
    exact ⟨_, bind_eq_ok.mpr ⟨ks, hks, rfl⟩⟩
  obtain ⟨table, htable, hlists⟩ := exists_groupByKey_mapM hentries
  refine ⟨table, htable, hlists.congr ?_⟩
  intro k id
  constructor
  · intro ⟨⟨rule, id'⟩, hentry, entries, hentries, hmem⟩
    obtain ⟨ks, hks, hentries⟩ := bind_eq_ok.mp hentries
    rw [← pure_eq_ok.mp hentries, List.mem_map] at hmem
    obtain ⟨k', hk, heq⟩ := hmem
    cases heq
    obtain ⟨hid, hallows, hclass, hperm⟩ := mem_allowRules.mp hentry
    exact ⟨rule, hid, hallows, hclass, hperm, ks, hks, hk⟩
  · intro ⟨rule, hid, hallows, hclass, hperm, ks, hks, hk⟩
    refine ⟨(rule, id), mem_allowRules.mpr ⟨hid, hallows, hclass, hperm⟩, _,
      bind_eq_ok.mpr ⟨ks, hks, rfl⟩, ?_⟩
    exact List.mem_map.mpr ⟨k, hk, rfl⟩

theorem exists_byPair (h : d.build = .ok p) (objectClass perm : String) :
    ∃ table, byPair p objectClass perm = .ok table ∧ Lists table fun pair id =>
      ∃ rule, p.accessRules[id]? = some rule ∧ p.Permits rule objectClass perm pair.1 pair.2 := by
  have htotal (rule : AccessRule) (hrule : rule ∈ p.accessRules) :
      ∃ pairs, p.expandPairs rule.source rule.target = .ok pairs :=
    (Policy.declares_of_mem_accessRules h hrule).exists_expandPairs
  obtain ⟨table, htable, hlists⟩ := exists_groupRules htotal objectClass perm
  refine ⟨table, htable, hlists.congr fun pair id => exists_congr fun rule => and_congr_right fun _ => ?_⟩
  exact ⟨fun ⟨ha, hc, hp, hcovers⟩ => ⟨ha, hc, hp, hcovers⟩, fun ⟨ha, hc, hp, hcovers⟩ => ⟨ha, hc, hp, hcovers⟩⟩

theorem exists_bySource (h : d.build = .ok p) (perm : String) :
    ∃ table, bySource p perm = .ok table ∧ Lists table fun s id =>
      ∃ rule, p.accessRules[id]? = some rule ∧ p.PermitsFrom rule perm s := by
  have htotal (rule : AccessRule) (hrule : rule ∈ p.accessRules) : ∃ ids, p.expand rule.source = .ok ids :=
    (Policy.declares_of_mem_accessRules h hrule).sources
  obtain ⟨table, htable, hlists⟩ := exists_groupRules htotal processClass perm
  refine ⟨table, htable, hlists.congr fun s id => exists_congr fun rule => and_congr_right fun _ => ?_⟩
  exact ⟨fun ⟨ha, hc, hp, hs⟩ => ⟨ha, hc, hp, hs⟩, fun ⟨ha, hc, hp, hs⟩ => ⟨ha, hc, hp, hs⟩⟩

theorem mem_defaultRules {rule : TypeRule} {id : RuleId} :
    (rule, id) ∈ (p.typeRules.zipIdx.filter fun entry =>
      entry.1.kind = .transition && entry.1.objectClass = processClass) ↔
      p.typeRules[id]? = some rule ∧ rule.kind = .transition ∧ rule.objectClass = processClass := by
  rw [List.mem_filter, List.mk_mem_zipIdx_iff_getElem?]
  simp only [Bool.and_eq_true, decide_eq_true_eq]

theorem exists_defaultDomains (h : d.build = .ok p) :
    ∃ table, defaultDomains p = .ok table ∧ Lists table fun pair entry =>
      ∃ rule, p.typeRules[entry.2]? = some rule ∧ p.Directs rule pair.1 pair.2 entry.1 := by
  have hentries (entry : TypeRule × RuleId)
      (hentry : entry ∈ p.typeRules.zipIdx.filter fun entry =>
        entry.1.kind = .transition && entry.1.objectClass = processClass) :
      ∃ entries, (do
        let default ← p.lookupType entry.1.default
        let pairs ← p.expandPairs entry.1.source entry.1.target
        return pairs.map fun pair => (pair, (default, entry.2))) = (.ok entries : Except PolicyError _) := by
    have hrule : entry.1 ∈ p.typeRules := List.mem_of_getElem? (mem_defaultRules.mp hentry).1
    obtain ⟨default, hdefault⟩ := Policy.exists_lookupType_default h hrule
    obtain ⟨pairs, hpairs⟩ := Policy.exists_expandPairs_of_mem h (Policy.mem_typeRules.mp hrule) rfl
    exact ⟨_, bind_eq_ok.mpr ⟨default, hdefault, bind_eq_ok.mpr ⟨pairs, hpairs, rfl⟩⟩⟩
  obtain ⟨table, htable, hlists⟩ := exists_groupByKey_mapM hentries
  refine ⟨table, htable, hlists.congr ?_⟩
  intro pair ⟨t, id⟩
  constructor
  · intro ⟨⟨rule, id'⟩, hentry, entries, hentries, hin⟩
    simp only [bind_eq_ok, pure_eq_ok] at hentries
    obtain ⟨default, hdefault, pairs, hpairs, rfl⟩ := hentries
    obtain ⟨pair', hpair, heq⟩ := List.mem_map.mp hin
    cases heq
    obtain ⟨hid, hkind, hclass⟩ := mem_defaultRules.mp hentry
    exact ⟨rule, hid, hkind, hclass, ⟨pairs, hpairs, hpair⟩, hdefault⟩
  · intro ⟨rule, hid, hkind, hclass, ⟨pairs, hpairs, hpair⟩, hdefault⟩
    refine ⟨(rule, id), mem_defaultRules.mpr ⟨hid, hkind, hclass⟩, _,
      bind_eq_ok.mpr ⟨t, hdefault, bind_eq_ok.mpr ⟨pairs, hpairs, rfl⟩⟩, ?_⟩
    exact List.mem_map.mpr ⟨pair, hpair, rfl⟩

theorem exists_ofPolicy (h : d.build = .ok p) : ∃ g, ofPolicy p = .ok g ∧ g.Reads p := by
  obtain ⟨transition, h₁, l₁⟩ := exists_byPair h processClass "transition"
  obtain ⟨dyntransition, h₂, l₂⟩ := exists_byPair h processClass "dyntransition"
  obtain ⟨setexec, h₃, l₃⟩ := exists_bySource h "setexec"
  obtain ⟨setcurrent, h₄, l₄⟩ := exists_bySource h "setcurrent"
  obtain ⟨execute, h₅, l₅⟩ := exists_byPair h fileClass "execute"
  obtain ⟨entrypoint, h₆, l₆⟩ := exists_byPair h fileClass "entrypoint"
  obtain ⟨typeTransition, h₇, l₇⟩ := exists_defaultDomains h
  refine ⟨⟨transition, dyntransition, setexec, setcurrent, execute, entrypoint, typeTransition⟩, ?_,
    l₁, l₂, l₃, l₄, l₅, l₆, l₇⟩
  rw [ofPolicy, h₁, h₂, h₃, h₄, h₅, h₆, h₇]
  rfl

theorem exists_getElem?_iff {ρ : Type} {rules : List ρ} {q : ρ → Prop} :
    (∃ (id : RuleId) (rule : ρ), rules[id]? = some rule ∧ q rule) ↔ ∃ rule ∈ rules, q rule := by
  constructor
  · intro ⟨id, rule, hid, hq⟩
    exact ⟨rule, List.mem_of_getElem? hid, hq⟩
  · intro ⟨rule, hrule, hq⟩
    obtain ⟨id, hid⟩ := List.mem_iff_getElem?.mp hrule
    exact ⟨id, rule, hid, hq⟩

theorem getD_ne_nil_iff {κ ρ : Type} [Ord κ] [Std.TransOrd κ] {table : Std.ExtTreeMap κ (List RuleId)}
    {rules : List ρ} {q : κ → ρ → Prop}
    (h : Lists table fun k id => ∃ rule, rules[id]? = some rule ∧ q k rule) (k : κ) :
    table.getD k [] ≠ [] ↔ ∃ rule ∈ rules, q k rule :=
  (h.getD_ne_nil_iff k).trans exists_getElem?_iff

end Grants

end PolicyAnalysis
