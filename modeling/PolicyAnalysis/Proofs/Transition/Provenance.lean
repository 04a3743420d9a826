import PolicyAnalysis.Proofs.Transition.Halves

/-!
# The rules behind transitions

What an edge cites for a part of a transition are all rules that allow this part between its ends, each once
and in their order. The tables of grants list them so: a rule gives no key twice, and the rules are looked at
one after the other.
-/

namespace PolicyAnalysis

open Checked

variable {d : Draft} {p : Policy} {g : Grants} {s t : TypeId}

/-- All rules with a property, each once and in their order. -/
structure Cites {ρ : Type} (rules : List ρ) (holds : ρ → Prop) (ids : List RuleId) : Prop where
  mem_iff : ∀ id, id ∈ ids ↔ ∃ rule, rules[id]? = some rule ∧ holds rule
  ascending : ids.Pairwise (· < ·)

/-- What a standard transition cites. It goes through files of all types that the one domain may run and the
other be entered through, if the process may choose its domain or has any default for them. -/
structure StandardTransition.Cited (p : Policy) (s t : TypeId) (x : StandardTransition) : Prop where
  transition : Cites p.accessRules (p.Permits · Grants.processClass "transition" s t) x.transition
  setexec : Cites p.accessRules (p.PermitsFrom · "setexec" s) x.setexec
  mem_entrypoints_iff : ∀ file, file ∈ x.entrypoints ↔
    p.Allows Grants.fileClass "execute" s file ∧ p.Allows Grants.fileClass "entrypoint" t file ∧
      (p.AllowsFrom "setexec" s ∨ ∃ domain, p.HasDefault s file domain)
  execute : ∀ file r, x.entrypoints[file]? = some r →
    Cites p.accessRules (p.Permits · Grants.fileClass "execute" s file) r.execute
  entrypoint : ∀ file r, x.entrypoints[file]? = some r →
    Cites p.accessRules (p.Permits · Grants.fileClass "entrypoint" t file) r.entrypoint
  typeTransition : ∀ file r, x.entrypoints[file]? = some r →
    Cites p.typeRules (p.Directs · s file t) r.typeTransition

structure DynamicTransition.Cited (p : Policy) (s t : TypeId) (y : DynamicTransition) : Prop where
  dyntransition : Cites p.accessRules (p.Permits · Grants.processClass "dyntransition" s t) y.dyntransition
  setcurrent : Cites p.accessRules (p.PermitsFrom · "setcurrent" s) y.setcurrent

namespace Grants

/-- Under each key the rules stand in their order if none of them gives a key twice. -/
theorem ascending_of_mapM {ρ κ α : Type} {f : ρ × RuleId → Except PolicyError (List (κ × α))}
    {entries : List (ρ × RuleId)} {rows : List (List (κ × α))} (h : entries.mapM f = .ok rows)
    (hentries : entries.Pairwise fun entry entry' => entry.2 < entry'.2) (id : α → RuleId)
    (hrow : ∀ entry row, f entry = .ok row → (row.map Prod.fst).Nodup ∧ ∀ e ∈ row, id e.2 = entry.2) :
    rows.flatten.Pairwise fun e e' => e.1 = e'.1 → id e.2 < id e'.2 := by
  refine List.pairwise_flatten.mpr ⟨?_, ?_⟩
  · intro row hmem
    obtain ⟨entry, -, hf⟩ := (mem_iff_of_mapM h).mp hmem
    refine (List.pairwise_map.mp (hrow entry row hf).1).imp ?_
    intro e e' hne heq
    exact absurd heq hne
  · refine pairwise_of_mapM h hentries ?_
    intro entry _ entry' _ hlt row row' hf hf' e he e' he' _
    rw [(hrow entry row hf).2 e he, (hrow entry' row' hf').2 e' he']
    exact hlt

theorem ascending_groupRules {κ : Type} [Ord κ] [Std.TransOrd κ] [Std.LawfulEqOrd κ]
    {keys : AccessRule → Except PolicyError (List κ)} (hkeys : ∀ rule ks, keys rule = .ok ks → ks.Nodup)
    {objectClass perm : String} {table : Std.ExtTreeMap κ (List RuleId)}
    (h : (do
      let entries ← (allowRules p objectClass perm).mapM fun (rule, id) => do
        let ks ← keys rule
        return ks.map fun k => (k, id)
      return groupByKey entries.flatten) = (.ok table : Except PolicyError _)) (k : κ) :
    (table.getD k []).Pairwise (· < ·) := by
  obtain ⟨rows, hrows, htable⟩ := bind_eq_ok.mp h
  rw [← pure_eq_ok.mp htable]
  refine pairwise_getD_groupByKey (ascending_of_mapM hrows ?_ id ?_) k
  · exact (Policy.pairwise_zipIdx p.accessRules).filter _
  · intro entry row hrow
    obtain ⟨ks, hks, hrow⟩ := bind_eq_ok.mp hrow
    rw [← pure_eq_ok.mp hrow]
    refine ⟨?_, ?_⟩
    · rw [List.map_map]
      exact (List.map_id ks).symm ▸ hkeys entry.1 ks hks
    · intro e he
      obtain ⟨k, -, rfl⟩ := List.mem_map.mp he
      rfl

theorem ascending_defaultDomains (h : d.build = .ok p)
    {table : Std.ExtTreeMap (TypeId × TypeId) (List (TypeId × RuleId))}
    (htable : defaultDomains p = .ok table) (pair : TypeId × TypeId) :
    (table.getD pair []).Pairwise fun entry entry' => entry.2 < entry'.2 := by
  obtain ⟨rows, hrows, htable⟩ := bind_eq_ok.mp htable
  rw [← pure_eq_ok.mp htable]
  refine pairwise_getD_groupByKey (ascending_of_mapM hrows ?_ Prod.snd ?_) pair
  · exact (Policy.pairwise_zipIdx p.typeRules).filter _
  · intro entry row hrow
    simp only [bind_eq_ok, pure_eq_ok] at hrow
    obtain ⟨default, -, pairs, hpairs, rfl⟩ := hrow
    refine ⟨?_, ?_⟩
    · rw [List.map_map]
      exact (List.map_id pairs).symm ▸ Policy.nodup_of_expandPairs h hpairs
    · intro e he
      obtain ⟨pair, -, rfl⟩ := List.mem_map.mp he
      rfl

structure Ascending (g : Grants) : Prop where
  transition : ∀ pair, (g.transition.getD pair []).Pairwise (· < ·)
  dyntransition : ∀ pair, (g.dyntransition.getD pair []).Pairwise (· < ·)
  setexec : ∀ s, (g.setexec.getD s []).Pairwise (· < ·)
  setcurrent : ∀ s, (g.setcurrent.getD s []).Pairwise (· < ·)
  execute : ∀ pair, (g.execute.getD pair []).Pairwise (· < ·)
  entrypoint : ∀ pair, (g.entrypoint.getD pair []).Pairwise (· < ·)
  typeTransition : ∀ pair, (g.typeTransition.getD pair []).Pairwise fun entry entry' => entry.2 < entry'.2

theorem ascending_ofPolicy (h : d.build = .ok p) (hg : ofPolicy p = .ok g) : g.Ascending := by
  simp only [ofPolicy, bind_eq_ok, pure_eq_ok] at hg
  obtain ⟨transition, h₁, dyntransition, h₂, setexec, h₃, setcurrent, h₄, execute, h₅, entrypoint, h₆,
    typeTransition, h₇, rfl⟩ := hg
  have hpairs (rule : AccessRule) (pairs : List (TypeId × TypeId))
      (hpairs : p.expandPairs rule.source rule.target = .ok pairs) : pairs.Nodup :=
    Policy.nodup_of_expandPairs h hpairs
  have hsources (rule : AccessRule) (ids : List TypeId) (hids : p.expand rule.source = .ok ids) : ids.Nodup :=
    Policy.nodup_of_expand h hids
  exact ⟨ascending_groupRules hpairs h₁, ascending_groupRules hpairs h₂, ascending_groupRules hsources h₃,
    ascending_groupRules hsources h₄, ascending_groupRules hpairs h₅, ascending_groupRules hpairs h₆,
    ascending_defaultDomains h h₇⟩

theorem cites_defaultsTo (h : g.Reads p) (hg : g.Ascending) (s file t : TypeId) :
    Cites p.typeRules (p.Directs · s file t) (g.defaultsTo s file t) where
  mem_iff _ := mem_defaultsTo h
  ascending := by
    rw [defaultsTo, List.pairwise_map]
    exact (hg.typeTransition (s, file)).filter _

theorem mem_entrypoints_iff (h : g.Reads p) {x : StandardTransition} (hx : g.standard? s t = some x)
    (file : TypeId) :
    file ∈ x.entrypoints ↔
      p.Allows fileClass "execute" s file ∧ p.Allows fileClass "entrypoint" t file ∧
        (p.AllowsFrom "setexec" s ∨ ∃ domain, p.HasDefault s file domain) := by
  have hdefault (domain : TypeId) :
      (∃ id rule, p.typeRules[id]? = some rule ∧ p.Directs rule s file domain) ↔ p.HasDefault s file domain :=
    exists_getElem?_iff
  have hdefaults : g.typeTransition.getD (s, file) [] ≠ [] ↔ ∃ domain, p.HasDefault s file domain := by
    rw [h.typeTransition.getD_ne_nil_iff, Prod.exists]
    exact exists_congr hdefault
  obtain ⟨-, rfl⟩ := g.standard?_eq_some_iff.mp hx
  rw [Std.ExtTreeMap.mem_iff_isSome_getElem?, Option.isSome_iff_exists, ← and_assoc, ← mem_sharedFiles_iff h,
    ← hdefaults, Policy.AllowsFrom, ← getD_ne_nil_iff h.setexec s]
  simp only [getElem?_ofList_eq_some_iff (g.nodup_entries s t), mem_entries, entrypoint?_eq_some_iff h,
    exists_and_left, exists_eq', and_true]

theorem cited_of_standard? (h : g.Reads p) (hg : g.Ascending) {x : StandardTransition}
    (hx : g.standard? s t = some x) : x.Cited p s t := by
  have hentry {file : TypeId} {r : Entrypoint} (hr : x.entrypoints[file]? = some r) :
      ⟨g.entrypoint.getD (t, file) [], g.execute.getD (s, file) [], g.defaultsTo s file t⟩ = r := by
    obtain ⟨-, rfl⟩ := g.standard?_eq_some_iff.mp hx
    have hmem := (getElem?_ofList_eq_some_iff (g.nodup_entries s t)).mp hr
    exact ((entrypoint?_eq_some_iff h).mp (mem_entries.mp hmem).2).2
  have hkeys := mem_entrypoints_iff h hx
  obtain ⟨-, rfl⟩ := g.standard?_eq_some_iff.mp hx
  refine ⟨⟨h.transition.mem_getD_iff _, hg.transition _⟩, ⟨h.setexec.mem_getD_iff s, hg.setexec s⟩, hkeys,
    ?_, ?_, ?_⟩
  · intro file r hr
    rw [← hentry hr]
    exact ⟨h.execute.mem_getD_iff _, hg.execute _⟩
  · intro file r hr
    rw [← hentry hr]
    exact ⟨h.entrypoint.mem_getD_iff _, hg.entrypoint _⟩
  · intro file r hr
    rw [← hentry hr]
    exact cites_defaultsTo h hg s file t

theorem cited_of_dynamic? (h : g.Reads p) (hg : g.Ascending) {y : DynamicTransition}
    (hy : g.dynamic? s t = some y) : y.Cited p s t := by
  obtain ⟨-, rfl⟩ := g.dynamic?_eq_some_iff.mp hy
  exact ⟨⟨h.dyntransition.mem_getD_iff _, hg.dyntransition _⟩, ⟨h.setcurrent.mem_getD_iff s, hg.setcurrent s⟩⟩

end Grants

namespace TransitionGraph

theorem cited_of_edge? (h : g.Reads p) (hg : g.Ascending) {e : TransitionEdge}
    (he : (ofGrants g).edge? s t = some e) :
    (∀ x, e.standard = some x → x.Cited p s t) ∧ ∀ y, e.dynamic = some y → y.Cited p s t := by
  rw [edge?_ofGrants h, Option.ite_none_right_eq_some] at he
  obtain ⟨-, rfl⟩ := g.edge?_eq_some_iff.mp he.2
  exact ⟨fun x hx => Grants.cited_of_standard? h hg hx, fun y hy => Grants.cited_of_dynamic? h hg hy⟩

/-- Each half of an edge that is there cites all rules that allow its parts between the ends of the edge,
each once and in their order, and has an entry for every type of file that it goes through. The same is so of
the rules that are gathered step by step. -/
theorem ofPolicy_cites {name : String} {statements : List Statement}
    (built : Policy.build name statements = .ok p) :
    ∃ graph rules, ofPolicy p = .ok graph ∧ EdgeRules.ofPolicy p = .ok rules ∧
      (∀ s t e, graph.edge? s t = some e →
        (∀ x, e.standard = some x → x.Cited p s t) ∧ ∀ y, e.dynamic = some y → y.Cited p s t) ∧
      ∀ s t e, rules.edge? s t = some e →
        (e.isStandard → (StandardTransition.mk e.transition e.setexec e.entrypoints).Cited p s t) ∧
        (e.isDynamic → (DynamicTransition.mk e.dyntransition e.setcurrent).Cited p s t) := by
  obtain ⟨g, hgrants, h⟩ := Grants.exists_ofPolicy built
  have hg := Grants.ascending_ofPolicy built hgrants
  refine ⟨ofGrants g, g.gathered, ?_, ?_, fun s t e => cited_of_edge? h hg, ?_⟩
  · rw [ofPolicy, hgrants]
    rfl
  · rw [EdgeRules.ofPolicy, hgrants]
    rfl
  · intro s t e he
    rw [Grants.edge?_gathered h] at he
    obtain ⟨⟨standard, dynamic⟩, hedge, rfl⟩ := Option.map_eq_some_iff.mp he
    obtain ⟨hstandard, hdynamic⟩ := cited_of_edge? h hg hedge
    constructor
    · intro hrules
      cases standard with
      | none => cases hrules
      | some x => exact hstandard x rfl
    · intro hrules
      cases dynamic with
      | none => cases hrules
      | some y => exact hdynamic y rfl

def junctionStatements : List Statement := [
  .type "a_t" (.ofList ["domain"]),
  .type "b_t" (.ofList ["domain"]),
  .type "x_t" (.ofList ["program"]),
  .type "y_t" (.ofList ["program"]),
  .objectClass "process" none (.ofList ["dyntransition", "setcurrent", "transition"]),
  .objectClass "file" none (.ofList ["entrypoint", "execute"]),
  .rule (.access ⟨.allow, "domain", "domain", "process", .ofList ["transition"], none⟩),
  .rule (.access ⟨.allow, "a_t", "x_t", "file", .ofList ["execute"], none⟩),
  .rule (.access ⟨.allow, "a_t", "b_t", "process", .ofList ["dyntransition", "transition"], none⟩),
  .rule (.access ⟨.allow, "b_t", "program", "file", .ofList ["entrypoint"], none⟩),
  .rule (.access ⟨.allow, "domain", "program", "file", .ofList ["execute"], none⟩),
  .rule (.access ⟨.allow, "a_t", "self", "process", .ofList ["setcurrent"], none⟩),
  .rule (.type ⟨.transition, "a_t", "x_t", "process", "b_t", none, none⟩),
  .rule (.type ⟨.transition, "domain", "program", "process", "b_t", none, none⟩)]

/-- Rules on attributes allow what rules on the types in them allow too. -/
def junction : Policy :=
  match Policy.build "junction" junctionStatements with
  | .ok p => p
  | .error _ => (Draft.ofStatements "junction" []).start

theorem build_junction : Policy.build "junction" junctionStatements = .ok junction := by rfl

def junctionRules : EdgeRules where
  transition := [0, 2]
  dyntransition := [2]
  setcurrent := [5]
  entrypoints := .ofList [(2, Entrypoint.mk [3] [1, 4] [0, 1]), (3, Entrypoint.mk [3] [4] [1])]

theorem exists_ofPolicy_cites_junction :
    Policy.build "junction" junctionStatements = .ok junction ∧
      ∃ rules, EdgeRules.ofPolicy junction = .ok rules ∧ rules.edge? 0 1 = some junctionRules ∧
        (StandardTransition.mk [0, 2] [] junctionRules.entrypoints).Cited junction 0 1 ∧
        (DynamicTransition.mk [2] [5]).Cited junction 0 1 := by
  obtain ⟨-, rules, -, hrules, -, hcited⟩ := ofPolicy_cites build_junction
  have hedge : rules.edge? 0 1 = some junctionRules := by
    cases hrules
    decide +kernel
  obtain ⟨hstandard, hdynamic⟩ := hcited 0 1 _ hedge
  exact ⟨build_junction, rules, hrules, hedge, hstandard (by decide), hdynamic (by decide)⟩

end TransitionGraph

end PolicyAnalysis
