import PolicyAnalysis.Proofs.Flow.Contributions

/-!
# The graph of flows is exact

Drawing the graph fails exactly if a permission of a rule that allows has no entry in the map, for the first
of them. Otherwise the edges and their contributions are those that the rules of the policy account for.
-/

namespace PolicyAnalysis

open Checked

variable {d : Draft} {p : Policy} {m : PermissionMap}

/-- No rule that allows is missing an entry before this one, and no permission of it before this one. -/
structure FirstUnmapped (p : Policy) (m : PermissionMap) (rule : AccessRule) (perm : String) : Prop where
  allows : rule.kind = .allow
  missing : m.FirstMissing rule perm
  before : ∃ before after, p.accessRules = before ++ rule :: after ∧
    ∀ r ∈ before, r.kind = .allow → m.Maps r

namespace FlowGraph

theorem ofPolicy_eq_ok {g : FlowGraph} (h : ofPolicy p m = .ok g) :
    ∃ rows, p.accessRules.zipIdx.mapM (ruleFlows p m) = .ok rows ∧ rows.flatten.foldl put .empty = g := by
  rwa [ofPolicy_eq_map, map_eq_ok] at h

theorem ofPolicy_eq_error (hd : d.build = .ok p) {e : Error} :
    ofPolicy p m = .error e ↔
      ∃ rule perm, FirstUnmapped p m rule perm ∧ .permissionMap (m.missing rule.objectClass perm) = e := by
  rw [ofPolicy_eq_map, map_eq_error, mapM_eq_error]
  constructor
  · rintro ⟨before, ⟨rule, id⟩, after, hsplit, hbefore, herror⟩
    have hrules : p.accessRules = before.map Prod.fst ++ rule :: after.map Prod.fst := by
      rw [← List.zipIdx_map_fst 0 p.accessRules, hsplit, List.map_append, List.map_cons]
    have hdeclares (r : AccessRule) (hr : r ∈ before.map Prod.fst ++ rule :: after.map Prod.fst) :
        p.Declares r :=
      Policy.declares_of_mem_accessRules hd (hrules ▸ hr)
    have hrule := hdeclares rule (List.mem_append_right _ List.mem_cons_self)
    obtain ⟨hkind, perm, hperm, he⟩ := (ruleFlows_eq_error hrule).mp herror
    refine ⟨rule, perm, ⟨hkind, hperm, _, _, hrules, ?_⟩, he⟩
    intro r hr
    obtain ⟨⟨r, id'⟩, hmem, rfl⟩ := List.mem_map.mp hr
    exact (exists_ruleFlows_iff (hdeclares r (List.mem_append_left _ hr))).mp (hbefore _ hmem)
  · rintro ⟨rule, perm, ⟨hkind, hperm, before, after, hrules, hbefore⟩, he⟩
    have hdeclares (r : AccessRule) (hr : r ∈ before ++ rule :: after) : p.Declares r :=
      Policy.declares_of_mem_accessRules hd (hrules ▸ hr)
    refine ⟨before.zipIdx, (rule, before.length), after.zipIdx (before.length + 1), ?_, ?_, ?_⟩
    · rw [hrules, List.zipIdx_append, List.zipIdx_cons, Nat.zero_add]
    · rintro ⟨r, id⟩ hr
      have hr : r ∈ before := List.fst_mem_of_mem_zipIdx hr
      exact (exists_ruleFlows_iff (hdeclares r (List.mem_append_left _ hr))).mpr (hbefore r hr)
    · have hrule := hdeclares rule (List.mem_append_right _ List.mem_cons_self)
      exact (ruleFlows_eq_error hrule).mpr ⟨hkind, perm, hperm, he⟩

theorem exists_ofPolicy_eq_error_iff (hd : d.build = .ok p) :
    (∃ e, ofPolicy p m = .error e) ↔
      ∃ rule ∈ p.accessRules, rule.kind = .allow ∧
        ∃ perm ∈ rule.perms, m.entry? rule.objectClass perm = none := by
  constructor
  · intro ⟨e, he⟩
    obtain ⟨rule, perm, hfirst, -⟩ := (ofPolicy_eq_error hd).mp he
    obtain ⟨before, after, hrules, -⟩ := hfirst.before
    refine ⟨rule, ?_, hfirst.allows, perm, hfirst.missing.mem, hfirst.missing.missing⟩
    rw [hrules]
    exact List.mem_append_right before List.mem_cons_self
  · intro ⟨rule, hrule, hkind, perm, hperm, hmissing⟩
    cases hgraph : ofPolicy p m with
    | error e => exact ⟨e, rfl⟩
    | ok g =>
      -- The flows of the rule could not have been worked out.
      obtain ⟨rows, hrows, -⟩ := ofPolicy_eq_ok hgraph
      obtain ⟨id, hid⟩ := List.mem_iff_getElem?.mp hrule
      have hflows := exists_mapM_eq_ok.mp ⟨rows, hrows⟩ _ (List.mk_mem_zipIdx_iff_getElem?.mpr hid)
      have hmaps := (exists_ruleFlows_iff (Policy.declares_of_mem_accessRules hd hrule)).mp hflows hkind
      obtain ⟨x, hx⟩ := hmaps perm hperm
      cases hmissing.symm.trans hx

theorem mem_between {rows : List (List Flow)} (h : p.accessRules.zipIdx.mapM (ruleFlows p m) = .ok rows)
    (s t : TypeId) (c : Contribution) :
    c ∈ between s t rows.flatten ↔ s ≠ t ∧
      ∃ rule, p.accessRules[c.rule]? = some rule ∧ Contributes p m rule s t c.direction c.weight := by
  have hflow : c ∈ between s t rows.flatten ↔ (⟨s, t, c⟩ : Flow) ∈ rows.flatten := by
    simp only [between, List.mem_map, List.mem_filter, decide_eq_true_eq]
    constructor
    · intro h
      obtain ⟨f, ⟨hf, rfl, rfl⟩, rfl⟩ := h
      exact hf
    · intro hf
      exact ⟨_, ⟨hf, rfl, rfl⟩, rfl⟩
  rw [hflow, List.mem_flatten]
  constructor
  · intro hc
    obtain ⟨flows, hflows, hf⟩ := hc
    obtain ⟨⟨rule, id⟩, hmem, hrule⟩ := (mem_iff_of_mapM h).mp hflows
    obtain ⟨hid, hne, hcontributes⟩ := (mem_ruleFlows hrule _).mp hf
    rw [List.mk_mem_zipIdx_iff_getElem?, ← hid] at hmem
    exact ⟨hne, rule, hmem, hcontributes⟩
  · intro hrules
    obtain ⟨hne, rule, hrule, hcontributes⟩ := hrules
    have hmem : (rule, c.rule) ∈ p.accessRules.zipIdx := List.mk_mem_zipIdx_iff_getElem?.mpr hrule
    obtain ⟨flows, hflows⟩ := exists_mapM_eq_ok.mp ⟨rows, h⟩ _ hmem
    exact ⟨flows, (mem_iff_of_mapM h).mpr ⟨_, hmem, hflows⟩,
      (mem_ruleFlows hflows _).mpr ⟨rfl, hne, hcontributes⟩⟩

theorem edge?_ofPolicy_eq_some {rows : List (List Flow)}
    (h : p.accessRules.zipIdx.mapM (ruleFlows p m) = .ok rows) {g : FlowGraph} (hg : ofPolicy p m = .ok g)
    {s t : TypeId} {e : FlowEdge} :
    g.edge? s t = some e ↔ .ofContributions (between s t rows.flatten) = e ∧ e.contributions ≠ [] := by
  obtain ⟨rows', hrows', rfl⟩ := ofPolicy_eq_ok hg
  rw [Except.ok.inj (h.symm.trans hrows'), edge?_foldl_put]
  by_cases hnone : between s t rows'.flatten = []
  · rw [if_pos hnone, hnone]
    simp only [reduceCtorEq, false_iff, not_and, not_not]
    rintro rfl
    rfl
  · rw [if_neg hnone, Option.some.injEq, iff_self_and]
    rintro rfl
    rwa [FlowEdge.contributions_ofContributions]

/-- An edge of the graph holds some contributions, all of them positive, and was put together from them. -/
theorem edge_ofPolicy {g : FlowGraph} (hg : ofPolicy p m = .ok g) {s t : TypeId} {e : FlowEdge}
    (he : g.edge? s t = some e) : ∃ rows, p.accessRules.zipIdx.mapM (ruleFlows p m) = .ok rows ∧
      between s t rows.flatten = e.contributions ∧ e.contributions ≠ [] ∧ e.recompute = e := by
  obtain ⟨rows, hrows, -⟩ := ofPolicy_eq_ok hg
  obtain ⟨rfl, hne⟩ := (edge?_ofPolicy_eq_some hrows hg).mp he
  rw [FlowEdge.recompute, FlowEdge.contributions_ofContributions] at *
  exact ⟨rows, hrows, rfl, hne, rfl⟩

theorem hasEdge_ofPolicy_iff {g : FlowGraph} (hg : ofPolicy p m = .ok g) (s t : TypeId) :
    g.hasEdge s t ↔
      s ≠ t ∧ ∃ rule ∈ p.accessRules, ∃ direction w, Contributes p m rule s t direction w := by
  obtain ⟨rows, hrows, -⟩ := ofPolicy_eq_ok hg
  rw [Digraph.hasEdge_iff]
  constructor
  · intro hedge
    obtain ⟨e, he⟩ := hedge
    obtain ⟨rfl, hne⟩ := (edge?_ofPolicy_eq_some hrows hg).mp he
    obtain ⟨c, hc⟩ := List.exists_mem_of_ne_nil _ hne
    rw [FlowEdge.contributions_ofContributions] at hc
    obtain ⟨hst, rule, hrule, hcontributes⟩ := (mem_between hrows s t c).mp hc
    exact ⟨hst, rule, List.mem_of_getElem? hrule, c.direction, c.weight, hcontributes⟩
  · intro hrules
    obtain ⟨hst, rule, hrule, direction, w, hcontributes⟩ := hrules
    obtain ⟨id, hid⟩ := List.mem_iff_getElem?.mp hrule
    have hc : (⟨id, direction, w⟩ : Contribution) ∈ between s t rows.flatten :=
      (mem_between hrows s t _).mpr ⟨hst, rule, hid, hcontributes⟩
    refine ⟨_, (edge?_ofPolicy_eq_some hrows hg).mpr ⟨rfl, ?_⟩⟩
    rw [FlowEdge.contributions_ofContributions]
    exact List.ne_nil_of_mem hc

theorem mem_contributions_ofPolicy {g : FlowGraph} (hg : ofPolicy p m = .ok g) {s t : TypeId} {e : FlowEdge}
    (he : g.edge? s t = some e) (c : Contribution) :
    c ∈ e.contributions ↔
      ∃ rule, p.accessRules[c.rule]? = some rule ∧ Contributes p m rule s t c.direction c.weight := by
  obtain ⟨rows, hrows, hbetween, -, -⟩ := edge_ofPolicy hg he
  have hst : s ≠ t := ((hasEdge_ofPolicy_iff hg s t).mp ((g.hasEdge_iff s t).mpr ⟨e, he⟩)).1
  rw [← hbetween, mem_between hrows]
  exact and_iff_right hst

theorem nodup_contributions_ofPolicy (hd : d.build = .ok p) {g : FlowGraph} (hg : ofPolicy p m = .ok g)
    {s t : TypeId} {e : FlowEdge} (he : g.edge? s t = some e) :
    (e.contributions.map fun c => (c.rule, c.direction)).Nodup := by
  obtain ⟨rows, hrows, hbetween, -, -⟩ := edge_ofPolicy hg he
  rw [← hbetween]
  exact nodup_between (pairwise_flows hd hrows) s t

theorem weighed_ofPolicy {g : FlowGraph} (hg : ofPolicy p m = .ok g) {s t : TypeId} {e : FlowEdge}
    (he : g.edge? s t = some e) : e.Weighed := by
  obtain ⟨-, -, -, -, hrecompute⟩ := edge_ofPolicy hg he
  exact hrecompute ▸ FlowEdge.weighed_ofContributions e.contributions

/-- Drawing fails exactly for a permission without an entry, the first one in the order of rules and names.
Otherwise there is an edge from a type to another wherever a rule accounts for one; each such rule
contributes once in each direction that it accounts for, with its greatest weight, and an edge weighs as
much as its heaviest contribution. -/
theorem ofPolicy_exact {name : String} {statements : List Statement}
    (built : Policy.build name statements = .ok p) (m : PermissionMap) :
    ((∃ e, ofPolicy p m = .error e) ↔
      ∃ rule ∈ p.accessRules, rule.kind = .allow ∧
        ∃ perm ∈ rule.perms, m.entry? rule.objectClass perm = none) ∧
    (∀ e, ofPolicy p m = .error e ↔
      ∃ rule perm, FirstUnmapped p m rule perm ∧ .permissionMap (m.missing rule.objectClass perm) = e) ∧
    ∀ g, ofPolicy p m = .ok g → ∀ s t,
      (g.hasEdge s t ↔
        s ≠ t ∧ ∃ rule ∈ p.accessRules, ∃ direction w, Contributes p m rule s t direction w) ∧
      ∀ e, g.edge? s t = some e →
        (e.contributions.map fun c => (c.rule, c.direction)).Nodup ∧
        (∀ c, c ∈ e.contributions ↔
          ∃ rule, p.accessRules[c.rule]? = some rule ∧ Contributes p m rule s t c.direction c.weight) ∧
        ∀ direction, IsGreatest ({0} ∪ {w | ∃ c ∈ e.contributions, c.direction = direction ∧ c.weight = w})
          (e.weightIn direction) := by
  refine ⟨exists_ofPolicy_eq_error_iff built, fun e => ofPolicy_eq_error built, ?_⟩
  intro g hg s t
  refine ⟨hasEdge_ofPolicy_iff hg s t, ?_⟩
  intro e he
  exact ⟨nodup_contributions_ofPolicy built hg he, mem_contributions_ofPolicy hg he, weighed_ofPolicy hg he⟩

def peersStatements : List Statement := [
  .type "alice_t" (.ofList ["peer"]),
  .type "bob_t" (.ofList ["peer"]),
  .objectClass "file" none (.ofList ["read", "write"]),
  .rule (.access ⟨.allow, "peer", "peer", "file", .ofList ["read", "write"], none⟩)]

def peers : Policy :=
  match Policy.build "peers" peersStatements with
  | .ok p => p
  | .error _ => (Draft.ofStatements "peers" []).start

def peersMap : PermissionMap :=
  (PermissionMap.empty.put "file" "read" ⟨.read, 5, true⟩).put "file" "write" ⟨.write, 3, true⟩

/-- One rule contributes to the edge between its types in both directions. Without any entries, drawing
fails. -/
theorem exists_ofPolicy_peers :
    Policy.build "peers" peersStatements = .ok peers ∧ (∃ e, ofPolicy peers .empty = .error e) ∧
      ∃ g e, ofPolicy peers peersMap = .ok g ∧ g.edge? 0 1 = some e ∧
        (e.contributions.map fun c => (c.rule, c.direction)).Nodup ∧
        ∃ rule, peers.accessRules[0]? = some rule ∧ Contributes peers peersMap rule 0 1 .write 3 := by
  have built : Policy.build "peers" peersStatements = .ok peers := by rfl
  refine ⟨built, (ofPolicy_exact built .empty).1.mpr ?_, ?_⟩
  · refine ⟨_, List.mem_singleton.mpr rfl, rfl, "read", ?_, rfl⟩
    exact Std.ExtTreeSet.contains_iff_mem.mp (by decide)
  · obtain ⟨g, hg⟩ : ∃ g, ofPolicy peers peersMap = .ok g := ⟨_, rfl⟩
    have hedge : g.edge? 0 1 = some ⟨[⟨0, .write, 3⟩, ⟨0, .read, 5⟩], 5, 3⟩ := by
      cases hg
      decide
    obtain ⟨hnodup, hmem, -⟩ := ((ofPolicy_exact built peersMap).2.2 g hg 0 1).2 _ hedge
    exact ⟨g, _, hg, hedge, hnodup, (hmem ⟨0, .write, 3⟩).mp List.mem_cons_self⟩

end FlowGraph

end PolicyAnalysis
