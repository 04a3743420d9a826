import PolicyAnalysis.Flow.Filter
import PolicyAnalysis.Proofs.Flow.Graph
import PolicyAnalysis.Proofs.Policy.Booleans

/-!
# Filters on flows are exact

Applying a filter cannot fail if the booleans it chooses are declared. An edge is left if its ends are not
excluded and what remains of its contributions is heavy enough; it then holds just these.
-/

namespace PolicyAnalysis.FlowFilter

open Checked

variable {d : Draft} {p : Policy} {m : PermissionMap} {f : FlowFilter}

/-- The rule of a contribution is not one that the choice of booleans turns off. -/
def Counts (f : FlowFilter) (p : Policy) (c : Contribution) : Prop :=
  ∀ booleans, f.booleans = some booleans → ∀ rule place, p.accessRules[c.rule]? = some rule →
    rule.conditional = some place → p.Active booleans place

open Classical in
noncomputable def remaining (f : FlowFilter) (p : Policy) (g : FlowGraph) (s t : TypeId) :
    List Contribution :=
  (((g.edge? s t).map FlowEdge.contributions).getD []).filter fun c => f.Counts p c

def isDisabled (p : Policy) (booleans : NameTable Bool) (rule : AccessRule) : Except PolicyError Bool :=
  match rule.conditional with
  | some place => return !(← p.isEnabled place booleans)
  | none => return false

theorem exists_isDisabled {rule : AccessRule} (hrule : p.Declares rule) {booleans : NameTable Bool}
    (hdeclared : ∀ name ∈ booleans, name ∈ p.booleans) :
    ∃ b, isDisabled p booleans rule = .ok b ∧
      (b = true ↔ ∃ place, rule.conditional = some place ∧ ¬ p.Active booleans place) := by
  rw [isDisabled]
  cases hplace : rule.conditional with
  | none => exact ⟨false, rfl, by simp⟩
  | some place =>
    obtain ⟨active, hactive⟩ := Policy.exists_isEnabled (hrule.booleans place hplace) hdeclared
    refine ⟨!active, ?_, ?_⟩
    · simp only [hactive]
      rfl
    · have hiff : p.isEnabled place booleans = .ok true ↔ p.Active booleans place :=
        Policy.isEnabled_eq_ok_true_iff hdeclared
      simp only [Option.some.injEq, exists_eq_left', ← hiff, hactive]
      cases active <;> simp

theorem exists_disabledRules (hd : d.build = .ok p) {booleans : NameTable Bool}
    (hdeclared : ∀ name ∈ booleans, name ∈ p.booleans) :
    ∃ disabled, disabledRules p booleans = .ok disabled ∧ ∀ id, id ∈ disabled ↔
      ∃ rule place, p.accessRules[id]? = some rule ∧ rule.conditional = some place ∧
        ¬ p.Active booleans place := by
  have hrule (rule : AccessRule) (id : RuleId) (h : (rule, id) ∈ p.accessRules.zipIdx) : p.Declares rule :=
    Policy.declares_of_mem_accessRules hd (List.fst_mem_of_mem_zipIdx h)
  have htotal (entry : AccessRule × RuleId) (h : entry ∈ p.accessRules.zipIdx) :
      ∃ b, isDisabled p booleans entry.1 = .ok b := by
    obtain ⟨b, hb, -⟩ := exists_isDisabled (hrule entry.1 entry.2 h) hdeclared
    exact ⟨b, hb⟩
  obtain ⟨kept, hkept, hmem⟩ := exists_filterM_eq_ok htotal
  refine ⟨.ofList (kept.map (·.2)), bind_eq_ok.mpr ⟨kept, hkept, rfl⟩, ?_⟩
  intro id
  rw [Std.ExtTreeSet.mem_ofList, List.contains_iff_mem, List.mem_map]
  constructor
  · rintro ⟨⟨rule, id⟩, hentry, rfl⟩
    obtain ⟨hentry, hdisabled⟩ := (hmem _).mp hentry
    obtain ⟨b, hb, hiff⟩ := exists_isDisabled (hrule rule id hentry) hdeclared
    rw [hdisabled] at hb
    cases hb
    obtain ⟨place, hplace, hactive⟩ := hiff.mp rfl
    exact ⟨rule, place, List.mk_mem_zipIdx_iff_getElem?.mp hentry, hplace, hactive⟩
  · intro ⟨rule, place, hid, hplace, hactive⟩
    have hentry : (rule, id) ∈ p.accessRules.zipIdx := List.mk_mem_zipIdx_iff_getElem?.mpr hid
    obtain ⟨b, hb, hiff⟩ := exists_isDisabled (hrule rule id hentry) hdeclared
    rw [hiff.mpr ⟨place, hplace, hactive⟩] at hb
    exact ⟨(rule, id), (hmem _).mpr ⟨hentry, hb⟩, rfl⟩

theorem exists_apply (hd : d.build = .ok p)
    (hdeclared : ∀ booleans, f.booleans = some booleans → ∀ name ∈ booleans, name ∈ p.booleans)
    (g : FlowGraph) :
    ∃ disabled, f.apply p g = .ok (f.dropLight (dropRules disabled (f.dropExcluded g))) ∧
      ∀ c, c.rule ∉ disabled ↔ f.Counts p c := by
  cases hbooleans : f.booleans with
  | none =>
    refine ⟨∅, ?_, ?_⟩
    · rw [apply, hbooleans]
      rfl
    · intro c
      simp [Counts, hbooleans]
  | some booleans =>
    obtain ⟨disabled, hdisabled, hmem⟩ := exists_disabledRules hd (hdeclared booleans hbooleans)
    refine ⟨disabled, ?_, ?_⟩
    · rw [apply, hbooleans]
      simp only [hdisabled]
      rfl
    · intro c
      rw [hmem]
      constructor
      · intro hnone booleans' hbooleans' rule place hrule hplace
        rw [hbooleans] at hbooleans'
        cases hbooleans'
        by_contra hactive
        exact hnone ⟨rule, place, hrule, hplace, hactive⟩
      · intro hcounts ⟨rule, place, hrule, hplace, hactive⟩
        exact hactive (hcounts booleans hbooleans rule place hrule hplace)

theorem isGreatest_weight {e : FlowEdge} (weighed : e.Weighed) (h : e.contributions ≠ []) :
    IsGreatest {w | ∃ c ∈ e.contributions, c.weight = w} e.weight := by
  have hread := weighed .read
  have hwrite := weighed .write
  obtain ⟨c, hc⟩ := List.exists_mem_of_ne_nil _ h
  have hnonempty : {w | ∃ c ∈ e.contributions, c.weight = w}.Nonempty := ⟨c.weight, c, hc, rfl⟩
  rw [← isGreatest_zero_union hnonempty, FlowEdge.weight]
  constructor
  · rcases Nat.le_total e.readWeight e.writeWeight with hle | hle
    · rw [Nat.max_eq_right hle]
      exact hwrite.1.imp_right fun ⟨c, hc, _, hw⟩ => ⟨c, hc, hw⟩
    · rw [Nat.max_eq_left hle]
      exact hread.1.imp_right fun ⟨c, hc, _, hw⟩ => ⟨c, hc, hw⟩
  · rintro w (hzero | ⟨c, hc, hw⟩)
    · rw [hzero]
      exact Nat.zero_le _
    · cases hdirection : c.direction with
      | read => exact (hread.2 (Or.inr ⟨c, hc, hdirection, hw⟩)).trans (Nat.le_max_left _ _)
      | write => exact (hwrite.2 (Or.inr ⟨c, hc, hdirection, hw⟩)).trans (Nat.le_max_right _ _)

variable {disabled : Std.ExtTreeSet RuleId} {g : FlowGraph} {s t : TypeId} {e e' : FlowEdge}

theorem contributions_strike (rules : Std.ExtTreeSet RuleId) (e : FlowEdge) :
    (strike rules e).contributions = e.contributions.filter fun c => !rules.contains c.rule := by
  rw [strike]
  split
  · rw [FlowEdge.recompute, FlowEdge.contributions_ofContributions]
  · rfl

/-- An edge that was weighed right is so after rules have been taken from it, whether or not it is weighed anew. -/
theorem strike_eq_ofContributions (weighed : e.recompute = e) (rules : Std.ExtTreeSet RuleId) :
    strike rules e = .ofContributions (e.contributions.filter fun c => !rules.contains c.rule) := by
  rw [strike]
  split
  next => rw [FlowEdge.recompute]
  next hsame =>
    have hall : (e.contributions.filter fun c => !rules.contains c.rule) = e.contributions :=
      List.filter_eq_self.mpr (List.length_filter_eq_length_iff.mp (not_not.mp hsame))
    rw [hall, ← FlowEdge.recompute, weighed]

theorem edge?_dropExcluded (f : FlowFilter) (g : FlowGraph) (s t : TypeId) (e : FlowEdge) :
    (f.dropExcluded g).edge? s t = some e ↔ s ∉ f.exclude ∧ t ∉ f.exclude ∧ g.edge? s t = some e := by
  rw [dropExcluded]
  split
  next hempty =>
    simp [Std.ExtTreeSet.isEmpty_iff.mp hempty]
  next =>
    rw [Digraph.edge?_filterEdges, Option.bind_eq_some_iff, ← Std.ExtTreeSet.contains_iff_mem,
      ← Std.ExtTreeSet.contains_iff_mem]
    constructor
    · rintro ⟨e', he', hkept⟩
      split at hkept <;> simp_all
    · rintro ⟨hs, ht, he⟩
      exact ⟨e, he, by simp [hs, ht]⟩

theorem edge?_dropRules (whole : ∀ e, g.edge? s t = some e → e.contributions ≠ [] ∧ e.recompute = e) :
    (dropRules disabled g).edge? s t = some e' ↔ ∃ e, g.edge? s t = some e ∧
      .ofContributions (e.contributions.filter fun c => !disabled.contains c.rule) = e' ∧
        e'.contributions ≠ [] := by
  rw [dropRules]
  split
  next hnone =>
    have hall (e : FlowEdge) : (e.contributions.filter fun c => !disabled.contains c.rule) = e.contributions := by
      simp [Std.ExtTreeSet.isEmpty_iff.mp hnone]
    simp only [hall]
    constructor
    · intro he'
      exact ⟨e', he', (whole e' he').2, (whole e' he').1⟩
    · rintro ⟨e, he, rfl, -⟩
      rw [← FlowEdge.recompute, (whole e he).2]
      exact he
  next =>
    rw [Digraph.edge?_filterEdges, Option.bind_eq_some_iff]
    refine exists_congr fun e => and_congr_right fun he => ?_
    simp only [strike_eq_ofContributions (whole e he).2, Option.ite_none_left_eq_some, List.isEmpty_iff,
      Option.some.injEq]
    constructor
    · rintro ⟨hne, rfl⟩
      exact ⟨rfl, hne⟩
    · rintro ⟨rfl, hne⟩
      exact ⟨hne, rfl⟩

theorem edge?_dropLight (heavy : ∀ e, g.edge? s t = some e → Weight.min ≤ e.weight) :
    (f.dropLight g).edge? s t = some e ↔ g.edge? s t = some e ∧ f.minWeight ≤ e.weight := by
  rw [dropLight]
  split
  next =>
    rw [Digraph.edge?_filterEdges, Option.bind_eq_some_iff]
    constructor
    · rintro ⟨e', he', hkept⟩
      split at hkept <;> simp_all
    · rintro ⟨he, hweight⟩
      exact ⟨e, he, if_pos hweight⟩
  next hleast =>
    rw [iff_self_and]
    intro he
    have := heavy e he
    omega

/-- The edges that the passes of a filter leave, by what remains of their contributions. -/
theorem edge?_passes (hg : FlowGraph.ofPolicy p m = .ok g) (hcounts : ∀ c, c.rule ∉ disabled ↔ f.Counts p c)
    (s t : TypeId) (e : FlowEdge) :
    (f.dropLight (dropRules disabled (f.dropExcluded g))).edge? s t = some e ↔ s ∉ f.exclude ∧ t ∉ f.exclude ∧
      .ofContributions (f.remaining p g s t) = e ∧ e.contributions ≠ [] ∧ f.minWeight ≤ e.weight := by
  classical
  have hremaining (e : FlowEdge) (he : g.edge? s t = some e) :
      f.remaining p g s t = e.contributions.filter fun c => !disabled.contains c.rule := by
    rw [remaining, he]
    apply List.filter_congr
    intro c _
    rw [Bool.eq_iff_iff, decide_eq_true_iff, ← hcounts, Bool.not_eq_true', ← Bool.not_eq_true,
      Std.ExtTreeSet.contains_iff_mem]
  have hrules (e' : FlowEdge) : (dropRules disabled (f.dropExcluded g)).edge? s t = some e' ↔
      s ∉ f.exclude ∧ t ∉ f.exclude ∧ .ofContributions (f.remaining p g s t) = e' ∧ e'.contributions ≠ [] := by
    rw [edge?_dropRules]
    · simp only [edge?_dropExcluded]
      constructor
      · rintro ⟨e, ⟨hs, ht, he⟩, hrest⟩
        exact ⟨hs, ht, hremaining e he ▸ hrest⟩
      · rintro ⟨hs, ht, rfl, hne⟩
        cases he : g.edge? s t with
        | none =>
          have hnil : f.remaining p g s t = [] := by
            rw [remaining, he]
            rfl
          exact absurd (by rw [hnil]; rfl) hne
        | some e => exact ⟨e, ⟨hs, ht, rfl⟩, hremaining e he ▸ ⟨rfl, hne⟩⟩
    · intro e he
      obtain ⟨-, -, -, hne, hrecompute⟩ := FlowGraph.edge_ofPolicy hg ((edge?_dropExcluded f g s t e).mp he).2.2
      exact ⟨hne, hrecompute⟩
  rw [edge?_dropLight, hrules, and_assoc, and_assoc, and_assoc]
  intro e' he'
  obtain ⟨-, -, rfl, hne⟩ := (hrules e').mp he'
  -- What remains is positive, so the pass that is left out would not have taken the edge.
  obtain ⟨c, hc, hw⟩ := (isGreatest_weight (FlowEdge.weighed_ofContributions _) hne).1
  rw [FlowEdge.contributions_ofContributions, remaining, List.mem_filter] at hc
  obtain ⟨hc, -⟩ := hc
  cases he : g.edge? s t with
  | none => simp [he] at hc
  | some e =>
    rw [he] at hc
    obtain ⟨rule, -, hcontributes⟩ := (FlowGraph.mem_contributions_ofPolicy hg he c).mp hc
    rw [← hw]
    exact hcontributes.pos

theorem nodes_passes (f : FlowFilter) (disabled : Std.ExtTreeSet RuleId) (g : FlowGraph) :
    (f.dropLight (dropRules disabled (f.dropExcluded g))).nodes = g.nodes := by
  have hexcluded : (f.dropExcluded g).nodes = g.nodes := by
    rw [dropExcluded]
    split
    · rfl
    · exact g.nodes_filterEdges _
  have hrules : (dropRules disabled (f.dropExcluded g)).nodes = (f.dropExcluded g).nodes := by
    rw [dropRules]
    split
    · rfl
    · exact (f.dropExcluded g).nodes_filterEdges _
  rw [dropLight]
  split
  · rw [Digraph.nodes_filterEdges, hrules, hexcluded]
  · rw [hrules, hexcluded]

/-- A filter keeps all nodes and, between types that it does not exclude, the edges for which enough remains
of their contributions. -/
theorem apply_exact {name : String} {statements : List Statement}
    (built : Policy.build name statements = .ok p) (hg : FlowGraph.ofPolicy p m = .ok g) (f : FlowFilter)
    (declared : ∀ booleans, f.booleans = some booleans → ∀ name ∈ booleans, name ∈ p.booleans) :
    ∃ h, f.apply p g = .ok h ∧ h.nodes = g.nodes ∧ ∀ s t,
      (h.hasEdge s t ↔ s ∉ f.exclude ∧ t ∉ f.exclude ∧ f.remaining p g s t ≠ [] ∧
        ∃ w, IsGreatest {w | ∃ c ∈ f.remaining p g s t, c.weight = w} w ∧ f.minWeight ≤ w) ∧
      ∀ e, h.edge? s t = some e →
        e.contributions = f.remaining p g s t ∧
        ∀ direction, IsGreatest
          ({0} ∪ {w | ∃ c ∈ f.remaining p g s t, c.direction = direction ∧ c.weight = w})
            (e.weightIn direction) := by
  obtain ⟨disabled, happly, hcounts⟩ := exists_apply built declared g
  refine ⟨_, happly, nodes_passes f disabled g, ?_⟩
  intro s t
  have hedge := edge?_passes hg hcounts s t
  have hcontributions := FlowEdge.contributions_ofContributions (f.remaining p g s t)
  have hweighed := FlowEdge.weighed_ofContributions (f.remaining p g s t)
  refine ⟨?_, ?_⟩
  · rw [Digraph.hasEdge_iff]
    constructor
    · intro ⟨e, he⟩
      obtain ⟨hs, ht, rfl, hne, hweight⟩ := (hedge e).mp he
      have hgreatest := isGreatest_weight hweighed hne
      rw [hcontributions] at hne hgreatest
      exact ⟨hs, ht, hne, _, hgreatest, hweight⟩
    · intro ⟨hs, ht, hne, w, hgreatest, hweight⟩
      rw [← hcontributions] at hne
      refine ⟨_, (hedge _).mpr ⟨hs, ht, rfl, hne, ?_⟩⟩
      have hw := isGreatest_weight hweighed hne
      rw [hcontributions] at hw
      rwa [hw.unique hgreatest]
  · intro e he
    obtain ⟨-, -, rfl, -, -⟩ := (hedge e).mp he
    refine ⟨hcontributions, fun direction => ?_⟩
    have hgreatest := hweighed direction
    rwa [hcontributions] at hgreatest

def gateStatements : List Statement := [
  .type "alice_t" ∅,
  .type "bob_t" ∅,
  .boolean "gate" true,
  .objectClass "file" none (.ofList ["append", "write"]),
  .rule (.access ⟨.allow, "alice_t", "bob_t", "file", .ofList ["append"], none⟩),
  .rule (.access ⟨.allow, "alice_t", "bob_t", "file", .ofList ["write"], some ⟨.boolean "gate", true⟩⟩)]

def gate : Policy :=
  match Policy.build "gate" gateStatements with
  | .ok p => p
  | .error _ => (Draft.ofStatements "gate" []).start

def gateMap : PermissionMap :=
  (PermissionMap.empty.put "file" "append" ⟨.write, 3, true⟩).put "file" "write" ⟨.write, 7, true⟩

def closedGate : FlowFilter where
  minWeight := 5
  booleans := some (.ofList [("gate", false)])

/-- With the gate closed, the edge loses its heavy contribution and is too light then. -/
theorem exists_apply_closedGate :
    Policy.build "gate" gateStatements = .ok gate ∧
      (∀ booleans, closedGate.booleans = some booleans → ∀ name ∈ booleans, name ∈ gate.booleans) ∧
      ∃ g h, FlowGraph.ofPolicy gate gateMap = .ok g ∧ closedGate.apply gate g = .ok h ∧ h.nodes = g.nodes ∧
        g.hasEdge 0 1 ∧ ¬ h.hasEdge 0 1 := by
  have built : Policy.build "gate" gateStatements = .ok gate := by rfl
  have declared : ∀ booleans, closedGate.booleans = some booleans →
      ∀ name ∈ booleans, name ∈ gate.booleans := by
    intro booleans hbooleans name hname
    cases hbooleans
    have hgate : "gate" = name := by simpa using hname
    rw [← hgate]
    exact Std.ExtTreeMap.contains_iff_mem.mp (by decide)
  obtain ⟨g, hg⟩ : ∃ g, FlowGraph.ofPolicy gate gateMap = .ok g := ⟨_, rfl⟩
  obtain ⟨h, hh, hnodes, -⟩ := apply_exact built hg closedGate declared
  refine ⟨built, declared, g, h, hg, hh, hnodes, ?_, ?_⟩
  · cases hg
    decide
  · cases hg
    cases hh
    decide +kernel

end PolicyAnalysis.FlowFilter
