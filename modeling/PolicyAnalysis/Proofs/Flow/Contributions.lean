import PolicyAnalysis.Flow.Graph
import PolicyAnalysis.Proofs.Digraph.Edges
import PolicyAnalysis.Proofs.PermissionMap.Weights
import PolicyAnalysis.Proofs.Policy.Rules
import PolicyAnalysis.Proofs.Policy.Types

/-!
# What the rules contribute to the graph of flows

The flows of each rule can be worked out before any is added to the graph. The graph then has an edge
wherever there is a flow, with the contributions in the order of the flows.
-/

namespace PolicyAnalysis

open Checked

/-- A contribution with the edge that it belongs to. -/
structure Flow where
  source : TypeId
  target : TypeId
  contribution : Contribution

def Flow.key (f : Flow) : RuleId × FlowDirection × TypeId × TypeId :=
  (f.contribution.rule, f.contribution.direction, f.source, f.target)

/-- A rule contributes to the edge from a type to another. -/
structure Contributes (p : Policy) (m : PermissionMap) (rule : AccessRule) (s t : TypeId)
    (direction : FlowDirection) (w : Nat) : Prop where
  allows : rule.kind = .allow
  pos : 0 < w
  writes : direction = .write →
    p.Covers rule.source rule.target s t ∧ IsGreatest (m.weightsOf rule fun d => d = .write ∨ d = .both) w
  reads : direction = .read →
    p.Covers rule.source rule.target t s ∧ IsGreatest (m.weightsOf rule fun d => d = .read ∨ d = .both) w

namespace FlowEdge

/-- The weights kept with an edge are the greatest of its contributions. -/
def Weighed (e : FlowEdge) : Prop :=
  ∀ direction, IsGreatest ({0} ∪ {w | ∃ c ∈ e.contributions, c.direction = direction ∧ c.weight = w})
    (e.weightIn direction)

theorem contributions_add (e : FlowEdge) (c : Contribution) :
    (e.add c).contributions = e.contributions ++ [c] := by
  rw [add]
  cases c.direction <;> rfl

theorem weightIn_add (e : FlowEdge) (c : Contribution) (direction : FlowDirection) :
    (e.add c).weightIn direction =
      if c.direction = direction then max (e.weightIn direction) c.weight else e.weightIn direction := by
  rw [add]
  cases c.direction <;> cases direction <;> rfl

theorem ofContributions_concat (l : List Contribution) (c : Contribution) :
    ofContributions (l ++ [c]) = (ofContributions l).add c := by
  rw [ofContributions, List.foldl_concat]
  rfl

theorem contributions_ofContributions (l : List Contribution) : (ofContributions l).contributions = l := by
  induction l using List.reverseRecOn with
  | nil => rfl
  | append_singleton l c ih => rw [ofContributions_concat, contributions_add, ih]

theorem Weighed.add {e : FlowEdge} (h : e.Weighed) (c : Contribution) : (e.add c).Weighed := by
  intro direction
  obtain ⟨hmem, hbound⟩ := h direction
  rw [weightIn_add, contributions_add]
  constructor
  · by_cases hdirection : c.direction = direction
    · rw [if_pos hdirection]
      rcases Nat.le_total (e.weightIn direction) c.weight with hle | hle
      · rw [Nat.max_eq_right hle]
        exact Or.inr ⟨c, by simp, hdirection, rfl⟩
      · rw [Nat.max_eq_left hle]
        exact hmem.imp_right fun ⟨c', hc', hw⟩ => ⟨c', List.mem_append_left _ hc', hw⟩
    · rw [if_neg hdirection]
      exact hmem.imp_right fun ⟨c', hc', hw⟩ => ⟨c', List.mem_append_left _ hc', hw⟩
  · rintro w (hzero | ⟨c', hc', hdirection, rfl⟩)
    · rw [hzero]
      exact Nat.zero_le _
    · rcases List.mem_append.mp hc' with hc' | hc'
      · have hle := hbound (Or.inr ⟨c', hc', hdirection, rfl⟩)
        split
        · exact hle.trans (Nat.le_max_left _ _)
        · exact hle
      · rw [List.mem_singleton.mp hc'] at hdirection ⊢
        rw [if_pos hdirection]
        exact Nat.le_max_right _ _

theorem weighed_ofContributions (l : List Contribution) : (ofContributions l).Weighed := by
  have hempty : Weighed {} := by
    intro direction
    refine ⟨Or.inl (by cases direction <;> rfl), ?_⟩
    rintro w (hzero | ⟨c, hc, -⟩)
    · rw [hzero]
      exact Nat.zero_le _
    · cases hc
  exact List.foldlRecOn l add hempty fun e h c _ => h.add c

end FlowEdge

namespace FlowGraph

variable {d : Draft} {p : Policy} {m : PermissionMap} {rule : AccessRule} {id : RuleId} {flows : List Flow}

def put (g : FlowGraph) (f : Flow) : FlowGraph :=
  g.contribute f.source f.target f.contribution

def pairFlows (id : RuleId) (w : Weights) (pair : TypeId × TypeId) : List Flow :=
  if pair.1 = pair.2 then []
  else
    (if 0 < w.write then [⟨pair.1, pair.2, ⟨id, .write, w.write⟩⟩] else []) ++
      (if 0 < w.read then [⟨pair.2, pair.1, ⟨id, .read, w.read⟩⟩] else [])

def ruleFlows (p : Policy) (m : PermissionMap) (entry : AccessRule × RuleId) : Except Error (List Flow) :=
  if entry.1.kind ≠ .allow then .ok []
  else do
    let w ← m.weigh entry.1
    if w.read = 0 ∧ w.write = 0 then return []
    let pairs ← p.expandPairs entry.1.source entry.1.target
    return pairs.flatMap (pairFlows entry.2 w)

def between (s t : TypeId) (flows : List Flow) : List Contribution :=
  (flows.filter fun f => f.source = s ∧ f.target = t).map (·.contribution)

theorem addPair_eq_foldl (w : Weights) (g : FlowGraph) (pair : TypeId × TypeId) :
    addPair id w g pair = (pairFlows id w pair).foldl put g := by
  rw [addPair, pairFlows]
  by_cases hends : pair.1 = pair.2
  · simp only [hends, if_true, List.foldl_nil]
  · simp only [hends, if_false, List.foldl_append]
    by_cases hwrite : 0 < w.write <;> by_cases hread : 0 < w.read <;>
      simp only [hwrite, hread, if_true, if_false, List.foldl_cons, List.foldl_nil, put]

theorem addRule_eq_map (g : FlowGraph) (entry : AccessRule × RuleId) :
    addRule p m g entry = (fun flows => flows.foldl put g) <$> ruleFlows p m entry := by
  obtain ⟨rule, id⟩ := entry
  rw [addRule, ruleFlows]
  by_cases hkind : rule.kind ≠ .allow
  · rw [if_pos hkind, if_pos hkind]
    rfl
  · rw [if_neg hkind, if_neg hkind]
    cases m.weigh rule with
    | error e => rfl
    | ok w =>
      by_cases hzero : w.read = 0 ∧ w.write = 0
      · simp only [bind, Except.bind, hzero, and_self, if_true]
        rfl
      · simp only [bind, Except.bind, hzero, if_false]
        cases p.expandPairs rule.source rule.target with
        | error e => rfl
        | ok pairs =>
          have hadd : addPair id w = fun g pair => (pairFlows id w pair).foldl put g :=
            funext₂ (addPair_eq_foldl w)
          refine congrArg Except.ok ?_
          simp only [List.foldl_flatMap, hadd]

theorem ofPolicy_eq_map :
    ofPolicy p m =
      (fun rows => rows.flatten.foldl put .empty) <$> p.accessRules.zipIdx.mapM (ruleFlows p m) := by
  rw [ofPolicy, foldlM_eq_map_mapM addRule_eq_map]
  simp only [List.foldl_flatten]

theorem edge?_put (g : FlowGraph) (f : Flow) (s t : TypeId) :
    (g.put f).edge? s t =
      if f.source = s ∧ f.target = t then some (((g.edge? s t).getD {}).add f.contribution)
      else g.edge? s t := by
  rw [put, contribute, Digraph.edge?_putEdge]

theorem between_concat (s t : TypeId) (flows : List Flow) (f : Flow) :
    between s t (flows ++ [f]) =
      if f.source = s ∧ f.target = t then between s t flows ++ [f.contribution] else between s t flows := by
  unfold between
  rw [List.filter_append, List.map_append]
  by_cases hends : f.source = s ∧ f.target = t
  · simp [hends]
  · simp [hends]

theorem edge?_foldl_put (flows : List Flow) (s t : TypeId) :
    (flows.foldl put .empty).edge? s t =
      if between s t flows = [] then none else some (.ofContributions (between s t flows)) := by
  induction flows using List.reverseRecOn with
  | nil =>
    have hnone : between s t [] = [] := rfl
    rw [List.foldl_nil, Digraph.edge?_empty, if_pos hnone]
  | append_singleton flows f ih =>
    rw [List.foldl_concat, edge?_put, ih, between_concat]
    by_cases hends : f.source = s ∧ f.target = t
    · have hadd : ((if between s t flows = [] then none else
          some (FlowEdge.ofContributions (between s t flows))).getD {}).add f.contribution =
            .ofContributions (between s t flows ++ [f.contribution]) := by
        rw [FlowEdge.ofContributions_concat]
        split
        next hnone => rw [hnone]; rfl
        next => rfl
      rw [if_pos hends, if_pos hends, hadd, if_neg (List.concat_ne_nil _ _)]
    · rw [if_neg hends, if_neg hends]

theorem mem_pairFlows {w : Weights} {a b : TypeId} {f : Flow} :
    f ∈ pairFlows id w (a, b) ↔
      a ≠ b ∧ (0 < w.write ∧ f = ⟨a, b, ⟨id, .write, w.write⟩⟩ ∨
        0 < w.read ∧ f = ⟨b, a, ⟨id, .read, w.read⟩⟩) := by
  rw [pairFlows]
  by_cases hends : a = b
  · simp [hends]
  · by_cases hwrite : 0 < w.write <;> by_cases hread : 0 < w.read <;> simp [hends, hwrite, hread]

theorem ruleFlows_eq_ok (hkind : rule.kind = .allow) (h : ruleFlows p m (rule, id) = .ok flows) :
    ∃ w, m.weigh rule = .ok w ∧ (w.read = 0 ∧ w.write = 0 ∧ flows = [] ∨
      ∃ pairs, p.expandPairs rule.source rule.target = .ok pairs ∧
        flows = pairs.flatMap (pairFlows id w)) := by
  rw [ruleFlows, if_neg (not_not_intro hkind), bind_eq_ok] at h
  obtain ⟨w, hw, h⟩ := h
  refine ⟨w, hw, ?_⟩
  by_cases hzero : w.read = 0 ∧ w.write = 0
  · rw [if_pos hzero] at h
    exact Or.inl ⟨hzero.1, hzero.2, (pure_eq_ok.mp h).symm⟩
  · rw [if_neg hzero, bind_eq_ok] at h
    obtain ⟨pairs, hpairs, h⟩ := h
    exact Or.inr ⟨pairs, mapError_eq_ok.mp hpairs, (pure_eq_ok.mp h).symm⟩

theorem contributes_write_iff (hkind : rule.kind = .allow) {w : Weights} (hw : m.weigh rule = .ok w)
    {s t : TypeId} {v : Nat} :
    Contributes p m rule s t .write v ↔
      0 < v ∧ v = w.write ∧ p.Covers rule.source rule.target s t := by
  have hgreatest := (PermissionMap.isGreatest_weigh hkind hw).2
  constructor
  · intro h
    obtain ⟨hcovers, hv⟩ := h.writes rfl
    exact ⟨h.pos, (isGreatest_iff_eq hgreatest h.pos).mp hv, hcovers⟩
  · intro ⟨hpos, hv, hcovers⟩
    have hv := (isGreatest_iff_eq hgreatest hpos).mpr hv
    exact ⟨hkind, hpos, fun _ => ⟨hcovers, hv⟩, nofun⟩

theorem contributes_read_iff (hkind : rule.kind = .allow) {w : Weights} (hw : m.weigh rule = .ok w)
    {s t : TypeId} {v : Nat} :
    Contributes p m rule s t .read v ↔
      0 < v ∧ v = w.read ∧ p.Covers rule.source rule.target t s := by
  have hgreatest := (PermissionMap.isGreatest_weigh hkind hw).1
  constructor
  · intro h
    obtain ⟨hcovers, hv⟩ := h.reads rfl
    exact ⟨h.pos, (isGreatest_iff_eq hgreatest h.pos).mp hv, hcovers⟩
  · intro ⟨hpos, hv, hcovers⟩
    have hv := (isGreatest_iff_eq hgreatest hpos).mpr hv
    exact ⟨hkind, hpos, nofun, fun _ => ⟨hcovers, hv⟩⟩

theorem mem_ruleFlows (h : ruleFlows p m (rule, id) = .ok flows) (f : Flow) :
    f ∈ flows ↔ f.contribution.rule = id ∧ f.source ≠ f.target ∧
      Contributes p m rule f.source f.target f.contribution.direction f.contribution.weight := by
  by_cases hkind : rule.kind = .allow
  · obtain ⟨w, hw, hflows⟩ := ruleFlows_eq_ok hkind h
    have hmem : f ∈ flows ↔ ∃ a b, p.Covers rule.source rule.target a b ∧ f ∈ pairFlows id w (a, b) := by
      rcases hflows with ⟨hread, hwrite, rfl⟩ | ⟨pairs, hpairs, rfl⟩
      · simp [mem_pairFlows, hread, hwrite]
      · simp [p.covers_iff hpairs]
    rw [hmem]
    simp only [mem_pairFlows]
    obtain ⟨s, t, id', direction, v⟩ := f
    cases direction with
    | write =>
      rw [contributes_write_iff hkind hw]
      constructor
      · rintro ⟨a, b, hcovers, hne, ⟨hpos, hf⟩ | ⟨-, hf⟩⟩
        · cases hf
          exact ⟨rfl, hne, hpos, rfl, hcovers⟩
        · cases hf
      · rintro ⟨rfl, hne, hpos, rfl, hcovers⟩
        exact ⟨s, t, hcovers, hne, Or.inl ⟨hpos, rfl⟩⟩
    | read =>
      rw [contributes_read_iff hkind hw]
      constructor
      · rintro ⟨a, b, hcovers, hne, ⟨-, hf⟩ | ⟨hpos, hf⟩⟩
        · cases hf
        · cases hf
          exact ⟨rfl, hne.symm, hpos, rfl, hcovers⟩
      · rintro ⟨rfl, hne, hpos, rfl, hcovers⟩
        exact ⟨t, s, hcovers, hne.symm, Or.inr ⟨hpos, rfl⟩⟩
  · rw [ruleFlows, if_pos hkind] at h
    cases h
    constructor
    · exact fun hf => absurd hf List.not_mem_nil
    · exact fun hf => absurd hf.2.2.allows hkind

theorem ruleFlows_eq_error (hrule : p.Declares rule) {e : Error} :
    ruleFlows p m (rule, id) = .error e ↔ rule.kind = .allow ∧
      ∃ perm, m.FirstMissing rule perm ∧ .permissionMap (m.missing rule.objectClass perm) = e := by
  by_cases hkind : rule.kind = .allow
  · rw [ruleFlows, if_neg (not_not_intro hkind), bind_eq_error, PermissionMap.weigh_eq_error hkind]
    simp only [hkind, true_and]
    refine or_iff_left ?_
    rintro ⟨w, -, h⟩
    obtain ⟨pairs, hpairs⟩ := hrule.exists_expandPairs
    split at h
    · cases h
    · rw [hpairs] at h
      cases h
  · rw [ruleFlows, if_pos hkind]
    simp [hkind]

theorem exists_ruleFlows_iff (hrule : p.Declares rule) :
    (∃ flows, ruleFlows p m (rule, id) = .ok flows) ↔ (rule.kind = .allow → m.Maps rule) := by
  cases h : ruleFlows p m (rule, id) with
  | ok flows =>
    refine iff_of_true ⟨flows, rfl⟩ ?_
    intro hkind
    obtain ⟨w, hw, -⟩ := ruleFlows_eq_ok hkind h
    exact (PermissionMap.exists_weigh_iff hkind).mp ⟨w, hw⟩
  | error e =>
    obtain ⟨hkind, perm, hperm, -⟩ := (ruleFlows_eq_error hrule).mp h
    simp only [reduceCtorEq, exists_false, hkind, true_implies, false_iff]
    intro hmaps
    obtain ⟨x, hx⟩ := hmaps perm hperm.mem
    cases hperm.missing.symm.trans hx

theorem pairwise_pairFlows (w : Weights) (pair : TypeId × TypeId) :
    (pairFlows id w pair).Pairwise fun f f' => f.key ≠ f'.key := by
  rw [pairFlows]
  by_cases hends : pair.1 = pair.2
  · simp [hends]
  · by_cases hwrite : 0 < w.write <;> by_cases hread : 0 < w.read <;> simp [hends, hwrite, hread, Flow.key]

/-- A rule has no pair of types twice, so it has no flow twice. -/
theorem pairwise_ruleFlows (hd : d.build = .ok p) (h : ruleFlows p m (rule, id) = .ok flows) :
    flows.Pairwise fun f f' => f.key ≠ f'.key := by
  by_cases hkind : rule.kind = .allow
  · obtain ⟨w, -, ⟨-, -, rfl⟩ | ⟨pairs, hpairs, rfl⟩⟩ := ruleFlows_eq_ok hkind h
    · exact List.Pairwise.nil
    · refine List.pairwise_flatMap.mpr ⟨fun pair _ => pairwise_pairFlows w pair, ?_⟩
      refine (Policy.nodup_of_expandPairs hd hpairs).imp ?_
      rintro ⟨a, b⟩ ⟨a', b'⟩ hne f hf f' hf' hkey
      obtain ⟨-, ⟨-, rfl⟩ | ⟨-, rfl⟩⟩ := mem_pairFlows.mp hf <;>
        obtain ⟨-, ⟨-, rfl⟩ | ⟨-, rfl⟩⟩ := mem_pairFlows.mp hf' <;>
        simp_all [Flow.key]
  · rw [ruleFlows, if_pos hkind] at h
    cases h
    exact List.Pairwise.nil

theorem pairwise_flows (hd : d.build = .ok p) {rows : List (List Flow)}
    (h : p.accessRules.zipIdx.mapM (ruleFlows p m) = .ok rows) :
    rows.flatten.Pairwise fun f f' => f.key ≠ f'.key := by
  refine List.pairwise_flatten.mpr ⟨?_, ?_⟩
  · intro flows hflows
    obtain ⟨⟨rule, id⟩, -, hrule⟩ := (mem_iff_of_mapM h).mp hflows
    exact pairwise_ruleFlows hd hrule
  · refine pairwise_of_mapM h (Policy.pairwise_zipIdx p.accessRules) ?_
    intro ⟨rule, id⟩ _ ⟨rule', id'⟩ _ hlt flows flows' hflows hflows' f hf f' hf' hkey
    have hf := ((mem_ruleFlows hflows f).mp hf).1
    have hf' := ((mem_ruleFlows hflows' f').mp hf').1
    refine hlt.ne ?_
    rw [← hf, ← hf']
    exact congrArg Prod.fst hkey

theorem nodup_between (h : flows.Pairwise fun f f' => f.key ≠ f'.key) (s t : TypeId) :
    ((between s t flows).map fun c => (c.rule, c.direction)).Nodup := by
  rw [between, List.map_map, List.Nodup, List.pairwise_map, List.pairwise_filter]
  refine h.imp ?_
  intro f f' hkey hends hends' heq
  apply hkey
  simp_all [Flow.key]

end FlowGraph

end PolicyAnalysis
