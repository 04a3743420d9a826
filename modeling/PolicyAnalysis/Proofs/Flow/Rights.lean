import PolicyAnalysis.Proofs.Difference.Rights
import PolicyAnalysis.Proofs.Flow.Filter

/-!
# Flows from rights

What a filter leaves of the graph of flows depends on the rules only through the accesses that they allow. There is
an edge from a type to another if some permission that is allowed lets enough flow that way, and its weight in a
direction is the greatest of those of all such permissions, whichever rules they are from.
-/

namespace PolicyAnalysis

variable {d : Draft} {p : Policy} {m : PermissionMap} {f : FlowFilter} {g : FlowGraph}

namespace FlowDirection

/-- The subject and the object of the accesses through which information flows from one type to another. -/
def access {α : Type} (direction : FlowDirection) (source target : α) : α × α :=
  match direction with
  | .read => (target, source)
  | .write => (source, target)

/-- The permissions through which information flows in a direction. -/
def Uses (direction : FlowDirection) (d : Direction) : Prop :=
  match direction with
  | .read => d = .read ∨ d = .both
  | .write => d = .write ∨ d = .both

end FlowDirection

namespace Policy

/-- The rules at a place, if they are in one, count for a choice of booleans. -/
def PlaceCounts (p : Policy) (booleans : Option (NameTable Bool)) (place : Option (TruthTable × Bool)) : Prop :=
  ∀ states, booleans = some states → ∀ identity, place = some identity →
    ∃ c : Conditional, c.identity = identity ∧ p.Active states c

/-- A permission on some object, allowed under a key, lets information flow from a type to another. -/
structure FlowsBy (p : Policy) (m : PermissionMap) (booleans : Option (NameTable Bool)) (source target : String)
    (direction : FlowDirection) (w : Nat) (key : RuleKey) (perm : String) (x : Mapping) : Prop where
  gives : p.Gives (.access .allow key (some perm))
  ends_eq : (key.source, key.target) = direction.access source target
  counts : p.PlaceCounts booleans key.place
  entry : m.entry? key.objectClass perm = some x
  enabled : x.enabled
  uses : direction.Uses x.direction
  weight_eq : x.weight.toNat = w
  pos : 0 < w

def Flows (p : Policy) (m : PermissionMap) (booleans : Option (NameTable Bool)) (source target : String)
    (direction : FlowDirection) (w : Nat) : Prop :=
  ∃ key perm x, p.FlowsBy m booleans source target direction w key perm x

end Policy

theorem contributes_iff {rule : AccessRule} {s t : TypeId} {direction : FlowDirection} {w : Nat} :
    Contributes p m rule s t direction w ↔ rule.kind = .allow ∧ 0 < w ∧
      p.Covers rule.source rule.target (direction.access s t).1 (direction.access s t).2 ∧
        IsGreatest (m.weightsOf rule direction.Uses) w := by
  cases direction with
  | read =>
    constructor
    · intro h
      obtain ⟨hcovers, hw⟩ := h.reads rfl
      exact ⟨h.allows, h.pos, hcovers, hw⟩
    · intro ⟨hkind, hpos, hcovers, hw⟩
      exact ⟨hkind, hpos, nofun, fun _ => ⟨hcovers, hw⟩⟩
  | write =>
    constructor
    · intro h
      obtain ⟨hcovers, hw⟩ := h.writes rfl
      exact ⟨h.allows, h.pos, hcovers, hw⟩
    · intro ⟨hkind, hpos, hcovers, hw⟩
      exact ⟨hkind, hpos, fun _ => ⟨hcovers, hw⟩, nofun⟩

theorem isGreatest_weightsOf {rule : AccessRule} (hkind : rule.kind = .allow) (hmaps : m.Maps rule)
    (direction : FlowDirection) : ∃ w, IsGreatest ({0} ∪ m.weightsOf rule direction.Uses) w := by
  obtain ⟨w, hw⟩ := (PermissionMap.exists_weigh_iff hkind).mpr hmaps
  obtain ⟨hread, hwrite⟩ := PermissionMap.isGreatest_weigh hkind hw
  cases direction with
  | read => exact ⟨w.read, hread⟩
  | write => exact ⟨w.write, hwrite⟩

/-- A rule of whose permissions one has a weight contributes at least that much. -/
theorem exists_contributes {rule : AccessRule} (hkind : rule.kind = .allow) (hmaps : m.Maps rule) {s t : TypeId}
    {direction : FlowDirection}
    (hcovers : p.Covers rule.source rule.target (direction.access s t).1 (direction.access s t).2) {w : Nat}
    (hw : w ∈ m.weightsOf rule direction.Uses) (hpos : 0 < w) :
    ∃ w', w ≤ w' ∧ Contributes p m rule s t direction w' := by
  obtain ⟨w', hgreatest⟩ := isGreatest_weightsOf hkind hmaps direction
  have hle : w ≤ w' := hgreatest.2 (Or.inr hw)
  have hpos' : 0 < w' := by omega
  exact ⟨w', hle, contributes_iff.mpr ⟨hkind, hpos', hcovers, (isGreatest_iff_eq hgreatest hpos').mpr rfl⟩⟩

namespace FlowGraph

theorem maps_of_ofPolicy (hd : d.build = .ok p) (hg : ofPolicy p m = .ok g) {rule : AccessRule}
    (hrule : rule ∈ p.accessRules) (hkind : rule.kind = .allow) : m.Maps rule := by
  intro perm hperm
  by_contra hnone
  have hmissing : m.entry? rule.objectClass perm = none := by
    rw [Option.eq_none_iff_forall_ne_some]
    exact fun x hx => hnone ⟨x, hx⟩
  obtain ⟨e, he⟩ := (exists_ofPolicy_eq_error_iff hd).mpr ⟨rule, hrule, hkind, perm, hperm, hmissing⟩
  cases hg.symm.trans he

end FlowGraph

namespace FlowFilter

theorem counts_iff (hd : d.build = .ok p) {c : Contribution} {rule : AccessRule}
    (hrule : p.accessRules[c.rule]? = some rule) :
    f.Counts p c ↔ p.PlaceCounts f.booleans (rule.conditional.map Conditional.identity) := by
  constructor
  · intro hcounts states hstates identity hidentity
    obtain ⟨place, hplace, hidentity⟩ := Option.map_eq_some_iff.mp hidentity
    exact ⟨place, hidentity, hcounts states hstates rule place hrule hplace⟩
  · intro hcounts states hstates rule' place hrule' hplace
    cases hrule.symm.trans hrule'
    have hidentity : rule.conditional.map Conditional.identity = some place.identity := by
      rw [hplace, Option.map_some]
    obtain ⟨place', hidentity', hactive⟩ := hcounts states hstates place.identity hidentity
    have hdeclared := (Policy.declares_of_mem_accessRules hd (List.mem_of_getElem? hrule)).booleans place hplace
    exact (Policy.active_congr hidentity'.symm hdeclared).mpr hactive

theorem mem_remaining (hg : FlowGraph.ofPolicy p m = .ok g) {s t : TypeId} {c : Contribution} :
    c ∈ f.remaining p g s t ↔ s ≠ t ∧ f.Counts p c ∧
      ∃ rule, p.accessRules[c.rule]? = some rule ∧ Contributes p m rule s t c.direction c.weight := by
  classical
  have hedge := FlowGraph.hasEdge_ofPolicy_iff hg s t
  rw [remaining, List.mem_filter, decide_eq_true_iff]
  cases he : g.edge? s t with
  | some e =>
    have hne : s ≠ t := (hedge.mp ((g.hasEdge_iff s t).mpr ⟨e, he⟩)).1
    have hmem := FlowGraph.mem_contributions_ofPolicy hg he c
    simp only [Option.map_some, Option.getD_some, hmem, hne, ne_eq, not_false_eq_true, true_and]
    exact and_comm
  | none =>
    simp only [Option.map_none, Option.getD_none, List.not_mem_nil, false_and, false_iff]
    intro hrules
    obtain ⟨hne, -, rule, hrule, hcontributes⟩ := hrules
    have hhas := hedge.mpr ⟨hne, rule, List.mem_of_getElem? hrule, c.direction, c.weight, hcontributes⟩
    obtain ⟨e, he'⟩ := (g.hasEdge_iff s t).mp hhas
    cases he.symm.trans he'

variable {s t : TypeId} {a b : TypeSymbol}

theorem covers_access_iff (hd : d.build = .ok p) (ha : p.types[s]? = some a) (hb : p.types[t]? = some b)
    {source target : String} (direction : FlowDirection) :
    p.Covers source target (direction.access s t).1 (direction.access s t).2 ↔
      p.Names source target (direction.access a.name b.name) := by
  have distinct := Policy.distinctNames_of_build hd
  cases direction with
  | read => exact Policy.covers_iff_names distinct hb ha
  | write => exact Policy.covers_iff_names distinct ha hb

theorem flows_of_mem_remaining (hd : d.build = .ok p) (hg : FlowGraph.ofPolicy p m = .ok g)
    (ha : p.types[s]? = some a) (hb : p.types[t]? = some b) {c : Contribution} (hc : c ∈ f.remaining p g s t) :
    p.Flows m f.booleans a.name b.name c.direction c.weight := by
  obtain ⟨-, hcounts, rule, hrule, hcontributes⟩ := (mem_remaining hg).mp hc
  obtain ⟨hkind, hpos, hcovers, hgreatest⟩ := contributes_iff.mp hcontributes
  obtain ⟨perm, hperm, x, hx, henabled, huses, hweight⟩ := hgreatest.1
  have hnames := (covers_access_iff hd ha hb c.direction).mp hcovers
  have hgives : p.Gives (.access .allow (rule.single (c.direction.access a.name b.name)).key (some perm)) := by
    refine Policy.gives_access_iff.mpr ⟨rule, List.mem_of_getElem? hrule, hkind, ⟨_, hnames, rfl⟩, ?_⟩
    rintro _ ⟨⟩
    exact hperm
  exact ⟨_, perm, x, hgives, rfl, (counts_iff hd hrule).mp hcounts, hx, henabled, huses, hweight, hpos⟩

theorem exists_mem_remaining (hd : d.build = .ok p) (hg : FlowGraph.ofPolicy p m = .ok g)
    (ha : p.types[s]? = some a) (hb : p.types[t]? = some b) (hne : s ≠ t) {direction : FlowDirection} {w : Nat}
    (h : p.Flows m f.booleans a.name b.name direction w) :
    ∃ c ∈ f.remaining p g s t, c.direction = direction ∧ w ≤ c.weight := by
  obtain ⟨key, perm, x, h⟩ := h
  obtain ⟨rule, hrule, hkind, ⟨pair, hnames, rfl⟩, hperm⟩ := Policy.gives_access_iff.mp h.gives
  have hpair : pair = direction.access a.name b.name := h.ends_eq
  rw [hpair] at hnames
  have hcovers := (covers_access_iff hd ha hb direction).mpr hnames
  have hweight : w ∈ m.weightsOf rule direction.Uses :=
    ⟨perm, hperm perm rfl, x, h.entry, h.enabled, h.uses, h.weight_eq⟩
  have hmaps := FlowGraph.maps_of_ofPolicy hd hg hrule hkind
  -- The rule contributes its greatest weight, which may be that of another permission.
  obtain ⟨w', hle, hcontributes⟩ := exists_contributes hkind hmaps hcovers hweight h.pos
  obtain ⟨id, hid⟩ := List.mem_iff_getElem?.mp hrule
  have hplace : p.PlaceCounts f.booleans (rule.conditional.map Conditional.identity) := h.counts
  have hcounts : f.Counts p ⟨id, direction, w'⟩ := (counts_iff hd hid).mpr hplace
  exact ⟨⟨id, direction, w'⟩, (mem_remaining hg).mpr ⟨hne, hcounts, rule, hid, hcontributes⟩, rfl, hle⟩

/-- The weight of what remains is the greatest of the flows. -/
theorem isGreatest_flows (hd : d.build = .ok p) (hg : FlowGraph.ofPolicy p m = .ok g)
    (ha : p.types[s]? = some a) (hb : p.types[t]? = some b) (hne : s ≠ t) (direction : FlowDirection) :
    IsGreatest ({0} ∪ {w | p.Flows m f.booleans a.name b.name direction w})
      ((FlowEdge.ofContributions (f.remaining p g s t)).weightIn direction) := by
  -- Every contribution is one of the flows, and every flow is at most as great as some contribution.
  obtain ⟨hmem, hbound⟩ := FlowEdge.weighed_ofContributions (f.remaining p g s t) direction
  rw [FlowEdge.contributions_ofContributions] at hmem hbound
  constructor
  · refine hmem.imp_right ?_
    intro ⟨c, hc, hdirection, hw⟩
    rw [← hw, ← hdirection]
    exact flows_of_mem_remaining hd hg ha hb hc
  · rintro w (hzero | hw)
    · rw [hzero]
      exact Nat.zero_le _
    · obtain ⟨c, hc, hdirection, hle⟩ := exists_mem_remaining hd hg ha hb hne hw
      exact hle.trans (hbound (Or.inr ⟨c, hc, hdirection, rfl⟩))

theorem exists_flows_iff (hd : d.build = .ok p) (hg : FlowGraph.ofPolicy p m = .ok g)
    (ha : p.types[s]? = some a) (hb : p.types[t]? = some b) (hne : s ≠ t) (least : Nat) :
    (∃ direction w, p.Flows m f.booleans a.name b.name direction w ∧ least ≤ w) ↔
      f.remaining p g s t ≠ [] ∧ least ≤ (FlowEdge.ofContributions (f.remaining p g s t)).weight := by
  have hgreatest (hnonempty : f.remaining p g s t ≠ []) := isGreatest_weight
    (FlowEdge.weighed_ofContributions (f.remaining p g s t))
    ((FlowEdge.contributions_ofContributions _).symm ▸ hnonempty)
  rw [FlowEdge.contributions_ofContributions] at hgreatest
  constructor
  · intro ⟨direction, w, hw, hleast⟩
    obtain ⟨c, hc, -, hle⟩ := exists_mem_remaining hd hg ha hb hne hw
    have hnonempty : f.remaining p g s t ≠ [] := List.ne_nil_of_mem hc
    refine ⟨hnonempty, ?_⟩
    calc
      least ≤ w := hleast
      _ ≤ c.weight := hle
      _ ≤ _ := (hgreatest hnonempty).2 ⟨c, hc, rfl⟩
  · intro ⟨hnonempty, hleast⟩
    obtain ⟨c, hc, hweight⟩ := (hgreatest hnonempty).1
    exact ⟨c.direction, c.weight, flows_of_mem_remaining hd hg ha hb hc, hweight ▸ hleast⟩

/-- An edge shows the flows from a type to another. -/
structure Shows (f : FlowFilter) (p : Policy) (m : PermissionMap) (h : FlowGraph) (s t : TypeId)
    (source target : String) : Prop where
  hasEdge_iff : h.hasEdge s t ↔ s ≠ t ∧ s ∉ f.exclude ∧ t ∉ f.exclude ∧
    ∃ direction w, p.Flows m f.booleans source target direction w ∧ f.minWeight ≤ w
  isGreatest : ∀ e, h.edge? s t = some e → ∀ direction,
    IsGreatest ({0} ∪ {w | p.Flows m f.booleans source target direction w}) (e.weightIn direction)

theorem exists_apply_shows (hd : d.build = .ok p) (hg : FlowGraph.ofPolicy p m = .ok g)
    (hdeclared : ∀ booleans, f.booleans = some booleans → ∀ name ∈ booleans, name ∈ p.booleans) :
    ∃ h, f.apply p g = .ok h ∧ ∀ s t a b, p.types[s]? = some a → p.types[t]? = some b →
      f.Shows p m h s t a.name b.name := by
  obtain ⟨disabled, happly, hcounts⟩ := exists_apply hd hdeclared g
  refine ⟨_, happly, ?_⟩
  intro s t a b ha hb
  have hedge := edge?_passes hg hcounts s t
  have hcontributions := FlowEdge.contributions_ofContributions (f.remaining p g s t)
  -- Nothing flows within a type, so only different types have contributions.
  have hdifferent (hnonempty : f.remaining p g s t ≠ []) : s ≠ t := by
    obtain ⟨c, hc⟩ := List.exists_mem_of_ne_nil _ hnonempty
    exact ((mem_remaining hg).mp hc).1
  constructor
  · rw [Digraph.hasEdge_iff]
    constructor
    · intro ⟨e, he⟩
      obtain ⟨hs, ht, rfl, hnonempty, hweight⟩ := (hedge e).mp he
      rw [hcontributions] at hnonempty
      have hne := hdifferent hnonempty
      exact ⟨hne, hs, ht, (exists_flows_iff hd hg ha hb hne _).mpr ⟨hnonempty, hweight⟩⟩
    · intro ⟨hne, hs, ht, hflows⟩
      obtain ⟨hnonempty, hweight⟩ := (exists_flows_iff hd hg ha hb hne _).mp hflows
      exact ⟨_, (hedge _).mpr ⟨hs, ht, rfl, hcontributions.symm ▸ hnonempty, hweight⟩⟩
  · intro e he direction
    obtain ⟨-, -, rfl, hnonempty, -⟩ := (hedge e).mp he
    rw [hcontributions] at hnonempty
    exact isGreatest_flows hd hg ha hb (hdifferent hnonempty) direction

end FlowFilter

end PolicyAnalysis
