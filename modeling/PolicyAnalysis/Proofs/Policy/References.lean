import PolicyAnalysis.Proofs.Difference.Comparison
import PolicyAnalysis.Proofs.Flow.Filter
import PolicyAnalysis.Proofs.Transition.Filter

/-!
# Nothing fails after the build

What the build has checked is enough for everything that is asked of a policy later. The graphs that are drawn
of it refer to types and rules by their numbers, and each of these is the number of one.
-/

namespace PolicyAnalysis

open Checked

variable {d : Draft} {p q : Policy} {m : PermissionMap}

/-- The nodes of a graph are types of a policy, and so are the ends of its edges. -/
structure Digraph.Within {ε : Type} (g : Digraph ε) (p : Policy) (refers : ε → Prop) : Prop where
  nodes : ∀ n, g.hasNode n → n < p.types.length
  edges : ∀ s t e, g.edge? s t = some e → s < p.types.length ∧ t < p.types.length ∧ refers e

namespace Digraph.Within

variable {ε : Type} {g : Digraph ε} {refers : ε → Prop}

theorem empty (p : Policy) (refers : ε → Prop) : (Digraph.empty : Digraph ε).Within p refers where
  nodes n h := absurd h (Digraph.hasNode_empty n)
  edges s t e h := by simp at h

theorem addNode (h : g.Within p refers) {n : TypeId} (hn : n < p.types.length) :
    (g.addNode n).Within p refers where
  nodes k hk := by
    rcases (g.hasNode_addNode n k).mp hk with rfl | hk
    · exact hn
    · exact h.nodes k hk
  edges s t e he := by
    rw [g.edge?_addNode] at he
    exact h.edges s t e he

theorem putEdge (h : g.Within p refers) {s t : TypeId} (hs : s < p.types.length) (ht : t < p.types.length)
    {data : Option ε → ε} (hdata : refers (data (g.edge? s t))) : (g.putEdge s t data).Within p refers where
  nodes k hk := by
    rcases (g.hasNode_putEdge s t data k).mp hk with rfl | rfl | hk
    · exact hs
    · exact ht
    · exact h.nodes k hk
  edges a b e he := by
    rw [g.edge?_putEdge] at he
    split at he
    next hab =>
      obtain ⟨rfl, rfl⟩ := hab
      exact ⟨hs, ht, Option.some.inj he ▸ hdata⟩
    next => exact h.edges a b e he

theorem filterEdges (h : g.Within p refers) {keep : Nat → Nat → ε → Option ε}
    (hkeep : ∀ s t e e', refers e → keep s t e = some e' → refers e') : (g.filterEdges keep).Within p refers where
  nodes k hk := h.nodes k ((g.hasNode_filterEdges keep k).mp hk)
  edges s t e' he' := by
    rw [g.edge?_filterEdges] at he'
    obtain ⟨e, he, hkept⟩ := Option.bind_eq_some_iff.mp he'
    obtain ⟨hs, ht, hrefers⟩ := h.edges s t e he
    exact ⟨hs, ht, hkeep s t e e' hrefers hkept⟩

theorem reversed (consistent : g.Consistent) (h : g.Within p refers) : g.reversed.Within p refers where
  nodes k hk := h.nodes k ((consistent.hasNode_reversed k).mp hk)
  edges s t e he := by
    rw [g.edge?_reversed] at he
    obtain ⟨ht, hs, hrefers⟩ := h.edges t s e he
    exact ⟨hs, ht, hrefers⟩

theorem foldl_removeNode (consistent : g.Consistent) (h : g.Within p refers) (l : List TypeId) :
    (l.foldl Digraph.removeNode g).Within p refers where
  nodes k hk := h.nodes k ((g.hasNode_foldl_removeNode l k).mp hk).2
  edges s t e he := by
    rw [consistent.edge?_foldl_removeNode, Option.ite_none_left_eq_some] at he
    exact h.edges s t e he.2

end Digraph.Within

structure StandardTransition.RefersTo (x : StandardTransition) (p : Policy) : Prop where
  rules : ∀ id ∈ x.transition ++ x.setexec, id < p.accessRules.length
  files : ∀ file r, x.entrypoints[file]? = some r → file < p.types.length ∧
    (∀ id ∈ r.entrypoint ++ r.execute, id < p.accessRules.length) ∧
    ∀ id ∈ r.typeTransition, id < p.typeRules.length

structure TransitionEdge.RefersTo (e : TransitionEdge) (p : Policy) : Prop where
  standard : ∀ x, e.standard = some x → x.RefersTo p
  dynamic : ∀ y, e.dynamic = some y → ∀ id ∈ y.dyntransition ++ y.setcurrent, id < p.accessRules.length

def FlowEdge.RefersTo (e : FlowEdge) (p : Policy) : Prop :=
  ∀ c ∈ e.contributions, c.rule < p.accessRules.length

theorem Policy.Covers.lt_length {source target : String} {s t : TypeId} (h : p.Covers source target s t) :
    s < p.types.length ∧ t < p.types.length := by
  obtain ⟨⟨x, hx⟩, y, hy⟩ := h.exists_types
  exact ⟨(List.getElem?_eq_some_iff.mp hx).1, (List.getElem?_eq_some_iff.mp hy).1⟩

namespace Grants

variable {g : Grants} {s t : TypeId}

theorem lt_length_of_mem {κ ρ : Type} [Ord κ] [Std.TransOrd κ] {table : Std.ExtTreeMap κ (List RuleId)}
    {rules : List ρ} {related : κ → ρ → Prop}
    (h : Lists table fun k id => ∃ rule, rules[id]? = some rule ∧ related k rule) {k : κ} {id : RuleId}
    (hid : id ∈ table.getD k []) : id < rules.length := by
  obtain ⟨rule, hrule, -⟩ := (h.mem_getD_iff k id).mp hid
  exact (List.getElem?_eq_some_iff.mp hrule).1

theorem refersTo_of_standard? (h : g.Reads p) {x : StandardTransition} (hx : g.standard? s t = some x) :
    x.RefersTo p := by
  obtain ⟨-, rfl⟩ := g.standard?_eq_some_iff.mp hx
  constructor
  · intro id hid
    rcases List.mem_append.mp hid with hid | hid
    · exact lt_length_of_mem h.transition hid
    · exact lt_length_of_mem h.setexec hid
  · intro file r hr
    obtain ⟨hfile, hentry⟩ := mem_entries.mp ((getElem?_ofList_eq_some_iff (g.nodup_entries s t)).mp hr)
    obtain ⟨-, rfl⟩ := (entrypoint?_eq_some_iff h).mp hentry
    refine ⟨?_, ?_, ?_⟩
    · obtain ⟨id, rule, -, hpermits⟩ := (h.execute.mem_iff (s, file)).mp (g.mem_sharedFiles.mp hfile).1
      exact hpermits.covers.lt_length.2
    · intro id hid
      rcases List.mem_append.mp hid with hid | hid
      · exact lt_length_of_mem h.entrypoint hid
      · exact lt_length_of_mem h.execute hid
    · intro id hid
      obtain ⟨entry, hentry, rfl⟩ := List.mem_map.mp hid
      obtain ⟨rule, hrule, -⟩ := (h.typeTransition.mem_getD_iff _ entry).mp (List.mem_filter.mp hentry).1
      exact (List.getElem?_eq_some_iff.mp hrule).1

theorem refersTo_of_dynamic? (h : g.Reads p) {y : DynamicTransition} (hy : g.dynamic? s t = some y) :
    ∀ id ∈ y.dyntransition ++ y.setcurrent, id < p.accessRules.length := by
  obtain ⟨-, rfl⟩ := g.dynamic?_eq_some_iff.mp hy
  intro id hid
  rcases List.mem_append.mp hid with hid | hid
  · exact lt_length_of_mem h.dyntransition hid
  · exact lt_length_of_mem h.setcurrent hid

theorem lt_length_of_mem_candidates (h : g.Reads p) (hmem : (s, t) ∈ g.candidates) :
    s < p.types.length ∧ t < p.types.length := by
  rcases (g.mem_candidates.mp hmem).1 with hpair | hpair
  · obtain ⟨id, rule, -, hpermits⟩ := (h.transition.mem_iff (s, t)).mp hpair
    exact hpermits.covers.lt_length
  · obtain ⟨id, rule, -, hpermits⟩ := (h.dyntransition.mem_iff (s, t)).mp hpair
    exact hpermits.covers.lt_length

end Grants

namespace TransitionGraph

variable {grants : Grants}

theorem within_ofGrants (h : grants.Reads p) : (ofGrants grants).Within p (·.RefersTo p) := by
  refine List.foldlRecOn (motive := fun g : TransitionGraph => g.Within p (·.RefersTo p)) grants.candidates _ ?_ ?_
  · exact Digraph.Within.empty p _
  intro g hg pair hpair
  obtain ⟨hs, ht⟩ := Grants.lt_length_of_mem_candidates h hpair
  rw [addPair]
  split
  next e he =>
    obtain ⟨-, rfl⟩ := grants.edge?_eq_some_iff.mp he
    exact hg.putEdge hs ht ⟨fun _ => Grants.refersTo_of_standard? h, fun _ => Grants.refersTo_of_dynamic? h⟩
  next => exact (hg.addNode hs).addNode ht

theorem refersTo_keep {f : TransitionFilter} {e e' : TransitionEdge} (h : e.RefersTo p)
    (hkeep : f.keep e = some e') : e'.RefersTo p := by
  obtain ⟨-, rfl⟩ := TransitionFilter.keep_eq_some_iff.mp hkeep
  refine ⟨?_, h.dynamic⟩
  intro x' hx'
  obtain ⟨x, hx, hwithout⟩ := Option.bind_eq_some_iff.mp hx'
  obtain ⟨-, rfl⟩ := StandardTransition.without?_eq_some_iff.mp hwithout
  have hrefers := h.standard x hx
  refine ⟨hrefers.rules, ?_⟩
  intro file r hr
  exact hrefers.files file r ((getElem?_filter_contains x f.exclude file r).mp hr).2

theorem within_apply {g : TransitionGraph} (consistent : g.Consistent) (h : g.Within p (·.RefersTo p))
    (f : TransitionFilter) : (f.apply g).Within p (·.RefersTo p) := by
  have hturned : (if f.reverse then g.reversed else g).Consistent ∧
      (if f.reverse then g.reversed else g).Within p (·.RefersTo p) := by
    split
    · exact ⟨.reversed g, h.reversed consistent⟩
    · exact ⟨consistent, h⟩
  rw [TransitionFilter.apply, Std.ExtTreeSet.foldl_eq_foldl_toList]
  refine Digraph.Within.filterEdges (hturned.2.foldl_removeNode hturned.1 _) ?_
  intro s t e e' hrefers hkeep
  exact refersTo_keep hrefers hkeep

end TransitionGraph

namespace FlowGraph

theorem within_ofPolicy {g : FlowGraph} (hg : ofPolicy p m = .ok g) : g.Within p (·.RefersTo p) := by
  obtain ⟨rows, hrows, rfl⟩ := ofPolicy_eq_ok hg
  refine List.foldlRecOn (motive := fun g : FlowGraph => g.Within p (·.RefersTo p)) rows.flatten _ ?_ ?_
  · exact Digraph.Within.empty p _
  intro g hg flow hflow
  obtain ⟨flows, hflows, hmem⟩ := List.mem_flatten.mp hflow
  obtain ⟨⟨rule, id⟩, hentry, hrule⟩ := (mem_iff_of_mapM hrows).mp hflows
  obtain ⟨hid, -, hcontributes⟩ := (mem_ruleFlows hrule flow).mp hmem
  have hlt : flow.contribution.rule < p.accessRules.length := by
    rw [hid]
    exact (List.getElem?_eq_some_iff.mp (List.mk_mem_zipIdx_iff_getElem?.mp hentry)).1
  have hends : flow.source < p.types.length ∧ flow.target < p.types.length := by
    cases hdirection : flow.contribution.direction with
    | write => exact (hcontributes.writes hdirection).1.lt_length
    | read => exact (hcontributes.reads hdirection).1.lt_length.symm
  refine hg.putEdge hends.1 hends.2 ?_
  intro c hc
  rw [FlowEdge.contributions_add] at hc
  rcases List.mem_append.mp hc with hc | hc
  · cases he : g.edge? flow.source flow.target with
    | none => simp [he] at hc
    | some e =>
      rw [he] at hc
      exact (hg.edges _ _ e he).2.2 c hc
  · rw [List.mem_singleton.mp hc]
    exact hlt

theorem within_passes {g : FlowGraph} (hg : g.Within p (·.RefersTo p)) (f : FlowFilter)
    (disabled : Std.ExtTreeSet RuleId) :
    (f.dropLight (FlowFilter.dropRules disabled (f.dropExcluded g))).Within p (·.RefersTo p) := by
  have hexcluded : (f.dropExcluded g).Within p (·.RefersTo p) := by
    rw [FlowFilter.dropExcluded]
    split
    · exact hg
    · refine hg.filterEdges fun s t e e' hrefers hkeep => ?_
      obtain ⟨-, ⟨⟩⟩ := Option.ite_none_left_eq_some.mp hkeep
      exact hrefers
  have hrules : (FlowFilter.dropRules disabled (f.dropExcluded g)).Within p (·.RefersTo p) := by
    rw [FlowFilter.dropRules]
    split
    · exact hexcluded
    · refine hexcluded.filterEdges fun s t e e' hrefers hkeep c hc => ?_
      obtain ⟨-, ⟨⟩⟩ := Option.ite_none_left_eq_some.mp hkeep
      rw [FlowFilter.contributions_strike] at hc
      exact hrefers c (List.mem_filter.mp hc).1
  rw [FlowFilter.dropLight]
  split
  · refine hrules.filterEdges fun s t e e' hrefers hkeep => ?_
    obtain ⟨-, ⟨⟩⟩ := Option.ite_none_right_eq_some.mp hkeep
    exact hrefers
  · exact hrules

end FlowGraph

namespace Policy

/-- A permission that a map does not have, of a class that it has or not. -/
def Unmapped (p : Policy) (m : PermissionMap) (e : Error) : Prop :=
  ∃ rule ∈ p.accessRules, ∃ perm ∈ rule.perms,
    (rule.objectClass ∉ m.classes ∧ e = .permissionMap (.unmappedClass rule.objectClass)) ∨
    (rule.objectClass ∈ m.classes ∧ m.entry? rule.objectClass perm = none ∧
      e = .permissionMap (.unmappedPermission rule.objectClass perm))

theorem unmapped_of_ofPolicy_eq_error (hd : d.build = .ok p) {e : Error} (h : FlowGraph.ofPolicy p m = .error e) :
    p.Unmapped m e := by
  obtain ⟨rule, perm, hfirst, rfl⟩ := (FlowGraph.ofPolicy_eq_error hd).mp h
  obtain ⟨before, after, hrules, -⟩ := hfirst.before
  have hrule : rule ∈ p.accessRules := by
    rw [hrules]
    exact List.mem_append_right before List.mem_cons_self
  refine ⟨rule, hrule, perm, hfirst.missing.mem, ?_⟩
  rw [PermissionMap.missing]
  by_cases hclass : rule.objectClass ∈ m.classes
  · rw [if_pos hclass]
    exact Or.inr ⟨hclass, hfirst.missing.missing, rfl⟩
  · rw [if_neg hclass]
    exact Or.inl ⟨hclass, rfl⟩

/-- Built policies can be compared, and the graphs of their transitions drawn. Drawing the graph of flows fails
only for want of an entry in the permission map, asking whether a rule counts only for a choice of a boolean
that is not declared, and filtering flows for no choice of booleans that are. Every number in these graphs is
that of a type or rule of the policy. -/
theorem answers_of_build {name name' : String} {statements statements' : List Statement}
    (built : Policy.build name statements = .ok p) (built' : Policy.build name' statements' = .ok q) :
    (∃ c, Comparison.between p q = .ok c) ∧
    (∃ g, TransitionGraph.ofPolicy p = .ok g ∧ g.Within p (·.RefersTo p) ∧
      ∀ f : TransitionFilter, (f.apply g).Within p (·.RefersTo p)) ∧
    (∀ m e, FlowGraph.ofPolicy p m = .error e → p.Unmapped m e) ∧
    (∀ r ∈ p.rules, ∀ place, r.conditional? = some place → ∀ overrides e,
      p.isEnabled place overrides = .error e → ∃ name ∈ overrides, name ∉ p.booleans ∧ .unknownBoolean name = e) ∧
    (∀ m g, FlowGraph.ofPolicy p m = .ok g → g.Within p (·.RefersTo p)) ∧
    ∀ f : FlowFilter, (∀ booleans, f.booleans = some booleans → ∀ name ∈ booleans, name ∈ p.booleans) →
      ∀ g, ∃ h, f.apply p g = .ok h ∧ (g.Within p (·.RefersTo p) → h.Within p (·.RefersTo p)) := by
  refine ⟨Comparison.exists_between built built', ?_, ?_, ?_, ?_, ?_⟩
  · obtain ⟨grants, hgrants, h⟩ := Grants.exists_ofPolicy built
    have hwithin := TransitionGraph.within_ofGrants h
    refine ⟨.ofGrants grants, ?_, hwithin, ?_⟩
    · rw [TransitionGraph.ofPolicy, hgrants]
      rfl
    · exact TransitionGraph.within_apply (TransitionGraph.consistent_ofGrants grants) hwithin
  · exact fun m e => unmapped_of_ofPolicy_eq_error built
  · intro r hr place hplace overrides e
    exact exists_of_isEnabled_eq_error (exists_lookupBoolean_of_mem built hr hplace)
  · exact fun m g => FlowGraph.within_ofPolicy
  · intro f declared g
    obtain ⟨disabled, happly, -⟩ := FlowFilter.exists_apply built declared g
    exact ⟨_, happly, fun hwithin => FlowGraph.within_passes hwithin f disabled⟩

/-- An undeclared boolean in the choice and an empty map are to blame for what fails. -/
theorem answers_of_build_gate :
    Policy.build "detour" TransitionFilter.detourStatements = .ok TransitionFilter.detour ∧
      Policy.build "gate" FlowFilter.gateStatements = .ok FlowFilter.gate ∧
      (∃ c, Comparison.between TransitionFilter.detour FlowFilter.gate = .ok c) ∧
      (∃ g, TransitionGraph.ofPolicy TransitionFilter.detour = .ok g ∧ g.hasEdge 0 1 ∧
        g.Within TransitionFilter.detour (·.RefersTo TransitionFilter.detour)) ∧
      (∃ e, FlowGraph.ofPolicy FlowFilter.gate .empty = .error e ∧ FlowFilter.gate.Unmapped .empty e) ∧
      (∃ e, FlowFilter.gate.isEnabled ⟨.boolean "gate", true⟩ (.ofList [("door", true)]) = .error e ∧
        ∃ name ∈ (.ofList [("door", true)] : NameTable Bool), name ∉ FlowFilter.gate.booleans ∧
          .unknownBoolean name = e) ∧
      ∃ g h, FlowGraph.ofPolicy FlowFilter.gate FlowFilter.gateMap = .ok g ∧
        FlowFilter.closedGate.apply FlowFilter.gate g = .ok h ∧
        h.Within FlowFilter.gate (·.RefersTo FlowFilter.gate) := by
  have built : Policy.build "gate" FlowFilter.gateStatements = .ok FlowFilter.gate := by rfl
  obtain ⟨hcompared, ⟨g, hg, hwithin, -⟩, -⟩ := answers_of_build TransitionFilter.build_detour built
  obtain ⟨-, -, hunmapped, hconditional, hdrawn, hfilter⟩ := answers_of_build built TransitionFilter.build_detour
  have hedge : g.hasEdge 0 1 := by
    cases hg
    decide +kernel
  obtain ⟨e, he⟩ : ∃ e, FlowGraph.ofPolicy FlowFilter.gate .empty = .error e := ⟨_, rfl⟩
  have hrule : Rule.access ⟨.allow, "alice_t", "bob_t", "file", .ofList ["write"], some ⟨.boolean "gate", true⟩⟩ ∈
      FlowFilter.gate.rules := by decide +kernel
  have hdoor : FlowFilter.gate.isEnabled ⟨.boolean "gate", true⟩ (.ofList [("door", true)]) =
      .error (.unknownBoolean "door") := by decide +kernel
  obtain ⟨flows, hflows⟩ : ∃ g, FlowGraph.ofPolicy FlowFilter.gate FlowFilter.gateMap = .ok g := ⟨_, rfl⟩
  have declared : ∀ booleans, FlowFilter.closedGate.booleans = some booleans →
      ∀ name ∈ booleans, name ∈ FlowFilter.gate.booleans := by
    intro booleans hbooleans name hname
    cases hbooleans
    have hgate : "gate" = name := by simpa using hname
    rw [← hgate]
    exact Std.ExtTreeMap.contains_iff_mem.mp (by decide)
  obtain ⟨h, hh, hleft⟩ := hfilter FlowFilter.closedGate declared flows
  exact ⟨TransitionFilter.build_detour, built, hcompared, ⟨g, hg, hedge, hwithin⟩, ⟨e, he, hunmapped _ e he⟩,
    ⟨_, hdoor, hconditional _ hrule _ rfl _ _ hdoor⟩, flows, h, hflows, hh, hleft (hdrawn _ flows hflows)⟩

end Policy

end PolicyAnalysis
