import PolicyAnalysis.Proofs.Transition.Graph
import PolicyAnalysis.Transition.Filter

/-!
# Entrypoints of filtered transitions

Every type of file that an edge lists can be executed and entered through, and it is listed only where the
process may choose its domain or has some default with it, which need not be the domain that the edge leads
to. A filter takes excluded types away and leaves the rest as it was, so what is said of the types that
an edge lists holds after a filter too.
-/

namespace PolicyAnalysis

variable {d : Draft} {p : Policy} {g : Grants} {f : TransitionFilter} {s t file : TypeId}

namespace TransitionGraph

/-- What is known of a type of file that a standard transition lists. -/
structure Listed (p : Policy) (s : TypeId) (x : StandardTransition) (file : TypeId) (r : Entrypoint) :
    Prop where
  execute : r.execute ≠ []
  entrypoint : r.entrypoint ≠ []
  decided : x.setexec ≠ [] ∨ ∃ domain, p.HasDefault s file domain

theorem listed_of_standard? (h : g.Reads p) {x : StandardTransition} (hx : g.standard? s t = some x)
    {r : Entrypoint} (hr : x.entrypoints[file]? = some r) : Listed p s x file r := by
  obtain ⟨-, rfl⟩ := (g.standard?_eq_some_iff).mp hx
  obtain ⟨hfile, hentry⟩ := Grants.mem_entries.mp ((getElem?_ofList_eq_some_iff (g.nodup_entries s t)).mp hr)
  obtain ⟨hexecute, hentrypoint⟩ := g.mem_sharedFiles.mp hfile
  obtain ⟨hdecided, rfl⟩ := (Grants.entrypoint?_eq_some_iff h).mp hentry
  refine ⟨?_, ?_, ?_⟩
  · exact (h.execute.mem_iff_getD_ne_nil _).mp hexecute
  · exact (h.entrypoint.mem_iff_getD_ne_nil _).mp hentrypoint
  · refine hdecided.imp_right fun hne => ?_
    obtain ⟨entry, rule, hrule, hdirects⟩ := (h.typeTransition.getD_ne_nil_iff _).mp hne
    exact ⟨entry.1, rule, List.mem_of_getElem? hrule, hdirects⟩

end TransitionGraph

theorem getElem?_filter_contains (x : StandardTransition) (files : Std.ExtTreeSet TypeId) (file : TypeId)
    (r : Entrypoint) :
    (x.entrypoints.filter fun file _ => !files.contains file)[file]? = some r ↔
      file ∉ files ∧ x.entrypoints[file]? = some r := by
  rw [Std.ExtTreeMap.getElem?_filter', Option.filter_eq_some_iff, Bool.not_eq_true', ← Bool.not_eq_true,
    Std.ExtTreeSet.contains_iff_mem, and_comm]

theorem StandardTransition.without?_eq_some_iff {x y : StandardTransition} {files : Std.ExtTreeSet TypeId} :
    x.without? files = some y ↔
      (∃ file ∈ x.entrypoints, file ∉ files) ∧
        { x with entrypoints := x.entrypoints.filter fun file _ => !files.contains file } = y := by
  have hempty : (x.entrypoints.filter fun file _ => !files.contains file).isEmpty = false ↔
      ∃ file ∈ x.entrypoints, file ∉ files := by
    rw [← Std.ExtTreeMap.isEmpty_keys, List.isEmpty_eq_false_iff_exists_mem]
    refine exists_congr fun file => ?_
    rw [Std.ExtTreeMap.mem_keys, Std.ExtTreeMap.mem_iff_isSome_getElem?, Std.ExtTreeMap.mem_iff_isSome_getElem?,
      Option.isSome_iff_exists, Option.isSome_iff_exists]
    simp only [getElem?_filter_contains, exists_and_left]
    exact and_comm
  rw [without?, ← hempty]
  by_cases h : (x.entrypoints.filter fun file _ => !files.contains file).isEmpty <;> simp [h]

namespace TransitionFilter

/-- The ends of an edge of the whole graph that an edge of the filtered one comes from. -/
def ends (f : TransitionFilter) (s t : TypeId) : TypeId × TypeId :=
  if f.reverse then (t, s) else (s, t)

theorem keep_eq_some_iff {e e' : TransitionEdge} :
    f.keep e = some e' ↔
      ((e.standard.bind (·.without? f.exclude)).isSome ∨ e.dynamic.isSome) ∧
        ⟨e.standard.bind (·.without? f.exclude), e.dynamic⟩ = e' := by
  rw [keep]
  cases e.standard.bind (·.without? f.exclude) <;> cases e.dynamic <;> simp

/-- The edges of a graph that is turned round, if it is to be, and has no excluded nodes. -/
theorem edge?_foldl_exclude {ε : Type} {graph : Digraph ε} (h : graph.Consistent) (f : TransitionFilter)
    (s t : TypeId) :
    (f.exclude.foldl Digraph.removeNode (if f.reverse then graph.reversed else graph)).edge? s t =
      if s ∈ f.exclude ∨ t ∈ f.exclude then none else graph.edge? (f.ends s t).1 (f.ends s t).2 := by
  have hturned : (if f.reverse then graph.reversed else graph).Consistent := by
    split
    · exact .reversed graph
    · exact h
  have hends : (if f.reverse then graph.reversed else graph).edge? s t =
      graph.edge? (f.ends s t).1 (f.ends s t).2 := by
    rw [ends]
    split
    · exact Digraph.edge?_reversed graph s t
    · rfl
  rw [Std.ExtTreeSet.foldl_eq_foldl_toList, hturned.edge?_foldl_removeNode, hends]
  simp only [Std.ExtTreeSet.mem_toList]

theorem edge?_apply {graph : TransitionGraph} (h : graph.Consistent) (f : TransitionFilter) (s t : TypeId) :
    (f.apply graph).edge? s t =
      if s ∈ f.exclude ∨ t ∈ f.exclude then none
      else (graph.edge? (f.ends s t).1 (f.ends s t).2).bind f.keep := by
  rw [apply, Digraph.edge?_filterEdges, edge?_foldl_exclude h]
  split
  · rfl
  · rfl

theorem ends_ends (f : TransitionFilter) (s t : TypeId) :
    f.ends (f.ends s t).1 (f.ends s t).2 = (s, t) := by
  unfold ends
  split <;> rfl

theorem ends_mem_iff (f : TransitionFilter) (s t : TypeId) :
    ((f.ends s t).1 ∈ f.exclude ∨ (f.ends s t).2 ∈ f.exclude) ↔ s ∈ f.exclude ∨ t ∈ f.exclude := by
  unfold ends
  split
  · exact or_comm
  · rfl

theorem listed_of_apply (h : g.Reads p) {s t : TypeId} {e : TransitionEdge} {x : StandardTransition}
    {r : Entrypoint} (he : (f.apply (.ofGrants g)).edge? s t = some e) (hx : e.standard = some x)
    (hr : x.entrypoints[file]? = some r) :
    file ∉ f.exclude ∧ TransitionGraph.Listed p (f.ends s t).1 x file r := by
  rw [edge?_apply (TransitionGraph.consistent_ofGrants g), Option.ite_none_left_eq_some,
    Option.bind_eq_some_iff] at he
  obtain ⟨-, e₀, he₀, hkeep⟩ := he
  obtain ⟨-, rfl⟩ := keep_eq_some_iff.mp hkeep
  obtain ⟨x₀, hx₀, hwithout⟩ := Option.bind_eq_some_iff.mp hx
  obtain ⟨-, rfl⟩ := StandardTransition.without?_eq_some_iff.mp hwithout
  obtain ⟨hfile, hr⟩ := (getElem?_filter_contains x₀ f.exclude file r).mp hr
  rw [TransitionGraph.edge?_ofGrants h, Option.ite_none_right_eq_some] at he₀
  obtain ⟨-, rfl⟩ := g.edge?_eq_some_iff.mp he₀.2
  obtain ⟨hexecute, hentrypoint, hdecided⟩ := TransitionGraph.listed_of_standard? h hx₀ hr
  exact ⟨hfile, hexecute, hentrypoint, hdecided⟩

theorem hasEdge_apply_iff {graph : TransitionGraph} (h : graph.Consistent) {e : TransitionEdge}
    (he : graph.edge? s t = some e) (hdynamic : e.dynamic = none) :
    (f.apply graph).hasEdge (f.ends s t).1 (f.ends s t).2 ↔
      s ∉ f.exclude ∧ t ∉ f.exclude ∧
        ∃ x file, e.standard = some x ∧ file ∈ x.entrypoints ∧ file ∉ f.exclude := by
  have hkeep : (∃ e', f.keep e = some e') ↔
      ∃ x file, e.standard = some x ∧ file ∈ x.entrypoints ∧ file ∉ f.exclude := by
    simp only [keep_eq_some_iff, hdynamic, Option.isSome_none, Bool.false_eq_true, or_false,
      Option.isSome_iff_exists, Option.bind_eq_some_iff, StandardTransition.without?_eq_some_iff]
    constructor
    · rintro ⟨_, ⟨_, x, hx, ⟨file, hfile, hleft⟩, -⟩, -⟩
      exact ⟨x, file, hx, hfile, hleft⟩
    · intro ⟨x, file, hx, hfile, hleft⟩
      exact ⟨_, ⟨_, x, hx, ⟨file, hfile, hleft⟩, rfl⟩, rfl⟩
  rw [Digraph.hasEdge_iff, edge?_apply h, ends_ends, he, Option.bind_some, ← hkeep, ← and_assoc, ← not_or]
  by_cases hexcluded : s ∈ f.exclude ∨ t ∈ f.exclude
  · simp only [(f.ends_mem_iff s t).mpr hexcluded, hexcluded]
    simp
  · rw [← f.ends_mem_iff s t] at hexcluded ⊢
    simp only [hexcluded]
    simp

/-- Every type of file that a filtered edge lists is left over by the filter, can be executed and entered
through, and is listed because the process may choose its domain or has some default with it. An edge of the
whole graph that is not dynamic is left exactly if both its ends and one of its types of files are. -/
theorem apply_entrypoints {name : String} {statements : List Statement}
    (built : Policy.build name statements = .ok p) (f : TransitionFilter) :
    ∃ g, TransitionGraph.ofPolicy p = .ok g ∧
      (∀ s t e x file r, (f.apply g).edge? s t = some e → e.standard = some x →
        x.entrypoints[file]? = some r →
          file ∉ f.exclude ∧ TransitionGraph.Listed p (f.ends s t).1 x file r) ∧
      ∀ s t e, g.edge? s t = some e → e.dynamic = none →
        ((f.apply g).hasEdge (f.ends s t).1 (f.ends s t).2 ↔
          s ∉ f.exclude ∧ t ∉ f.exclude ∧
            ∃ x file, e.standard = some x ∧ file ∈ x.entrypoints ∧ file ∉ f.exclude) := by
  obtain ⟨grants, hgrants, h⟩ := Grants.exists_ofPolicy built
  refine ⟨.ofGrants grants, ?_, ?_, ?_⟩
  · rw [TransitionGraph.ofPolicy, hgrants]
    rfl
  · intro s t e x file r he hx hr
    exact listed_of_apply h he hx hr
  · intro s t e he hdynamic
    exact hasEdge_apply_iff (TransitionGraph.consistent_ofGrants grants) he hdynamic

def detourStatements : List Statement := [
  .type "a_t" ∅,
  .type "b_t" ∅,
  .type "c_t" ∅,
  .type "x_t" ∅,
  .type "y_t" ∅,
  .objectClass "process" none (.ofList ["transition"]),
  .objectClass "file" none (.ofList ["entrypoint", "execute"]),
  .rule (.access ⟨.allow, "a_t", "b_t", "process", .ofList ["transition"], none⟩),
  .rule (.access ⟨.allow, "a_t", "x_t", "file", .ofList ["execute"], none⟩),
  .rule (.access ⟨.allow, "a_t", "y_t", "file", .ofList ["execute"], none⟩),
  .rule (.access ⟨.allow, "b_t", "x_t", "file", .ofList ["entrypoint"], none⟩),
  .rule (.access ⟨.allow, "b_t", "y_t", "file", .ofList ["entrypoint"], none⟩),
  .rule (.type ⟨.transition, "a_t", "y_t", "process", "b_t", none, none⟩),
  .rule (.type ⟨.transition, "a_t", "x_t", "process", "c_t", none, none⟩)]

/-- One type of file leads to the domain that an edge is for, the other to a third one. -/
def detour : Policy :=
  match Policy.build "detour" detourStatements with
  | .ok p => p
  | .error _ => (Draft.ofStatements "detour" []).start

theorem build_detour : Policy.build "detour" detourStatements = .ok detour := by rfl

/-- Without the only type of file that leads to the domain. -/
def withoutLead : TransitionFilter where
  exclude := .ofList [4]

/-- The edge is left for the sake of the other type of file. -/
theorem exists_apply_entrypoints_detour :
    Policy.build "detour" detourStatements = .ok detour ∧
      ∃ g e, TransitionGraph.ofPolicy detour = .ok g ∧ g.edge? 0 1 = some e ∧ e.dynamic = none ∧
        (withoutLead.apply g).hasEdge 0 1 ∧
        ∃ x file, e.standard = some x ∧ file ∈ x.entrypoints ∧ file ∉ withoutLead.exclude := by
  obtain ⟨g, hg, -, hleft⟩ := apply_entrypoints build_detour withoutLead
  have hedge : g.hasEdge 0 1 ∧ (withoutLead.apply g).hasEdge 0 1 ∧
      (g.edge? 0 1).bind (·.dynamic) = none := by
    cases hg
    decide +kernel
  obtain ⟨e, he⟩ := (g.hasEdge_iff 0 1).mp hedge.1
  have hdynamic : e.dynamic = none := by simpa [he] using hedge.2.2
  obtain ⟨-, -, hfile⟩ := (hleft 0 1 e he hdynamic).mp hedge.2.1
  exact ⟨build_detour, g, e, hg, he, hdynamic, hedge.2.1, hfile⟩

/-- The type of file that is left does not lead to the domain, and the process may not choose it. -/
theorem not_apply_entrypoints_detour :
    ∃ g e x r, TransitionGraph.ofPolicy detour = .ok g ∧ (withoutLead.apply g).edge? 0 1 = some e ∧
      e.dynamic = none ∧ e.standard = some x ∧ x.entrypoints[3]? = some r ∧
      ¬ (3 ∉ withoutLead.exclude ∧ r.execute ≠ [] ∧ r.entrypoint ≠ [] ∧
        (x.setexec ≠ [] ∨ r.typeTransition ≠ [])) := by
  obtain ⟨g, hg⟩ : ∃ g, TransitionGraph.ofPolicy detour = .ok g := ⟨_, rfl⟩
  have hedge : (withoutLead.apply g).edge? 0 1 =
      some ⟨some ⟨[0], [], .ofList [(3, Entrypoint.mk [3] [1] [])]⟩, none⟩ := by
    cases hg
    decide +kernel
  refine ⟨g, _, _, ⟨[3], [1], []⟩, hg, hedge, rfl, rfl, by decide, ?_⟩
  rintro ⟨-, -, -, hchooses | hleads⟩
  · exact hchooses rfl
  · exact hleads rfl

end TransitionFilter

end PolicyAnalysis
