import Mathlib.Data.List.Induction
import PolicyAnalysis.Proofs.Digraph.Reachable
import PolicyAnalysis.Proofs.Transition.Grants
import PolicyAnalysis.Transition.Graph

/-!
# The graph of domain transitions is exact

The tables of grants list what the rules permit, so a way from a domain to another is found in them exactly if
the rules make it complete. The graph has an edge for each pair of different domains with such a way.
-/

namespace PolicyAnalysis

open Checked

variable {d : Draft} {p : Policy} {g : Grants} {s t file : TypeId}

namespace Policy

/-- A transition that the rules make complete, where some domains may choose the domain of the program that
they run next. -/
def Standard (p : Policy) (chooses : TypeId → Prop) (s t : TypeId) : Prop :=
  p.Allows Grants.processClass "transition" s t ∧
    ∃ file, p.Allows Grants.fileClass "execute" s file ∧ p.Allows Grants.fileClass "entrypoint" t file ∧
      (chooses s ∨ p.HasDefault s file t)

/-- A transition at any time, where some domains may choose their own domain. -/
def Dynamic (p : Policy) (chooses : TypeId → Prop) (s t : TypeId) : Prop :=
  p.Allows Grants.processClass "dyntransition" s t ∧ chooses s

end Policy

namespace Grants

theorem mem_sharedFiles (g : Grants) :
    file ∈ g.sharedFiles s t ↔ (s, file) ∈ g.execute ∧ (t, file) ∈ g.entrypoint := by
  rw [sharedFiles, List.mem_filter, List.mem_filterMap, Std.ExtTreeMap.contains_iff_mem, and_comm]
  refine and_congr_right fun _ => ?_
  constructor
  · rintro ⟨⟨t', file'⟩, hmem, heq⟩
    split at heq
    next ht =>
      cases ht
      cases heq
      exact Std.ExtTreeMap.mem_keys.mp hmem
    next => cases heq
  · intro hmem
    exact ⟨(t, file), Std.ExtTreeMap.mem_keys.mpr hmem, if_pos rfl⟩

theorem mem_sharedFiles_iff (h : g.Reads p) :
    file ∈ g.sharedFiles s t ↔
      p.Allows fileClass "execute" s file ∧ p.Allows fileClass "entrypoint" t file := by
  rw [mem_sharedFiles, h.execute.mem_iff_getD_ne_nil, h.entrypoint.mem_iff_getD_ne_nil,
    getD_ne_nil_iff h.execute (s, file), getD_ne_nil_iff h.entrypoint (t, file)]
  rfl

/-- The rules that make a domain the default for processes of another that run files of a type. -/
def defaultsTo (g : Grants) (s file t : TypeId) : List RuleId :=
  ((g.typeTransition.getD (s, file) []).filter fun d => d.1 = t).map (·.2)

theorem mem_defaultsTo (h : g.Reads p) {id : RuleId} :
    id ∈ g.defaultsTo s file t ↔ ∃ rule, p.typeRules[id]? = some rule ∧ p.Directs rule s file t := by
  rw [defaultsTo, List.mem_map]
  constructor
  · intro ⟨entry, hfiltered, hid⟩
    obtain ⟨hentry, ht⟩ := List.mem_filter.mp hfiltered
    obtain ⟨rule, hrule, hdirects⟩ := (h.typeTransition.mem_getD_iff (s, file) entry).mp hentry
    rw [of_decide_eq_true ht] at hdirects
    exact ⟨rule, hid ▸ hrule, hdirects⟩
  · intro hrule
    have hentry := (h.typeTransition.mem_getD_iff (s, file) (t, id)).mpr hrule
    exact ⟨(t, id), List.mem_filter.mpr ⟨hentry, decide_eq_true rfl⟩, rfl⟩

theorem defaultsTo_ne_nil_iff (h : g.Reads p) : g.defaultsTo s file t ≠ [] ↔ p.HasDefault s file t := by
  rw [Policy.HasDefault, ← exists_getElem?_iff]
  simp only [← mem_defaultsTo h]
  exact ⟨List.exists_mem_of_ne_nil _, fun ⟨id, hid⟩ => List.ne_nil_of_mem hid⟩

theorem nodup_sharedFiles (g : Grants) (s t : TypeId) : (g.sharedFiles s t).Nodup := by
  refine List.Nodup.filter _ (List.Nodup.filterMap ?_ ?_)
  · rintro ⟨a, file⟩ ⟨b, file'⟩ c hc hc'
    simp only [Option.mem_def, Option.ite_none_right_eq_some, Option.some.injEq] at hc hc'
    rw [hc.1, hc.2, hc'.1, hc'.2]
  · refine Std.ExtTreeMap.distinct_keys.imp fun hne heq => hne ?_
    rw [heq]
    exact Std.ReflCmp.compare_self

def entries (g : Grants) (s t : TypeId) : List (TypeId × Entrypoint) :=
  (g.sharedFiles s t).filterMap fun file => (g.entrypoint? s t file).map fun e => (file, e)

theorem mem_entries {e : Entrypoint} :
    (file, e) ∈ g.entries s t ↔ file ∈ g.sharedFiles s t ∧ g.entrypoint? s t file = some e := by
  rw [entries, List.mem_filterMap]
  constructor
  · intro ⟨file', hfile, h⟩
    obtain ⟨e', he, heq⟩ := Option.map_eq_some_iff.mp h
    cases heq
    exact ⟨hfile, he⟩
  · intro ⟨hfile, he⟩
    exact ⟨file, hfile, Option.map_eq_some_iff.mpr ⟨e, he, rfl⟩⟩

theorem nodup_entries (g : Grants) (s t : TypeId) : ((g.entries s t).map Prod.fst).Nodup := by
  rw [entries, List.map_filterMap]
  refine (g.nodup_sharedFiles s t).filterMap ?_
  intro file file' file'' h h'
  simp only [Option.mem_def, Option.map_map, Option.map_eq_some_iff, Function.comp_apply] at h h'
  obtain ⟨-, -, rfl⟩ := h
  obtain ⟨-, -, rfl⟩ := h'
  rfl

theorem entrypoint?_eq_some_iff (h : g.Reads p) {e : Entrypoint} :
    g.entrypoint? s t file = some e ↔
      (g.setexec.getD s [] ≠ [] ∨ g.typeTransition.getD (s, file) [] ≠ []) ∧
        ⟨g.entrypoint.getD (t, file) [], g.execute.getD (s, file) [], g.defaultsTo s file t⟩ = e := by
  rw [entrypoint?, defaultsTo, Option.ite_none_right_eq_some, Option.some.injEq, Bool.or_eq_true,
    Std.ExtTreeMap.contains_iff_mem, h.setexec.mem_iff_getD_ne_nil, Bool.not_eq_true', List.isEmpty_eq_false_iff]

theorem standard?_eq_some_iff (g : Grants) {x : StandardTransition} :
    g.standard? s t = some x ↔
      (g.transition.getD (s, t) [] ≠ [] ∧ g.entries s t ≠ [] ∧
        (g.setexec.getD s [] ≠ [] ∨ ∃ file e, (file, e) ∈ g.entries s t ∧ e.typeTransition ≠ [])) ∧
      ⟨g.transition.getD (s, t) [], g.setexec.getD s [], .ofList (g.entries s t)⟩ = x := by
  rw [standard?, ← entries, Option.ite_none_right_eq_some, Option.some.injEq]
  simp only [Bool.and_eq_true, Bool.or_eq_true, Bool.not_eq_true', List.isEmpty_eq_false_iff, List.any_eq_true,
    Prod.exists, and_assoc]

theorem isSome_standard?_iff (h : g.Reads p) :
    (g.standard? s t).isSome ↔ p.Standard (p.AllowsFrom "setexec") s t := by
  have hsetexec : g.setexec.getD s [] ≠ [] ↔ p.AllowsFrom "setexec" s := getD_ne_nil_iff h.setexec s
  rw [Option.isSome_iff_exists, Policy.Standard, Policy.Allows, ← getD_ne_nil_iff h.transition (s, t)]
  constructor
  · intro ⟨x, hx⟩
    obtain ⟨⟨htransition, hentries, hdecided⟩, -⟩ := (standard?_eq_some_iff g).mp hx
    refine ⟨htransition, ?_⟩
    rcases hdecided with hchooses | ⟨file, e, hmem, hne⟩
    · obtain ⟨⟨file, e⟩, hmem⟩ := List.exists_mem_of_ne_nil _ hentries
      obtain ⟨hexecute, hentrypoint⟩ := (mem_sharedFiles_iff h).mp (mem_entries.mp hmem).1
      exact ⟨file, hexecute, hentrypoint, Or.inl (hsetexec.mp hchooses)⟩
    · obtain ⟨hfile, he⟩ := mem_entries.mp hmem
      obtain ⟨hexecute, hentrypoint⟩ := (mem_sharedFiles_iff h).mp hfile
      obtain ⟨-, rfl⟩ := (entrypoint?_eq_some_iff h).mp he
      exact ⟨file, hexecute, hentrypoint, Or.inr ((defaultsTo_ne_nil_iff h).mp hne)⟩
  · intro ⟨htransition, file, hexecute, hentrypoint, hdecided⟩
    have hfile : file ∈ g.sharedFiles s t := (mem_sharedFiles_iff h).mpr ⟨hexecute, hentrypoint⟩
    have hentry (hset : g.setexec.getD s [] ≠ [] ∨ g.typeTransition.getD (s, file) [] ≠ []) :
        ∃ e, (file, e) ∈ g.entries s t ∧ g.entrypoint? s t file = some e := by
      have he := (entrypoint?_eq_some_iff h (t := t)).mpr ⟨hset, rfl⟩
      exact ⟨_, mem_entries.mpr ⟨hfile, he⟩, he⟩
    refine ⟨_, (standard?_eq_some_iff g).mpr ⟨⟨htransition, ?_⟩, rfl⟩⟩
    rcases hdecided with hchooses | hdefault
    · have hset := hsetexec.mpr hchooses
      obtain ⟨e, hmem, -⟩ := hentry (Or.inl hset)
      exact ⟨List.ne_nil_of_mem hmem, Or.inl hset⟩
    · have hne := (defaultsTo_ne_nil_iff h).mpr hdefault
      have hdefaults : g.typeTransition.getD (s, file) [] ≠ [] := by
        intro hnil
        rw [defaultsTo, hnil] at hne
        exact hne rfl
      obtain ⟨e, hmem, he⟩ := hentry (Or.inr hdefaults)
      obtain ⟨-, rfl⟩ := (entrypoint?_eq_some_iff h).mp he
      exact ⟨List.ne_nil_of_mem hmem, Or.inr ⟨file, _, hmem, hne⟩⟩

theorem isSome_dynamic?_iff (h : g.Reads p) :
    (g.dynamic? s t).isSome ↔ p.Dynamic (p.AllowsFrom "setcurrent") s t := by
  rw [dynamic?, Policy.Dynamic, Policy.Allows, Policy.AllowsFrom, ← getD_ne_nil_iff h.dyntransition (s, t),
    ← getD_ne_nil_iff h.setcurrent s]
  by_cases hd : g.dyntransition.getD (s, t) [] = [] <;> by_cases hc : g.setcurrent.getD s [] = [] <;>
    simp [hd, hc]

/-- A way that is complete lists rules for each of its parts. -/
theorem populated_of_standard? {x : StandardTransition} (h : g.standard? s t = some x) :
    x.transition ≠ [] ∧ ∃ file, file ∈ x.entrypoints := by
  obtain ⟨⟨htransition, hentries, -⟩, rfl⟩ := g.standard?_eq_some_iff.mp h
  obtain ⟨⟨file, e⟩, hmem⟩ := List.exists_mem_of_ne_nil _ hentries
  have hfile := (getElem?_ofList_eq_some_iff (g.nodup_entries s t)).mpr hmem
  refine ⟨htransition, file, ?_⟩
  rw [Std.ExtTreeMap.mem_iff_isSome_getElem?, hfile]
  rfl

theorem dynamic?_eq_some_iff (g : Grants) {x : DynamicTransition} :
    g.dynamic? s t = some x ↔
      (g.dyntransition.getD (s, t) [] ≠ [] ∧ g.setcurrent.getD s [] ≠ []) ∧
        ⟨g.dyntransition.getD (s, t) [], g.setcurrent.getD s []⟩ = x := by
  rw [dynamic?, Option.ite_none_right_eq_some, Option.some.injEq]
  simp only [Bool.and_eq_true, Bool.not_eq_true', List.isEmpty_eq_false_iff]

theorem populated_of_dynamic? {x : DynamicTransition} (h : g.dynamic? s t = some x) :
    x.dyntransition ≠ [] ∧ x.setcurrent ≠ [] := by
  obtain ⟨hways, rfl⟩ := g.dynamic?_eq_some_iff.mp h
  exact hways

theorem edge?_eq_some_iff (g : Grants) {e : TransitionEdge} :
    g.edge? s t = some e ↔
      ((g.standard? s t).isSome ∨ (g.dynamic? s t).isSome) ∧ ⟨g.standard? s t, g.dynamic? s t⟩ = e := by
  rw [edge?]
  cases g.standard? s t <;> cases g.dynamic? s t <;> simp

theorem mem_candidates (g : Grants) :
    (s, t) ∈ g.candidates ↔ ((s, t) ∈ g.transition ∨ (s, t) ∈ g.dyntransition) ∧ s ≠ t := by
  rw [candidates, List.mem_filter, List.mem_append, Std.ExtTreeMap.mem_keys, Std.ExtTreeMap.mem_keys,
    decide_eq_true_iff]

theorem mem_candidates_of_edge? (h : g.Reads p) (hne : s ≠ t) {e : TransitionEdge}
    (he : g.edge? s t = some e) : (s, t) ∈ g.candidates := by
  rw [mem_candidates, h.transition.mem_iff_getD_ne_nil, h.dyntransition.mem_iff_getD_ne_nil,
    getD_ne_nil_iff h.transition (s, t), getD_ne_nil_iff h.dyntransition (s, t)]
  obtain ⟨hstandard | hdynamic, -⟩ := g.edge?_eq_some_iff.mp he
  · exact ⟨Or.inl ((isSome_standard?_iff h).mp hstandard).1, hne⟩
  · exact ⟨Or.inr ((isSome_dynamic?_iff h).mp hdynamic).1, hne⟩

end Grants

namespace TransitionGraph

theorem edge?_addPair (g : Grants) (graph : TransitionGraph) (pair : TypeId × TypeId) (s t : TypeId) :
    (addPair g graph pair).edge? s t =
      if pair = (s, t) then (g.edge? s t).or (graph.edge? s t) else graph.edge? s t := by
  obtain ⟨a, b⟩ := pair
  rw [addPair]
  by_cases hpair : (a, b) = (s, t)
  · cases hpair
    cases hedge : g.edge? s t with
    | none => simp
    | some e => simp [Digraph.edge?_putEdge]
  · have hends : ¬(a = s ∧ b = t) := by rwa [Prod.mk.injEq] at hpair
    rw [if_neg hpair]
    cases hedge : g.edge? a b with
    | none => simp
    | some e => simp [Digraph.edge?_putEdge, hends]

theorem edge?_foldl_addPair (g : Grants) (pairs : List (TypeId × TypeId)) (s t : TypeId) :
    (pairs.foldl (addPair g) .empty).edge? s t = if (s, t) ∈ pairs then g.edge? s t else none := by
  induction pairs using List.reverseRecOn with
  | nil => simp
  | append_singleton pairs pair ih =>
    rw [List.foldl_append, List.foldl_cons, List.foldl_nil, edge?_addPair, ih]
    by_cases hpair : pair = (s, t)
    · have hmem : (s, t) ∈ pairs ++ [pair] := by simp [hpair]
      rw [if_pos hpair, if_pos hmem]
      split <;> simp
    · have hmem : (s, t) ∈ pairs ++ [pair] ↔ (s, t) ∈ pairs := by simp [Ne.symm hpair]
      simp only [if_neg hpair, hmem]

theorem edge?_ofGrants (h : g.Reads p) (s t : TypeId) :
    (ofGrants g).edge? s t = if s ≠ t then g.edge? s t else none := by
  rw [ofGrants, edge?_foldl_addPair]
  by_cases hne : s ≠ t
  · rw [if_pos hne]
    cases hedge : g.edge? s t with
    | none => rw [ite_self]
    | some e => rw [if_pos (Grants.mem_candidates_of_edge? h hne hedge)]
  · rw [if_neg hne, if_neg fun hmem => hne (g.mem_candidates.mp hmem).2]

theorem reachable_ofGrants (g : Grants) : (ofGrants g).Reachable := by
  refine List.foldlRecOn g.candidates _ .empty ?_
  intro graph hgraph pair _
  rw [addPair]
  split
  · exact hgraph.putEdge _ _ _
  · exact (hgraph.addNode _).addNode _

theorem consistent_ofGrants (g : Grants) : (ofGrants g).Consistent :=
  (reachable_ofGrants g).consistent

theorem hasEdge_ofGrants_iff (h : g.Reads p) (s t : TypeId) :
    (ofGrants g).hasEdge s t ↔
      s ≠ t ∧ (p.Standard (p.AllowsFrom "setexec") s t ∨ p.Dynamic (p.AllowsFrom "setcurrent") s t) := by
  rw [← Grants.isSome_standard?_iff h, ← Grants.isSome_dynamic?_iff h, Digraph.hasEdge_iff, edge?_ofGrants h]
  by_cases hne : s ≠ t
  · simp only [if_pos hne, g.edge?_eq_some_iff]
    constructor
    · intro ⟨e, hways, _⟩
      exact ⟨hne, hways⟩
    · intro ⟨_, hways⟩
      exact ⟨_, hways, rfl⟩
  · simp [hne]

/-- There is an edge between two domains wherever the rules make a transition complete, with the ways that
they make complete. What a process is allowed on any target counts as allowed on itself; where the rules
allow it on nothing else, it has to be allowed on itself. -/
theorem ofPolicy_edges {name : String} {statements : List Statement}
    (built : Policy.build name statements = .ok p) :
    ∃ g, ofPolicy p = .ok g ∧
      (∀ s t, g.hasEdge s t ↔
        s ≠ t ∧ (p.Standard (p.AllowsFrom "setexec") s t ∨ p.Dynamic (p.AllowsFrom "setcurrent") s t)) ∧
      (∀ s t e, g.edge? s t = some e →
        (e.standard.isSome ↔ p.Standard (p.AllowsFrom "setexec") s t) ∧
        (e.dynamic.isSome ↔ p.Dynamic (p.AllowsFrom "setcurrent") s t) ∧
        (∀ x, e.standard = some x → x.transition ≠ [] ∧ ∃ file, file ∈ x.entrypoints) ∧
        ∀ x, e.dynamic = some x → x.dyntransition ≠ [] ∧ x.setcurrent ≠ []) ∧
      (p.OnlySelf "setexec" → p.OnlySelf "setcurrent" → ∀ s t, g.hasEdge s t ↔
        s ≠ t ∧ (p.Standard (fun s => p.Allows Grants.processClass "setexec" s s) s t ∨
          p.Dynamic (fun s => p.Allows Grants.processClass "setcurrent" s s) s t)) := by
  obtain ⟨grants, hgrants, h⟩ := Grants.exists_ofPolicy built
  refine ⟨ofGrants grants, ?_, hasEdge_ofGrants_iff h, ?_, ?_⟩
  · rw [ofPolicy, hgrants]
    rfl
  · intro s t e he
    rw [edge?_ofGrants h, Option.ite_none_right_eq_some] at he
    obtain ⟨-, rfl⟩ := grants.edge?_eq_some_iff.mp he.2
    exact ⟨Grants.isSome_standard?_iff h, Grants.isSome_dynamic?_iff h,
      fun _ => Grants.populated_of_standard?, fun _ => Grants.populated_of_dynamic?⟩
  · intro hsetexec hsetcurrent s t
    rw [hasEdge_ofGrants_iff h, funext fun s => propext (hsetexec.allowsFrom_iff s),
      funext fun s => propext (hsetcurrent.allowsFrom_iff s)]

def misaimedStatements : List Statement := [
  .type "a_t" ∅,
  .type "b_t" ∅,
  .type "exec_t" ∅,
  .objectClass "process" none (.ofList ["setexec", "transition"]),
  .objectClass "file" none (.ofList ["entrypoint", "execute"]),
  .rule (.access ⟨.allow, "a_t", "b_t", "process", .ofList ["setexec", "transition"], none⟩),
  .rule (.access ⟨.allow, "a_t", "exec_t", "file", .ofList ["execute"], none⟩),
  .rule (.access ⟨.allow, "b_t", "exec_t", "file", .ofList ["entrypoint"], none⟩)]

/-- A domain may choose the next domain of another, but not its own. -/
def misaimed : Policy :=
  match Policy.build "misaimed" misaimedStatements with
  | .ok p => p
  | .error _ => (Draft.ofStatements "misaimed" []).start

theorem build_misaimed : Policy.build "misaimed" misaimedStatements = .ok misaimed := by rfl

def aimedStatements : List Statement := [
  .type "a_t" ∅,
  .type "b_t" ∅,
  .type "exec_t" ∅,
  .objectClass "process" none (.ofList ["setexec", "transition"]),
  .objectClass "file" none (.ofList ["entrypoint", "execute"]),
  .rule (.access ⟨.allow, "a_t", "b_t", "process", .ofList ["transition"], none⟩),
  .rule (.access ⟨.allow, "a_t", "self", "process", .ofList ["setexec"], none⟩),
  .rule (.access ⟨.allow, "a_t", "exec_t", "file", .ofList ["execute"], none⟩),
  .rule (.access ⟨.allow, "b_t", "exec_t", "file", .ofList ["entrypoint"], none⟩)]

/-- A domain may choose its own next domain. -/
def aimed : Policy :=
  match Policy.build "aimed" aimedStatements with
  | .ok p => p
  | .error _ => (Draft.ofStatements "aimed" []).start

theorem build_aimed : Policy.build "aimed" aimedStatements = .ok aimed := by rfl

theorem exists_ofPolicy_edges_misaimed :
    (Policy.build "misaimed" misaimedStatements = .ok misaimed ∧
      ∃ g, ofPolicy misaimed = .ok g ∧ g.hasEdge 0 1 ∧
        misaimed.Standard (misaimed.AllowsFrom "setexec") 0 1) ∧
      Policy.build "aimed" aimedStatements = .ok aimed ∧
      aimed.OnlySelf "setexec" ∧ aimed.OnlySelf "setcurrent" ∧
      ∃ g, ofPolicy aimed = .ok g ∧ g.hasEdge 0 1 ∧
        aimed.Standard (fun s => aimed.Allows Grants.processClass "setexec" s s) 0 1 := by
  refine ⟨?_, ?_⟩
  · obtain ⟨g, hg, hexact, -⟩ := ofPolicy_edges build_misaimed
    have hedge : g.hasEdge 0 1 := by
      cases hg
      decide
    refine ⟨build_misaimed, g, hg, hedge, ?_⟩
    obtain ⟨-, hstandard | ⟨hallows, -⟩⟩ := (hexact 0 1).mp hedge
    · exact hstandard
    · exact absurd hallows (by decide)
  · obtain ⟨g, hg, -, -, hself⟩ := ofPolicy_edges build_aimed
    have hsetexec : aimed.OnlySelf "setexec" := by decide
    have hsetcurrent : aimed.OnlySelf "setcurrent" := by decide
    have hedge : g.hasEdge 0 1 := by
      cases hg
      decide
    refine ⟨build_aimed, hsetexec, hsetcurrent, g, hg, hedge, ?_⟩
    obtain ⟨-, hstandard | ⟨hallows, -⟩⟩ := (hself hsetexec hsetcurrent 0 1).mp hedge
    · exact hstandard
    · exact absurd hallows (by decide)

/-- The edge is there although the domain may not choose its own next domain, nor has a default. -/
theorem not_ofPolicy_edges_misaimed :
    ∃ g, ofPolicy misaimed = .ok g ∧ ¬ (g.hasEdge 0 1 ↔ 0 ≠ 1 ∧
      (misaimed.Standard (fun s => misaimed.Allows Grants.processClass "setexec" s s) 0 1 ∨
        misaimed.Dynamic (fun s => misaimed.Allows Grants.processClass "setcurrent" s s) 0 1)) := by
  obtain ⟨g, hg⟩ : ∃ g, ofPolicy misaimed = .ok g := ⟨_, rfl⟩
  refine ⟨g, hg, fun hexact => ?_⟩
  have hedge : g.hasEdge 0 1 := by
    cases hg
    decide
  obtain ⟨-, ⟨-, file, -, -, hchooses | ⟨rule, hrule, -⟩⟩ | ⟨hallows, -⟩⟩ := hexact.mp hedge
  · exact absurd hchooses (by decide)
  · cases hrule
  · exact absurd hallows (by decide)

end TransitionGraph

end PolicyAnalysis
