import PolicyAnalysis.Proofs.Digraph.Mirror
import PolicyAnalysis.Proofs.Survey.Answers
import PolicyAnalysis.Proofs.Transition.Filter
import PolicyAnalysis.Transition.Analysis

/-!
# Following transitions back

An analysis that follows transitions back turns the graph of the transitions round before types are left out
of it, and then turns each step that it reports. Both come to the same: it finds what following transitions
onwards finds, read from the other end.
-/

namespace PolicyAnalysis

variable {p : Policy} {s t : TypeId}

namespace TransitionGraph

theorem exists_types_of_hasEdge {grants : Grants} (h : grants.Reads p) (edge : (ofGrants grants).hasEdge s t) :
    (∃ x, p.types[s]? = some x) ∧ ∃ y, p.types[t]? = some y := by
  obtain ⟨-, hways⟩ := (hasEdge_ofGrants_iff h s t).mp edge
  have hallows (perm : String) (hperm : p.Allows Grants.processClass perm s t) :
      (∃ x, p.types[s]? = some x) ∧ ∃ y, p.types[t]? = some y := by
    obtain ⟨rule, -, hpermits⟩ := hperm
    exact hpermits.covers.exists_types
  rcases hways with ⟨htransition, -⟩ | ⟨hdyntransition, -⟩
  · exact hallows _ htransition
  · exact hallows _ hdyntransition

end TransitionGraph

namespace TransitionFilter

theorem reachable_apply {graph : TransitionGraph} (h : graph.Reachable) (f : TransitionFilter) :
    (f.apply graph).Reachable := by
  have hturned : (if f.reverse then graph.reversed else graph).Reachable := by
    split
    · exact h.reversed
    · exact h
  apply Digraph.Reachable.filterEdges
  rw [Std.ExtTreeSet.foldl_eq_foldl_toList]
  exact List.foldlRecOn _ _ hturned fun _ hgraph n _ => hgraph.removeNode n

/-- Turning the graph round and leaving types out of it can be done in either order. -/
theorem mirrors_apply {graph : TransitionGraph} (h : graph.Consistent) (f : TransitionFilter) :
    (apply { f with reverse := false } graph).Mirrors (apply { f with reverse := true } graph) := by
  intro s t
  rw [edge?_apply h, edge?_apply h]
  exact if_congr or_comm rfl rfl

theorem hasEdge_of_hasEdge_apply {graph : TransitionGraph} (h : graph.Consistent) {f : TransitionFilter}
    (edge : (f.apply graph).hasEdge s t) : graph.hasEdge (f.ends s t).1 (f.ends s t).2 := by
  obtain ⟨e, he⟩ := (Digraph.hasEdge_iff _ s t).mp edge
  rw [edge?_apply h, Option.ite_none_left_eq_some, Option.bind_eq_some_iff] at he
  obtain ⟨-, e', he', -⟩ := he
  exact (graph.hasEdge_iff _ _).mpr ⟨e', he'⟩

end TransitionFilter

namespace TransitionAnalysis

variable {a : TransitionAnalysis}

theorem setReverse_filter (a : TransitionAnalysis) (reverse : Bool) :
    (a.setReverse reverse).filter = { a.filter with reverse } := by
  unfold setReverse
  split
  next h => rw [← h]
  next => rfl

theorem setReverse_subject (a : TransitionAnalysis) (reverse : Bool) :
    (a.setReverse reverse).subject = a.subject := by
  unfold setReverse
  split <;> rfl

theorem lookupType_setReverse (a : TransitionAnalysis) (reverse : Bool) (name : String) :
    (a.setReverse reverse).policy.lookupType name = a.subject.lookupType name :=
  congrArg (fun p => Policy.lookupType p name) (a.setReverse_subject reverse)

/-- What is left of the graph of the transitions, followed onwards and followed back. -/
structure Sides (a : TransitionAnalysis) (onward back : TransitionGraph) : Prop where
  onward_left : transitionPlan.left (a.setReverse false).subject (a.setReverse false).filter = .ok onward
  back_left : transitionPlan.left (a.setReverse true).subject (a.setReverse true).filter = .ok back
  reachable_onward : onward.Reachable
  reachable_back : back.Reachable
  mirrors : onward.Mirrors back
  exists_types : ∀ s t, onward.hasEdge s t →
    (∃ x, a.subject.types[s]? = some x) ∧ ∃ y, a.subject.types[t]? = some y

theorem exists_sides {name : String} {statements : List Statement}
    (built : Policy.build name statements = .ok a.subject) : ∃ onward back, Sides a onward back := by
  obtain ⟨grants, hgrants, hreads⟩ := Grants.exists_ofPolicy built
  have hwhole : TransitionGraph.ofPolicy a.subject = .ok (TransitionGraph.ofGrants grants) := by
    rw [TransitionGraph.ofPolicy, hgrants]
    rfl
  have hleft (reverse : Bool) :
      transitionPlan.left (a.setReverse reverse).subject (a.setReverse reverse).filter =
        .ok (TransitionFilter.apply { a.filter with reverse } (TransitionGraph.ofGrants grants)) := by
    rw [setReverse_subject, setReverse_filter]
    exact Checked.bind_eq_ok.mpr ⟨_, hwhole, rfl⟩
  have hreachable := TransitionGraph.reachable_ofGrants grants
  refine ⟨_, _, hleft false, hleft true, TransitionFilter.reachable_apply hreachable _,
    TransitionFilter.reachable_apply hreachable _, TransitionFilter.mirrors_apply hreachable.consistent _, ?_⟩
  intro s t edge
  exact TransitionGraph.exists_types_of_hasEdge hreads
    (TransitionFilter.hasEdge_of_hasEdge_apply hreachable.consistent edge)

/-- Two questions are answered by paths between two types, the second by those of the first read backwards. -/
def AnswersMirrored (s t : TypeId) (found back : LazyList (List TypeId))
    (r r' : Except Error (LazyList (List TransitionStep) × TransitionAnalysis)) : Prop :=
  ∃ paths backPaths, Survey.Yields r paths ∧ Survey.Yields r' backPaths ∧
    Digraph.Mirrored s t found.toList back.toList paths backPaths

theorem orient_onward (a : TransitionAnalysis) : transitionPlan.orient (a.setReverse false).filter = id := by
  rw [setReverse_filter]
  rfl

theorem orient_back (a : TransitionAnalysis) : transitionPlan.orient (a.setReverse true).filter = Step.turned := by
  rw [setReverse_filter]
  rfl

namespace Sides

variable {onward back : TransitionGraph} {source target : String}

theorem routes (h : Sides a onward back) (hs : a.subject.lookupType source = .ok s)
    (ht : a.subject.lookupType target = .ok t)
    {search : TransitionGraph → TypeId → TypeId → LazyList (List TypeId)}
    (nodup : ∀ g : TransitionGraph, g.Reachable → ∀ s t, (search g s t).toList.Nodup)
    (simple : ∀ nodes ∈ (search onward s t).toList, onward.SimplePath s t nodes)
    (mem_iff : ∀ nodes, nodes.reverse ∈ (search back t s).toList ↔ nodes ∈ (search onward s t).toList) :
    AnswersMirrored s t (search onward s t) (search back t s)
      ((a.setReverse false).routes source target search) ((a.setReverse true).routes target source search) := by
  rw [← lookupType_setReverse a false] at hs
  rw [← lookupType_setReverse a false] at ht
  have hpaths := Survey.yields_routes hs ht h.onward_left search
  rw [lookupType_setReverse, ← lookupType_setReverse a true] at hs ht
  have hbackPaths := Survey.yields_routes ht hs h.back_left search
  rw [orient_onward] at hpaths
  rw [orient_back] at hbackPaths
  simp only [List.map_id] at hpaths
  exact ⟨_, _, hpaths, hbackPaths, h.mirrors.mirrored (nodup onward h.reachable_onward s t)
    (nodup back h.reachable_back t s) simple mem_iff⟩

theorem simplePaths (h : Sides a onward back) (hs : a.subject.lookupType source = .ok s)
    (ht : a.subject.lookupType target = .ok t) {limit : Option Nat} (hlimit : limit ≠ some 0) :
    AnswersMirrored s t (onward.simplePaths s t limit) (back.simplePaths t s limit)
      ((a.setReverse false).simplePaths source target limit)
      ((a.setReverse true).simplePaths target source limit) := by
  rw [Survey.simplePaths_of_limit hlimit, Survey.simplePaths_of_limit hlimit]
  apply h.routes hs ht
  · intro g _ s t
    exact (g.sorted_simplePaths s t limit).imp ne_of_lt
  · intro nodes hnodes
    exact ((Digraph.mem_simplePaths h.reachable_onward s t limit nodes).mp hnodes).1
  · exact h.mirrors.mem_simplePaths_iff h.reachable_onward h.reachable_back s t limit

theorem shortestPaths (h : Sides a onward back) (hs : a.subject.lookupType source = .ok s)
    (ht : a.subject.lookupType target = .ok t) :
    AnswersMirrored s t (onward.shortestPaths s t) (back.shortestPaths t s)
      ((a.setReverse false).shortestPaths source target) ((a.setReverse true).shortestPaths target source) := by
  apply h.routes hs ht
  · intro g _ s t
    exact Digraph.nodup_shortestPaths _ s t
  · intro nodes hnodes
    exact ((Digraph.mem_shortestPaths h.reachable_onward s t nodes).mp hnodes).1
  · exact h.mirrors.mem_shortestPaths_iff h.reachable_onward h.reachable_back s t

theorem transitions_onward (h : Sides a onward back) (hs : a.subject.lookupType source = .ok s) :
    Survey.Gives ((a.setReverse false).transitions source) (onward.stepsAt s .out) := by
  rw [← lookupType_setReverse a false] at hs
  have hgives := Survey.gives_stepsAt hs h.onward_left .out
  rwa [orient_onward, List.map_id] at hgives

theorem transitions_back (h : Sides a onward back) (ht : a.subject.lookupType target = .ok t) :
    Survey.Gives ((a.setReverse true).transitions target) ((back.stepsAt t .out).map Step.turned) := by
  rw [← lookupType_setReverse a true] at ht
  have hgives := Survey.gives_stepsAt ht h.back_left .out
  rwa [orient_back] at hgives

theorem mem_transitions_back_iff (h : Sides a onward back) (distinct : a.subject.DistinctNames)
    (x : TransitionStep) :
    x ∈ (back.stepsAt t .out).map Step.turned ↔
      x.target = t ∧ ∃ source steps, Survey.Gives ((a.setReverse false).transitions source) steps ∧ x ∈ steps := by
  rw [h.mirrors.mem_map_turned_stepsAt_out]
  apply and_congr_right
  intro _
  constructor
  · intro hmem
    obtain ⟨-, hedge⟩ := Digraph.mem_stepsAt_out.mp hmem
    have hsome : onward.hasEdge x.source x.target := (onward.hasEdge_iff _ _).mpr ⟨_, hedge⟩
    obtain ⟨type, htype⟩ := (h.exists_types _ _ hsome).1
    exact ⟨type.name, _, h.transitions_onward (distinct.lookupType_name htype), hmem⟩
  · intro ⟨source, steps, hsteps, hmem⟩
    obtain ⟨n, hn⟩ := Survey.exists_lookupType_of_gives_stepsAt hsteps
    rw [lookupType_setReverse] at hn
    have hsame := hsteps.unique (h.transitions_onward hn)
    rw [hsame] at hmem
    have hsource : x.source = n := (Digraph.mem_stepsAt_out.mp hmem).1
    rw [hsource]
    exact hmem

end Sides

/-- Following transitions back finds what following them onwards finds, read from the other end: all paths
within a limit, all paths of the least length, and the transitions into a type. No path leaves out a step
between two nodes that it passes. -/
theorem reverse_mirrors {name : String} {statements : List Statement}
    (built : Policy.build name statements = .ok a.subject) {source target : String}
    (hs : a.subject.lookupType source = .ok s) (ht : a.subject.lookupType target = .ok t) :
    ∃ onward back,
      Survey.Gives (a.setReverse false).filtered onward ∧ Survey.Gives (a.setReverse true).filtered back ∧
      (a.setReverse false).simplePaths source target (some 0) =
        .error (AnalysisError.maxLengthTooSmall 0 : Error) ∧
      (a.setReverse true).simplePaths target source (some 0) =
        .error (AnalysisError.maxLengthTooSmall 0 : Error) ∧
      (∀ limit, limit ≠ some 0 →
        AnswersMirrored s t (onward.simplePaths s t limit) (back.simplePaths t s limit)
          ((a.setReverse false).simplePaths source target limit)
          ((a.setReverse true).simplePaths target source limit)) ∧
      AnswersMirrored s t (onward.shortestPaths s t) (back.shortestPaths t s)
        ((a.setReverse false).shortestPaths source target) ((a.setReverse true).shortestPaths target source) ∧
      ∃ steps, Survey.Gives ((a.setReverse true).transitions target) steps ∧ steps.Nodup ∧
        ∀ x, x ∈ steps ↔ x.target = t ∧
          ∃ source steps, Survey.Gives ((a.setReverse false).transitions source) steps ∧ x ∈ steps := by
  obtain ⟨onward, back, h⟩ := exists_sides built
  have hfiltered {reverse : Bool} {g : TransitionGraph}
      (hg : transitionPlan.left (a.setReverse reverse).subject (a.setReverse reverse).filter = .ok g) :
      Survey.Gives (a.setReverse reverse).filtered g := by
    have hanswers := (a.setReverse reverse).answers_filtered
    rw [hg] at hanswers
    exact hanswers.gives
  have hnodup : ((back.stepsAt t .out).map Step.turned).Nodup := by
    apply (back.nodup_stepsAt_out t).map
    intro x y hxy
    exact congrArg Step.turned hxy
  refine ⟨onward, back, hfiltered h.onward_left, hfiltered h.back_left, Survey.simplePaths_zero _ _ _,
    Survey.simplePaths_zero _ _ _, ?_, h.shortestPaths hs ht, _, h.transitions_back ht, hnodup, ?_⟩
  · intro limit hlimit
    exact h.simplePaths hs ht hlimit
  · exact h.mem_transitions_back_iff (Policy.distinctNames_of_build built)

def relayStatements : List Statement := [
  .type "a_t" ∅,
  .type "b_t" ∅,
  .type "c_t" ∅,
  .type "d_t" ∅,
  .objectClass "process" none (.ofList ["dyntransition", "setcurrent"]),
  .rule (.access ⟨.allow, "a_t", "self", "process", .ofList ["setcurrent"], none⟩),
  .rule (.access ⟨.allow, "b_t", "self", "process", .ofList ["setcurrent"], none⟩),
  .rule (.access ⟨.allow, "d_t", "self", "process", .ofList ["setcurrent"], none⟩),
  .rule (.access ⟨.allow, "a_t", "b_t", "process", .ofList ["dyntransition"], none⟩),
  .rule (.access ⟨.allow, "b_t", "c_t", "process", .ofList ["dyntransition"], none⟩),
  .rule (.access ⟨.allow, "a_t", "d_t", "process", .ofList ["dyntransition"], none⟩),
  .rule (.access ⟨.allow, "d_t", "c_t", "process", .ofList ["dyntransition"], none⟩)]

/-- Two ways from one domain to another. -/
def relay : Policy :=
  match Policy.build "relay" relayStatements with
  | .ok p => p
  | .error _ => (Draft.ofStatements "relay" []).start

def relayAnalysis : TransitionAnalysis :=
  .blank transitionPlan relay { exclude := .ofList [3] }

/-- The way that is left is found from either end. -/
theorem reverse_mirrors_relay :
    Policy.build "relay" relayStatements = .ok relayAnalysis.subject ∧
      relayAnalysis.subject.lookupType "a_t" = .ok 0 ∧ relayAnalysis.subject.lookupType "c_t" = .ok 2 ∧
      ∃ path paths back,
        Survey.Yields ((relayAnalysis.setReverse false).simplePaths "a_t" "c_t" none) paths ∧
        Survey.Yields ((relayAnalysis.setReverse true).simplePaths "c_t" "a_t" none) back ∧
        path.map Step.ends = [(0, 1), (1, 2)] ∧ path ∈ paths ∧ path.reverse ∈ back := by
  have built : Policy.build "relay" relayStatements = .ok relayAnalysis.subject := by rfl
  have hs : relayAnalysis.subject.lookupType "a_t" = .ok 0 := by rfl
  have ht : relayAnalysis.subject.lookupType "c_t" = .ok 2 := by rfl
  obtain ⟨onward, back, honward, -, -, -, hsimple, -⟩ := reverse_mirrors built hs ht
  obtain ⟨paths, backPaths, hpaths, hback, hmirrored⟩ := hsimple none nofun
  have hfound : (onward.simplePaths 0 2 none).toList = [[0, 1, 2]] := by
    have hcomputed : (relayAnalysis.setReverse false).filtered.toOption.map
        (fun x => (x.1.simplePaths 0 2 none).toList) = some [[0, 1, 2]] := by decide +kernel
    obtain ⟨e, he⟩ := honward
    rw [he] at hcomputed
    exact Option.some.inj hcomputed
  have hfollows := hmirrored.follows
  rw [hfound, List.forall₂_cons_left_iff] at hfollows
  obtain ⟨path, rest, hpath, -, rfl⟩ := hfollows
  have hmem : path ∈ path :: rest := List.mem_cons_self
  exact ⟨built, hs, ht, path, _, backPaths, hpaths, hback, hpath, hmem, (hmirrored.reverse_mem_iff path).mpr hmem⟩

end TransitionAnalysis

end PolicyAnalysis
