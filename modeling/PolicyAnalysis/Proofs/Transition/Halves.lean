import PolicyAnalysis.Proofs.Keyed
import PolicyAnalysis.Proofs.Transition.Filter
import PolicyAnalysis.Transition.Gathering

/-!
# The halves of a transition edge

Gathering the rules of an edge step by step and throwing away what a way that is not complete has left gives
the same as working out either way at once. So each half of an edge that stays has all its lists or none, and
a filter that looks at two of them keeps what it should.
-/

namespace PolicyAnalysis

variable {p : Policy} {g : Grants} {f : TransitionFilter} {s t : TypeId}

namespace Grants

theorem getElem?_addFile (g : Grants) (s t : TypeId) {table : Std.ExtTreeMap TypeId Entrypoint} {file : TypeId}
    (hnew : table[file]? = none) (k : TypeId) :
    (g.addFile s t table file)[k]? = if file = k then g.entrypoint? s t file else table[k]? := by
  rw [addFile, entrypoint?, ← defaultsTo]
  by_cases hdecided : g.setexec.contains s || !(g.typeTransition.getD (s, file) []).isEmpty
  · by_cases hleading : (g.defaultsTo s file t).isEmpty
    · rw [if_pos hdecided, if_pos hdecided, if_pos hleading, Std.ExtTreeMap.getElem?_alter]
      by_cases hk : file = k
      · subst hk
        simp [hnew, List.isEmpty_iff.mp hleading]
      · simp [hk]
    · rw [if_pos hdecided, if_pos hdecided, if_neg hleading, Std.ExtTreeMap.getElem?_alter]
      by_cases hk : file = k
      · subst hk
        simp [hnew]
      · simp [hk, Std.ExtTreeMap.getElem?_alter]
  · have hleading : (g.defaultsTo s file t).isEmpty := by
      simp only [Bool.or_eq_true, not_or, Bool.not_eq_true', List.isEmpty_eq_false_iff, not_not] at hdecided
      rw [defaultsTo, hdecided.2]
      rfl
    rw [if_neg hdecided, if_neg hdecided, if_pos hleading]
    by_cases hk : file = k
    · rw [if_pos hk, ← hk, hnew]
    · rw [if_neg hk]

theorem getElem?_foldl_addFile (g : Grants) (s t : TypeId) {files : List TypeId} (nodup : files.Nodup)
    (k : TypeId) :
    (files.foldl (g.addFile s t) ∅)[k]? = if k ∈ files then g.entrypoint? s t k else none := by
  induction files using List.reverseRecOn generalizing k with
  | nil => simp
  | append_singleton files file ih =>
    have ih := ih (List.nodup_append.mp nodup).1
    have hnew : file ∉ files := by
      have := List.nodup_append.mp nodup
      grind
    rw [List.foldl_append, List.foldl_cons, List.foldl_nil, g.getElem?_addFile s t (by rw [ih, if_neg hnew]), ih]
    by_cases hk : file = k
    · simp [hk]
    · simp [hk, Ne.symm hk]

theorem foldl_addFile (g : Grants) (s t : TypeId) :
    (g.sharedFiles s t).foldl (g.addFile s t) ∅ = .ofList (g.entries s t) := by
  refine Std.ExtTreeMap.ext_getElem? fun {file} => Option.ext fun e => ?_
  rw [getElem?_ofList_eq_some_iff (g.nodup_entries s t), mem_entries,
    g.getElem?_foldl_addFile s t (g.nodup_sharedFiles s t), Option.ite_none_right_eq_some]

theorem hasTypeTransition_iff {e : EdgeRules} (he : e.entrypoints = .ofList (g.entries s t)) :
    e.hasTypeTransition ↔ ∃ file r, (file, r) ∈ g.entries s t ∧ r.typeTransition ≠ [] := by
  simp only [EdgeRules.hasTypeTransition, he, List.any_eq_true, mem_values, Bool.not_eq_true',
    List.isEmpty_eq_false_iff, getElem?_ofList_eq_some_iff (g.nodup_entries s t)]
  constructor
  · rintro ⟨r, ⟨file, hmem⟩, hne⟩
    exact ⟨file, r, hmem, hne⟩
  · rintro ⟨file, r, hmem, hne⟩
    exact ⟨r, ⟨file, hmem⟩, hne⟩

/-- What is gathered if there are files that might be entered through. -/
def standardRules (g : Grants) (s t : TypeId) : EdgeRules :=
  { g.allowed (s, t) with setexec := g.setexec.getD s [], entrypoints := .ofList (g.entries s t) }

theorem gatherStandard_allowed (g : Grants) (s t : TypeId) :
    g.gatherStandard s t (g.allowed (s, t)) =
      if g.transition.getD (s, t) [] = [] ∨ g.sharedFiles s t = [] then (g.allowed (s, t), false)
      else (g.standardRules s t,
        !(g.setexec.getD s []).isEmpty || (g.standardRules s t).hasTypeTransition) := by
  have hfiles : (g.sharedFiles s t).foldl (g.addFile s t) (g.allowed (s, t)).entrypoints =
      .ofList (g.entries s t) := g.foldl_addFile s t
  unfold gatherStandard
  by_cases htransition : g.transition.getD (s, t) [] = []
  · simp [allowed, htransition]
  · by_cases hshared : g.sharedFiles s t = []
    · simp [hshared]
    · simp only [hfiles]
      simp [allowed, htransition, hshared, standardRules]

theorem gatherStandard_snd (h : g.Reads p) (s t : TypeId) :
    (g.gatherStandard s t (g.allowed (s, t))).2 = (g.standard? s t).isSome := by
  have hshared (hentries : g.entries s t ≠ []) : g.sharedFiles s t ≠ [] := by
    obtain ⟨⟨file, r⟩, hmem⟩ := List.exists_mem_of_ne_nil _ hentries
    exact List.ne_nil_of_mem (mem_entries.mp hmem).1
  -- A process that may choose its domain may do so with any type of file.
  have hentries (hsetexec : g.setexec.getD s [] ≠ []) (hshared : g.sharedFiles s t ≠ []) :
      g.entries s t ≠ [] := by
    obtain ⟨file, hfile⟩ := List.exists_mem_of_ne_nil _ hshared
    exact List.ne_nil_of_mem (mem_entries.mpr ⟨hfile, (entrypoint?_eq_some_iff h).mpr ⟨Or.inl hsetexec, rfl⟩⟩)
  have htype : (g.standardRules s t).hasTypeTransition ↔
      ∃ file r, (file, r) ∈ g.entries s t ∧ r.typeTransition ≠ [] := hasTypeTransition_iff rfl
  rw [Bool.eq_iff_iff, gatherStandard_allowed, Option.isSome_iff_exists]
  simp only [standard?_eq_some_iff, exists_eq_right']
  split
  next hnil =>
    simp only [Bool.false_eq_true, false_iff]
    intro ⟨htransition, hne, _⟩
    exact hnil.elim htransition (hshared hne)
  next hne =>
    rw [not_or] at hne
    rw [Bool.or_eq_true, Bool.not_eq_true', List.isEmpty_eq_false_iff, htype]
    constructor
    · rintro (hsetexec | ⟨file, r, hmem, hr⟩)
      · exact ⟨hne.1, hentries hsetexec hne.2, Or.inl hsetexec⟩
      · exact ⟨hne.1, List.ne_nil_of_mem hmem, Or.inr ⟨file, r, hmem, hr⟩⟩
    · exact fun hcomplete => hcomplete.2.2

theorem gatherStandard_fst_of_some {x : StandardTransition} (hx : g.standard? s t = some x) :
    (g.gatherStandard s t (g.allowed (s, t))).1 =
      { g.allowed (s, t) with setexec := x.setexec, entrypoints := x.entrypoints } := by
  obtain ⟨⟨htransition, hentries, -⟩, rfl⟩ := g.standard?_eq_some_iff.mp hx
  obtain ⟨⟨file, r⟩, hmem⟩ := List.exists_mem_of_ne_nil _ hentries
  have hshared : g.sharedFiles s t ≠ [] := List.ne_nil_of_mem (mem_entries.mp hmem).1
  rw [gatherStandard_allowed, if_neg (not_or.mpr ⟨htransition, hshared⟩)]
  rfl

theorem gatherDynamic_eq (h : g.Reads p) {e : EdgeRules}
    (hallowed : e.dyntransition = g.dyntransition.getD (s, t) []) (hnone : e.setcurrent = []) :
    g.gatherDynamic s e =
      ({ e with setcurrent := (g.dynamic? s t).elim [] (·.setcurrent) }, (g.dynamic? s t).isSome) := by
  obtain ⟨transition, setexec, dyntransition, setcurrent, entrypoints⟩ := e
  simp only at hallowed hnone
  have hlisted := h.setcurrent.mem_iff_getD_ne_nil s
  rw [Std.ExtTreeMap.mem_iff_isSome_getElem?, Std.ExtTreeMap.getD_eq_getD_getElem?] at hlisted
  rw [gatherDynamic, dynamic?, ← hallowed, hnone, Std.ExtTreeMap.getD_eq_getD_getElem?]
  by_cases hdyn : dyntransition = []
  · simp [hdyn]
  · cases hrules : g.setcurrent[s]? with
    | none => simp [hdyn]
    | some rules =>
      have hne : rules ≠ [] := by simpa [hrules] using hlisted
      simp [hdyn, hne]

theorem gather_allowed (h : g.Reads p) (s t : TypeId) :
    g.gather s t (g.allowed (s, t)) = (g.edge? s t).map TransitionEdge.rules := by
  have hdyntransition : (g.gatherStandard s t (g.allowed (s, t))).1.dyntransition =
      g.dyntransition.getD (s, t) [] := by
    rw [gatherStandard_allowed]
    split <;> rfl
  have hsetcurrent : (g.gatherStandard s t (g.allowed (s, t))).1.setcurrent = [] := by
    rw [gatherStandard_allowed]
    split <;> rfl
  have hdynamic {y : DynamicTransition} (hy : g.dynamic? s t = some y) :
      g.dyntransition.getD (s, t) [] = y.dyntransition :=
    congrArg DynamicTransition.dyntransition (g.dynamic?_eq_some_iff.mp hy).2
  simp only [gather, gatherDynamic_eq h hdyntransition hsetcurrent, gatherStandard_snd h, edge?]
  cases hs : g.standard? s t with
  | none =>
    cases hd : g.dynamic? s t with
    | none => rfl
    | some y =>
      simp [EdgeRules.clearStandard, TransitionEdge.rules, hdyntransition, hdynamic hd]
  | some x =>
    obtain ⟨-, rfl⟩ := g.standard?_eq_some_iff.mp hs
    rw [gatherStandard_fst_of_some hs]
    cases hd : g.dynamic? s t with
    | none => rfl
    | some y => simp [TransitionEdge.rules, allowed, hdynamic hd]

theorem edge?_scanned (g : Grants) (s t : TypeId) :
    g.scanned.edge? s t = if (s, t) ∈ g.candidates then some (g.allowed (s, t)) else none := by
  rw [scanned]
  induction g.candidates using List.reverseRecOn with
  | nil => simp
  | append_singleton pairs pair ih =>
    obtain ⟨a, b⟩ := pair
    rw [List.foldl_append, List.foldl_cons, List.foldl_nil, Digraph.edge?_putEdge, ih]
    by_cases hpair : a = s ∧ b = t
    · obtain ⟨rfl, rfl⟩ := hpair
      simp
    · have hmem : (s, t) ∈ pairs ++ [(a, b)] ↔ (s, t) ∈ pairs := by
        simp [eq_comm (a := s), eq_comm (a := t), hpair]
      simp only [if_neg hpair, hmem]

theorem consistent_gathered (g : Grants) : g.gathered.Consistent := by
  refine Digraph.Consistent.filterEdges ?_ _
  exact List.foldlRecOn g.candidates _ .empty fun graph h pair _ => h.putEdge _ _ _

/-- What is gathered are the rules of the ways that are worked out at once. -/
theorem edge?_gathered (h : g.Reads p) (s t : TypeId) :
    g.gathered.edge? s t = ((TransitionGraph.ofGrants g).edge? s t).map TransitionEdge.rules := by
  rw [gathered, Digraph.edge?_filterEdges, edge?_scanned, TransitionGraph.ofGrants,
    TransitionGraph.edge?_foldl_addPair]
  split
  · exact gather_allowed h s t
  · rfl

end Grants

/-- An edge has a way, and every way that it has is complete. -/
structure TransitionEdge.Complete (e : TransitionEdge) : Prop where
  standard : ∀ x, e.standard = some x → x.transition ≠ [] ∧ ∃ file, file ∈ x.entrypoints
  dynamic : ∀ y, e.dynamic = some y → y.dyntransition ≠ [] ∧ y.setcurrent ≠ []
  either : e.standard.isSome ∨ e.dynamic.isSome

/-- Each half of an edge has all its lists or none, and one half has them. -/
structure EdgeRules.Whole (e : EdgeRules) : Prop where
  transition_iff : e.transition = [] ↔ e.entrypoints = ∅
  setexec : e.transition = [] → e.setexec = []
  dyntransition_iff : e.dyntransition = [] ↔ e.setcurrent = []
  either : e.isStandard ∨ e.isDynamic

theorem Grants.complete_of_edge? {e : TransitionEdge} (he : g.edge? s t = some e) : e.Complete := by
  obtain ⟨heither, rfl⟩ := g.edge?_eq_some_iff.mp he
  exact ⟨fun _ => populated_of_standard?, fun _ => populated_of_dynamic?, heither⟩

namespace TransitionEdge.Complete

variable {e : TransitionEdge}

theorem entrypoints_ne_empty (h : e.Complete) {x : StandardTransition} (hx : e.standard = some x) :
    x.entrypoints ≠ ∅ := by
  intro hempty
  obtain ⟨-, file, hfile⟩ := h.standard x hx
  rw [hempty] at hfile
  exact Std.ExtTreeMap.not_mem_empty hfile

theorem whole (h : e.Complete) : e.rules.Whole where
  transition_iff := by
    cases hs : e.standard with
    | none => simp [rules, hs]
    | some x => simp [rules, hs, h.standard x hs, h.entrypoints_ne_empty hs]
  setexec hnil := by
    cases hs : e.standard with
    | none => simp [rules, hs]
    | some x => exact absurd (by simpa [rules, hs] using hnil) (h.standard x hs).1
  dyntransition_iff := by
    cases hd : e.dynamic with
    | none => simp [rules, hd]
    | some y => simp [rules, hd, h.dynamic y hd]
  either := by
    refine h.either.imp ?_ ?_
    · intro hs
      obtain ⟨x, hx⟩ := Option.isSome_iff_exists.mp hs
      simp [EdgeRules.isStandard, rules, hx, h.standard x hx, h.entrypoints_ne_empty hx]
    · intro hd
      obtain ⟨y, hy⟩ := Option.isSome_iff_exists.mp hd
      simp [EdgeRules.isDynamic, rules, hy, h.dynamic y hy]

theorem keep (h : e.Complete) {e' : TransitionEdge} (hkeep : f.keep e = some e') : e'.Complete := by
  obtain ⟨heither, rfl⟩ := TransitionFilter.keep_eq_some_iff.mp hkeep
  refine ⟨?_, h.dynamic, heither⟩
  intro x' hx'
  obtain ⟨x, hx, hwithout⟩ := Option.bind_eq_some_iff.mp hx'
  obtain ⟨⟨file, hfile, hleft⟩, rfl⟩ := StandardTransition.without?_eq_some_iff.mp hwithout
  refine ⟨(h.standard x hx).1, file, ?_⟩
  obtain ⟨r, hr⟩ := Option.isSome_iff_exists.mp (Std.ExtTreeMap.mem_iff_isSome_getElem?.mp hfile)
  rw [Std.ExtTreeMap.mem_iff_isSome_getElem?, (getElem?_filter_contains x f.exclude file r).mpr ⟨hleft, hr⟩]
  rfl

/-- Looking at the types of files and at the dynamic transitions is enough, since neither half is without them. -/
theorem prune_rules (h : e.Complete) (f : TransitionFilter) :
    e.rules.prune f.exclude = (f.keep e).map TransitionEdge.rules := by
  have hempty : (∅ : Std.ExtTreeMap TypeId Entrypoint).filter (fun file _ => !f.exclude.contains file) = ∅ := by
    refine Std.ExtTreeMap.ext_getElem? fun {file} => ?_
    simp [Std.ExtTreeMap.getElem?_filter]
  obtain ⟨standard, dynamic⟩ := e
  cases standard with
  | none =>
    cases dynamic with
    | none => simpa using h.either
    | some y =>
      have hdyn := (h.dynamic y rfl).1
      simp [EdgeRules.prune, rules, TransitionFilter.keep, hdyn, hempty]
  | some x =>
    by_cases hleft : x.entrypoints.filter (fun file _ => !f.exclude.contains file) = ∅
    · have hlost : 0 ≠ x.entrypoints.size := by
        rw [ne_comm, ne_eq, ← Std.ExtTreeMap.eq_empty_iff_size_eq_zero]
        exact h.entrypoints_ne_empty rfl
      cases dynamic with
      | none =>
        simp [EdgeRules.prune, rules, TransitionFilter.keep, StandardTransition.without?, hleft, hlost,
          EdgeRules.clearStandard]
      | some y =>
        have hdyn := (h.dynamic y rfl).1
        simp [EdgeRules.prune, rules, TransitionFilter.keep, StandardTransition.without?, hleft, hlost,
          EdgeRules.clearStandard, hdyn]
    · simp [EdgeRules.prune, rules, TransitionFilter.keep, StandardTransition.without?, hleft]

end TransitionEdge.Complete

theorem EdgeRules.Whole.prune_of_isEmpty {e : EdgeRules} (h : e.Whole) {files : Std.ExtTreeSet TypeId}
    (hfiles : files.isEmpty) : e.prune files = some e := by
  have hsame : e.entrypoints.filter (fun file _ => !files.contains file) = e.entrypoints := by
    refine Std.ExtTreeMap.ext_getElem? fun {file} => ?_
    rw [Std.ExtTreeSet.isEmpty_iff.mp hfiles, Std.ExtTreeMap.getElem?_filter']
    cases e.entrypoints[file]? <;> simp
  have hkept : e.entrypoints = ∅ → ¬ e.dyntransition = [] := by
    intro hnone
    rcases h.either with hstandard | hdynamic
    · simp [isStandard, hnone] at hstandard
    · simp only [isDynamic, Bool.and_eq_true, Bool.not_eq_true', List.isEmpty_eq_false_iff] at hdynamic
      exact hdynamic.1
  simpa [prune, hsame] using hkept

namespace TransitionFilter

theorem complete_of_ofGrants (h : g.Reads p) {e : TransitionEdge}
    (he : (TransitionGraph.ofGrants g).edge? s t = some e) : s ≠ t ∧ e.Complete := by
  rw [TransitionGraph.edge?_ofGrants h, Option.ite_none_right_eq_some] at he
  exact ⟨he.1, Grants.complete_of_edge? he.2⟩

theorem edge?_prune (h : g.Reads p) (f : TransitionFilter) (s t : TypeId) :
    (f.prune g.gathered).edge? s t =
      if s ∈ f.exclude ∨ t ∈ f.exclude then none
      else (g.gathered.edge? (f.ends s t).1 (f.ends s t).2).bind (·.prune f.exclude) := by
  have hwhole {e : EdgeRules} {a b : TypeId} (he : g.gathered.edge? a b = some e) : e.Whole := by
    rw [Grants.edge?_gathered h] at he
    obtain ⟨x, hx, rfl⟩ := Option.map_eq_some_iff.mp he
    exact (complete_of_ofGrants h hx).2.whole
  rw [prune]
  split
  next hnone =>
    rw [edge?_foldl_exclude g.consistent_gathered]
    split
    · rfl
    · cases he : g.gathered.edge? (f.ends s t).1 (f.ends s t).2 with
      | none => rfl
      | some e => exact ((hwhole he).prune_of_isEmpty hnone).symm
  next =>
    rw [Digraph.edge?_filterEdges, edge?_foldl_exclude g.consistent_gathered]
    split
    · rfl
    · rfl

/-- Filtering the rules of the edges and filtering their ways is the same. -/
theorem edge?_prune_eq (h : g.Reads p) (f : TransitionFilter) (s t : TypeId) :
    (f.prune g.gathered).edge? s t =
      ((f.apply (TransitionGraph.ofGrants g)).edge? s t).map TransitionEdge.rules := by
  rw [edge?_prune h, edge?_apply (TransitionGraph.consistent_ofGrants g), Grants.edge?_gathered h]
  split
  · rfl
  · cases he : (TransitionGraph.ofGrants g).edge? (f.ends s t).1 (f.ends s t).2 with
    | none => rfl
    | some e => exact (complete_of_ofGrants h he).2.prune_rules f

theorem complete_of_apply (h : g.Reads p) {e : TransitionEdge}
    (he : (f.apply (TransitionGraph.ofGrants g)).edge? s t = some e) :
    s ≠ t ∧ e.Complete ∧ s ∉ f.exclude ∧ t ∉ f.exclude ∧ ∀ file ∈ e.rules.entrypoints, file ∉ f.exclude := by
  have hends : (f.ends s t).1 ≠ (f.ends s t).2 → s ≠ t := by
    unfold ends
    split
    · exact Ne.symm
    · exact id
  rw [edge?_apply (TransitionGraph.consistent_ofGrants g), Option.ite_none_left_eq_some] at he
  obtain ⟨hexcluded, he⟩ := he
  rw [not_or] at hexcluded
  obtain ⟨whole, hwhole, hkeep⟩ := Option.bind_eq_some_iff.mp he
  obtain ⟨hne, complete⟩ := complete_of_ofGrants h hwhole
  refine ⟨hends hne, complete.keep hkeep, hexcluded.1, hexcluded.2, ?_⟩
  intro file hfile
  obtain ⟨-, rfl⟩ := keep_eq_some_iff.mp hkeep
  cases hx : whole.standard.bind (·.without? f.exclude) with
  | none => simp [TransitionEdge.rules, hx] at hfile
  | some y =>
    obtain ⟨x, -, hwithout⟩ := Option.bind_eq_some_iff.mp hx
    obtain ⟨-, rfl⟩ := StandardTransition.without?_eq_some_iff.mp hwithout
    simp only [TransitionEdge.rules, hx, Option.elim_some] at hfile
    obtain ⟨r, hr⟩ := Option.isSome_iff_exists.mp (Std.ExtTreeMap.mem_iff_isSome_getElem?.mp hfile)
    exact ((getElem?_filter_contains x f.exclude file r).mp hr).1

def dynamicRules (e : Option EdgeRules) : List RuleId × List RuleId :=
  e.elim ([], []) fun e => (e.dyntransition, e.setcurrent)

/-- An edge that goes for want of files has no dynamic half. -/
theorem dynamicRules_edge?_prune (h : g.Reads p) (f : TransitionFilter) (hs : s ∉ f.exclude) (ht : t ∉ f.exclude) :
    dynamicRules ((f.prune g.gathered).edge? s t) =
      dynamicRules (g.gathered.edge? (f.ends s t).1 (f.ends s t).2) := by
  rw [edge?_prune_eq h, edge?_apply (TransitionGraph.consistent_ofGrants g), Grants.edge?_gathered h,
    if_neg (not_or.mpr ⟨hs, ht⟩)]
  cases (TransitionGraph.ofGrants g).edge? (f.ends s t).1 (f.ends s t).2 with
  | none => rfl
  | some e =>
    have hkeep : dynamicRules ((f.keep e).map TransitionEdge.rules) = dynamicRules (some e.rules) := by
      rw [keep]
      split
      next hstandard hdynamic => simp [dynamicRules, TransitionEdge.rules, hdynamic]
      next => rfl
    exact hkeep

/-- The rules that are gathered for the edges of a policy's graph, and those that a filter leaves of them, are
the rules of their ways. Either half of each of these edges has all its lists or none, and one half has
them. No edge goes from a domain to itself. A filter leaves neither an excluded domain nor an excluded type of
files, and takes nothing from the dynamic half of an edge between other domains. -/
theorem gathered_halves {name : String} {statements : List Statement}
    (built : Policy.build name statements = .ok p) (f : TransitionFilter) :
    ∃ graph rules, TransitionGraph.ofPolicy p = .ok graph ∧ EdgeRules.ofPolicy p = .ok rules ∧
      (∀ s t, rules.edge? s t = (graph.edge? s t).map TransitionEdge.rules) ∧
      (∀ s t, (f.prune rules).edge? s t = ((f.apply graph).edge? s t).map TransitionEdge.rules) ∧
      (∀ s t e, rules.edge? s t = some e → s ≠ t ∧ e.Whole) ∧
      (∀ s t e, (f.prune rules).edge? s t = some e →
        s ≠ t ∧ e.Whole ∧ s ∉ f.exclude ∧ t ∉ f.exclude ∧ ∀ file ∈ e.entrypoints, file ∉ f.exclude) ∧
      ∀ s t, s ∉ f.exclude → t ∉ f.exclude →
        dynamicRules ((f.prune rules).edge? s t) = dynamicRules (rules.edge? (f.ends s t).1 (f.ends s t).2) := by
  obtain ⟨g, hgrants, h⟩ := Grants.exists_ofPolicy built
  refine ⟨.ofGrants g, g.gathered, ?_, ?_, Grants.edge?_gathered h, edge?_prune_eq h f, ?_, ?_, ?_⟩
  · rw [TransitionGraph.ofPolicy, hgrants]
    rfl
  · rw [EdgeRules.ofPolicy, hgrants]
    rfl
  · intro s t e he
    rw [Grants.edge?_gathered h] at he
    obtain ⟨x, hx, rfl⟩ := Option.map_eq_some_iff.mp he
    obtain ⟨hne, complete⟩ := complete_of_ofGrants h hx
    exact ⟨hne, complete.whole⟩
  · intro s t e he
    rw [edge?_prune_eq h] at he
    obtain ⟨x, hx, rfl⟩ := Option.map_eq_some_iff.mp he
    obtain ⟨hne, complete, hs, ht, hfiles⟩ := complete_of_apply h hx
    exact ⟨hne, complete.whole, hs, ht, hfiles⟩
  · intro s t hs ht
    exact dynamicRules_edge?_prune h f hs ht

def portalStatements : List Statement := [
  .type "a_t" ∅,
  .type "b_t" ∅,
  .type "x_t" ∅,
  .type "y_t" ∅,
  .objectClass "process" none (.ofList ["dyntransition", "setcurrent", "setexec", "transition"]),
  .objectClass "file" none (.ofList ["entrypoint", "execute"]),
  .rule (.access ⟨.allow, "a_t", "b_t", "process", .ofList ["dyntransition", "transition"], none⟩),
  .rule (.access ⟨.allow, "a_t", "self", "process", .ofList ["setcurrent", "setexec"], none⟩),
  .rule (.access ⟨.allow, "a_t", "x_t", "file", .ofList ["execute"], none⟩),
  .rule (.access ⟨.allow, "a_t", "y_t", "file", .ofList ["execute"], none⟩),
  .rule (.access ⟨.allow, "b_t", "x_t", "file", .ofList ["entrypoint"], none⟩),
  .rule (.access ⟨.allow, "b_t", "y_t", "file", .ofList ["entrypoint"], none⟩)]

/-- Both ways lead from one domain to another, through files of two types. -/
def portal : Policy :=
  match Policy.build "portal" portalStatements with
  | .ok p => p
  | .error _ => (Draft.ofStatements "portal" []).start

theorem build_portal : Policy.build "portal" portalStatements = .ok portal := by rfl

/-- Followed back, without one of the types of files. -/
def backWithout : TransitionFilter where
  exclude := .ofList [3]
  reverse := true

theorem exists_gathered_halves_portal :
    Policy.build "portal" portalStatements = .ok portal ∧
      ∃ rules e, EdgeRules.ofPolicy portal = .ok rules ∧ (backWithout.prune rules).edge? 1 0 = some e ∧
        e = ⟨[0], [1], [0], [1], .ofList [(2, Entrypoint.mk [4] [2] [])]⟩ ∧ e.Whole ∧
        1 ∉ backWithout.exclude ∧ 0 ∉ backWithout.exclude ∧
        dynamicRules (some e) = dynamicRules (rules.edge? 0 1) := by
  obtain ⟨graph, rules, -, hrules, -, -, -, hfiltered, hdynamic⟩ := gathered_halves build_portal backWithout
  have hedge : (backWithout.prune rules).edge? 1 0 =
      some ⟨[0], [1], [0], [1], .ofList [(2, Entrypoint.mk [4] [2] [])]⟩ := by
    cases hrules
    decide +kernel
  obtain ⟨-, whole, hs, ht, -⟩ := hfiltered 1 0 _ hedge
  refine ⟨build_portal, rules, _, hrules, hedge, rfl, whole, hs, ht, ?_⟩
  rw [← hedge]
  exact hdynamic 1 0 hs ht

end TransitionFilter

end PolicyAnalysis
