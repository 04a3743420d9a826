import PolicyAnalysis.Digraph.SimplePaths
import PolicyAnalysis.Proofs.Digraph.Walk
import PolicyAnalysis.Proofs.Enumeration

/-!
# The search for simple paths is exact

In a reachable graph the search yields the simple paths within its limit, each once, in the lexicographic
order of their nodes. What a suspended search has still to yield are the ways on over the successors that are
pending for the nodes of its trail. A step keeps the trail and the set of its nodes together and takes from what is
left just what it yields, so draining the search gives all that was left at its start. The ways on from the end of a
trail are then described relative to that trail, by induction on the number of edges that are still allowed.
-/

namespace PolicyAnalysis

namespace SimpleSearch

variable {s : SimpleSearch} {node : Nat} {children : List Nat} {earlier : List (List Nat)}

/-- The trail of a search meets no node twice, and each of its nodes has its successors pending. -/
structure Tidy (s : SimpleSearch) : Prop where
  nodup : s.trail.Nodup
  mem_onTrail : ∀ n, n ∈ s.onTrail ↔ n ∈ s.trail
  length_eq : s.trail.length = s.pending.length

theorem Tidy.enter (h : s.Tidy) (new : node ∉ s.trail) (children : List Nat) : (s.enter node children).Tidy where
  nodup := List.nodup_cons.mpr ⟨new, h.nodup⟩
  mem_onTrail n := by
    simp only [SimpleSearch.enter, Std.ExtTreeSet.mem_insert, h.mem_onTrail, List.mem_cons, compare_eq_iff_eq]
    rw [eq_comm]
  length_eq := congrArg (· + 1) h.length_eq

theorem Tidy.leave (h : s.Tidy) (hpending : s.pending = children :: earlier) : s.leave.Tidy := by
  obtain ⟨target, cutoff, trail, onTrail, pending⟩ := s
  cases hpending
  cases trail with
  | nil => cases h.length_eq
  | cons node trail =>
    obtain ⟨hnode, hnodup⟩ := List.nodup_cons.mp h.nodup
    refine ⟨hnodup, fun n => ?_, Nat.succ.inj h.length_eq⟩
    have hmem : n ∈ onTrail ↔ n ∈ node :: trail := h.mem_onTrail n
    simp only [SimpleSearch.leave, List.head?_cons, Option.elim_some, Std.ExtTreeSet.mem_erase, List.tail_cons, hmem,
      List.mem_cons, ne_eq, compare_eq_iff_eq]
    grind

end SimpleSearch

namespace Digraph

variable {ε : Type} {g : Digraph ε} {target : Nat}

/-- The paths to `target` that go on from `node` with at most `steps` edges, where `trail` is the way there,
last node first. -/
def simplePathsFrom (g : Digraph ε) (target : Nat) : Nat → List Nat → Nat → List (List Nat)
  | 0, _, _ => []
  | steps + 1, trail, node =>
    ((g.successors node).filter fun next => !(node :: trail).contains next).flatMap fun next =>
      if next = target then [(target :: node :: trail).reverse]
      else simplePathsFrom g target steps (node :: trail) next

/-- The paths that go on from the end of a trail over some of its successors. -/
def simplePathsOver (g : Digraph ε) (target : Nat) (trail : List Nat) : Nat → List Nat → List (List Nat)
  | 0, _ => []
  | steps + 1, children =>
    (children.filter fun next => !trail.contains next).flatMap fun next =>
      if next = target then [(target :: trail).reverse] else simplePathsFrom g target steps trail next

/-- The paths that go on over the successors pending for each node of a trail. -/
def pendingPaths (g : Digraph ε) (target cutoff : Nat) : List Nat → List (List Nat) → List (List Nat)
  | node :: trail, children :: earlier =>
    simplePathsOver g target (node :: trail) (cutoff - trail.length) children ++
      pendingPaths g target cutoff trail earlier
  | _, _ => []

/-- What a suspended search has still to yield. -/
def remaining (g : Digraph ε) (s : SimpleSearch) : List (List Nat) :=
  g.pendingPaths s.target s.cutoff s.trail s.pending

theorem simplePathsOver_nil (trail : List Nat) (steps : Nat) : g.simplePathsOver target trail steps [] = [] := by
  cases steps <;> rfl

theorem simplePathsOver_cons_of_mem {trail children : List Nat} {child : Nat} (h : child ∈ trail) (steps : Nat) :
    g.simplePathsOver target trail steps (child :: children) = g.simplePathsOver target trail steps children := by
  cases steps with
  | zero => rfl
  | succ steps => simp [simplePathsOver, h]

theorem simplePathsOver_cons_of_notMem {trail children : List Nat} {child : Nat} (h : child ∉ trail)
    (steps : Nat) :
    g.simplePathsOver target trail (steps + 1) (child :: children) =
      (if child = target then [(target :: trail).reverse] else g.simplePathsFrom target steps trail child) ++
        g.simplePathsOver target trail (steps + 1) children := by
  simp [simplePathsOver, h]

theorem simplePathsFrom_eq_over (steps : Nat) (trail : List Nat) (node : Nat) :
    g.simplePathsFrom target steps trail node =
      g.simplePathsOver target (node :: trail) steps (g.successors node) := by
  cases steps <;> rfl

theorem simpleStep_eq_none {s : SimpleSearch} (h : g.simpleStep s = none) : s.pending = [] := by
  obtain ⟨target, cutoff, trail, onTrail, pending⟩ := s
  match pending with
  | [] => rfl
  | [] :: _ => cases h
  | (_ :: _) :: _ =>
    simp only [simpleStep] at h
    grind

/-- A step that tries a successor takes the ways on over it from what is left. -/
theorem remaining_try {cutoff node child : Nat} {trail children : List Nat} {earlier : List (List Nat)}
    {onTrail : Std.ExtTreeSet Nat} {out : Option (List Nat)} {s' : SimpleSearch}
    (tidy : SimpleSearch.Tidy ⟨target, cutoff, node :: trail, onTrail, (child :: children) :: earlier⟩)
    (h : g.simpleStep ⟨target, cutoff, node :: trail, onTrail, (child :: children) :: earlier⟩ = some (out, s')) :
    s'.Tidy ∧ g.simplePathsOver target (node :: trail) (cutoff - trail.length) (child :: children) ++
      g.pendingPaths target cutoff trail earlier = out.toList ++ g.remaining s' := by
  have rest : SimpleSearch.Tidy ⟨target, cutoff, node :: trail, onTrail, children :: earlier⟩ :=
    ⟨tidy.nodup, tidy.mem_onTrail, tidy.length_eq⟩
  have hmem : child ∈ onTrail ↔ child ∈ node :: trail := tidy.mem_onTrail child
  simp only [simpleStep, Std.ExtTreeSet.contains_iff_mem, hmem] at h
  split at h
  next hold =>
    cases h
    refine ⟨rest, ?_⟩
    rw [simplePathsOver_cons_of_mem hold]
    rfl
  next hnew =>
    -- How many more edges there may be than on the trail decides whether the successor is reached and passed.
    cases hsteps : cutoff - trail.length with
    | zero =>
      have hlong : ¬ trail.length + 1 ≤ cutoff := by omega
      have hlong' : ¬ trail.length + 1 < cutoff := by omega
      simp only [List.length_cons, hlong, hlong', if_false, ite_self, Option.some.injEq, Prod.mk.injEq] at h
      obtain ⟨rfl, rfl⟩ := h
      refine ⟨rest, ?_⟩
      simp [remaining, pendingPaths, hsteps, simplePathsOver]
    | succ steps =>
      have hreach : trail.length + 1 ≤ cutoff := by omega
      rw [simplePathsOver_cons_of_notMem hnew, List.append_assoc]
      split at h
      next htarget =>
        subst htarget
        rw [List.length_cons, if_pos hreach] at h
        cases h
        refine ⟨rest, ?_⟩
        simp [remaining, pendingPaths, hsteps]
      next htarget =>
        rw [if_neg htarget]
        split at h
        next hpass =>
          cases h
          refine ⟨rest.enter hnew _, ?_⟩
          have hsteps' : cutoff - (trail.length + 1) = steps := by omega
          rw [simplePathsFrom_eq_over]
          simp [remaining, pendingPaths, SimpleSearch.enter, hsteps, hsteps']
        next hpass =>
          cases h
          refine ⟨rest, ?_⟩
          have hlast : steps = 0 := by rw [List.length_cons] at hpass; omega
          simp [remaining, pendingPaths, hsteps, hlast, simplePathsFrom]

theorem leaves_remaining (g : Digraph ε) : g.simpleEnumeration.Leaves SimpleSearch.Tidy g.remaining where
  of_end {s} _ hend := by
    rw [remaining, simpleStep_eq_none hend]
    cases s.trail <;> rfl
  of_step {s out s'} tidy hstep := by
    obtain ⟨target, cutoff, trail, onTrail, pending⟩ := s
    match trail, pending, tidy.length_eq with
    | [], [], _ => cases hstep
    | node :: trail, [] :: earlier, _ =>
      cases hstep
      refine ⟨tidy.leave rfl, ?_⟩
      rw [remaining, pendingPaths, simplePathsOver_nil]
      rfl
    | node :: trail, (child :: children) :: earlier, _ => exact remaining_try tidy hstep

theorem mem_filter_successors {trail : List Nat} {node next : Nat} :
    (next ∈ (g.successors node).filter fun next => !(node :: trail).contains next) ↔
      g.hasEdge node next ∧ next ∉ node :: trail := by
  rw [List.mem_filter, mem_successors, Bool.not_eq_true', ← Bool.not_eq_true, List.contains_iff_mem]

theorem eq_nil_of_last_eq_head {a : Nat} {rest : List Nat} (hnodup : (a :: rest).Nodup)
    (hlast : (a :: rest).getLast? = some a) : rest = [] := by
  by_contra hne
  have hmem : a ∈ rest := by
    rw [List.getLast?_cons, List.getLast?_eq_some_getLast hne, Option.getD_some] at hlast
    have hin := List.getLast_mem hne
    rwa [Option.some.inj hlast] at hin
  exact (List.nodup_cons.mp hnodup).1 hmem

/-- The search from the end of a trail finds the trail's extensions to simple paths, with the new nodes at
the end. -/
theorem mem_simplePathsFrom (steps : Nat) (trail : List Nat) (node : Nat) (fresh : (node :: trail).Nodup)
    (path : List Nat) :
    path ∈ g.simplePathsFrom target steps trail node ↔
      ∃ rest, path = trail.reverse ++ node :: rest ∧ path.Nodup ∧ rest.length ≤ steps ∧
        (node :: rest).IsChain (fun a b => g.hasEdge a b) ∧ rest.getLast? = some target := by
  induction steps generalizing trail node with
  | zero =>
    constructor
    · rintro ⟨⟩
    · rintro ⟨rest, -, -, hlen, -, hlast⟩
      rw [List.length_eq_zero_iff.mp (Nat.le_zero.mp hlen)] at hlast
      cases hlast
  | succ steps ih =>
    rw [simplePathsFrom, List.mem_flatMap]
    constructor
    · rintro ⟨next, hnext, hpath⟩
      obtain ⟨edge, new⟩ := mem_filter_successors.mp hnext
      have fresh' : (next :: node :: trail).Nodup := List.nodup_cons.mpr ⟨new, fresh⟩
      by_cases ht : next = target
      · rw [if_pos ht, List.mem_singleton] at hpath
        subst hpath ht
        refine ⟨[next], by simp, List.nodup_reverse.mpr fresh', by simp, ?_, rfl⟩
        exact List.isChain_pair.mpr edge
      · rw [if_neg ht, ih _ _ fresh'] at hpath
        obtain ⟨rest, rfl, hnodup, hlen, hchain, hlast⟩ := hpath
        refine ⟨next :: rest, by simp, hnodup, by simpa using hlen, ?_, ?_⟩
        · exact List.isChain_cons_cons.mpr ⟨edge, hchain⟩
        · rw [List.getLast?_cons, hlast, Option.getD_some]
    · rintro ⟨rest, rfl, hnodup, hlen, hchain, hlast⟩
      cases rest with
      | nil => cases hlast
      | cons next rest =>
        obtain ⟨edge, hchain⟩ := List.isChain_cons_cons.mp hchain
        have hsplit : trail.reverse ++ node :: next :: rest = (node :: trail).reverse ++ next :: rest := by
          simp
        have new : next ∉ node :: trail := by
          intro hmem
          rw [hsplit, List.nodup_append] at hnodup
          exact hnodup.2.2 next (List.mem_reverse.mpr hmem) next List.mem_cons_self rfl
        refine ⟨next, mem_filter_successors.mpr ⟨edge, new⟩, ?_⟩
        by_cases ht : next = target
        · -- the target ends the path, so nothing comes after it
          subst ht
          rw [hsplit, List.nodup_append] at hnodup
          obtain rfl := eq_nil_of_last_eq_head hnodup.2.1 hlast
          simp
        · rw [if_neg ht, ih _ _ (List.nodup_cons.mpr ⟨new, fresh⟩)]
          refine ⟨rest, hsplit, hnodup, by simpa using hlen, hchain, ?_⟩
          cases rest with
          | nil => exact absurd (Option.some.inj hlast) ht
          | cons later rest => rwa [List.getLast?_cons_cons] at hlast

/-- Of two paths that part at a node the one with the lower next node comes first. -/
theorem sorted_simplePathsFrom (steps : Nat) (trail : List Nat) (node : Nat)
    (fresh : (node :: trail).Nodup) :
    (g.simplePathsFrom target steps trail node).Pairwise (· < ·) := by
  induction steps generalizing trail node with
  | zero => exact .nil
  | succ steps ih =>
    rw [simplePathsFrom, List.pairwise_flatMap]
    have starts {next : Nat} {path : List Nat} (new : next ∉ node :: trail)
        (hpath : path ∈ if next = target then [(target :: node :: trail).reverse]
          else g.simplePathsFrom target steps (node :: trail) next) :
        ∃ rest, path = (node :: trail).reverse ++ next :: rest := by
      split at hpath
      next ht => exact ⟨[], by simp_all⟩
      next =>
        obtain ⟨rest, rfl, -⟩ := (mem_simplePathsFrom _ _ _ (List.nodup_cons.mpr ⟨new, fresh⟩) _).mp hpath
        exact ⟨rest, rfl⟩
    constructor
    · intro next hnext
      split
      · exact List.pairwise_singleton _ _
      · exact ih _ _ (List.nodup_cons.mpr ⟨(mem_filter_successors.mp hnext).2, fresh⟩)
    · refine ((g.successors_sorted node).filter _).imp_of_mem ?_
      intro a b ha hb hab p hp q hq
      obtain ⟨rest, rfl⟩ := starts (mem_filter_successors.mp ha).2 hp
      obtain ⟨rest', rfl⟩ := starts (mem_filter_successors.mp hb).2 hq
      exact List.append_left_lt (List.cons_lt_cons_iff.mpr (Or.inl hab))

theorem mem_simplePathsFrom_source (steps source : Nat) (path : List Nat) :
    path ∈ g.simplePathsFrom target steps [] source ↔
      g.SimplePath source target path ∧ path.length ≤ steps + 1 := by
  rw [mem_simplePathsFrom _ _ _ (List.nodup_singleton source)]
  constructor
  · rintro ⟨rest, rfl, hnodup, hlen, hchain, hlast⟩
    have hne : rest ≠ [] := by
      rintro rfl
      cases hlast
    have hpos := List.length_pos_iff.mpr hne
    refine ⟨⟨⟨rfl, ?_, hchain⟩, hnodup, ?_⟩, ?_⟩
    · simp [List.getLast?_cons, hlast]
    · rw [List.reverse_nil, List.nil_append, List.length_cons]
      omega
    · simpa using hlen
  · rintro ⟨h, hlen⟩
    obtain ⟨next, rest, rfl⟩ := h.cons_cons
    refine ⟨next :: rest, rfl, h.nodup, by simpa using hlen, h.edges, ?_⟩
    exact (List.getLast?_cons_cons).symm.trans h.last

/-- The search is the recursion from its source. -/
theorem drains_simpleSearch (g : Digraph ε) (source target : Nat) (limit : Option Nat) :
    g.simpleEnumeration.Drains (g.simpleSearch source target limit)
      (if source ≠ target ∧ g.hasNode source ∧ g.hasNode target then
        g.simplePathsFrom target (limit.getD (g.nodeCount - 1)) [] source
      else []) := by
  have blank : SimpleSearch.Tidy ⟨target, limit.getD (g.nodeCount - 1), [], ∅, []⟩ := ⟨.nil, by simp, rfl⟩
  rw [simpleSearch]
  split
  · have drains := g.leaves_remaining.drains (blank.enter (List.not_mem_nil : source ∉ []) (g.successors source))
    rw [simplePathsFrom_eq_over]
    simpa [remaining, pendingPaths, SimpleSearch.enter] using drains
  · exact g.leaves_remaining.drains blank

theorem toList_simplePaths (g : Digraph ε) (source target : Nat) (limit : Option Nat) :
    (g.simplePaths source target limit).toList =
      if source ≠ target ∧ g.hasNode source ∧ g.hasNode target then
        g.simplePathsFrom target (limit.getD (g.nodeCount - 1)) [] source
      else [] :=
  (drains_simpleSearch g source target limit).toList_items

theorem drains_toList_simplePaths (g : Digraph ε) (source target : Nat) (limit : Option Nat) :
    g.simpleEnumeration.Drains (g.simpleSearch source target limit) (g.simplePaths source target limit).toList := by
  rw [toList_simplePaths]
  exact drains_simpleSearch g source target limit

theorem mem_simplePaths (reachable : g.Reachable) (source target : Nat) (limit : Option Nat)
    (path : List Nat) :
    path ∈ (g.simplePaths source target limit).toList ↔
      g.SimplePath source target path ∧ ∀ bound, limit = some bound → path.length ≤ bound + 1 := by
  rw [toList_simplePaths]
  split
  next hends =>
    rw [mem_simplePathsFrom_source]
    refine and_congr_right fun h => ?_
    cases limit with
    | none =>
      have hlen := h.length_le_nodeCount reachable
      simp only [Option.getD_none, reduceCtorEq, false_imp_iff, implies_true, iff_true]
      omega
    | some bound => simp
  next hends =>
    constructor
    · rintro ⟨⟩
    · rintro ⟨h, -⟩
      exact absurd ⟨h.source_ne_target, h.hasNode_source, h.hasNode_target reachable⟩ hends

theorem sorted_simplePaths (g : Digraph ε) (source target : Nat) (limit : Option Nat) :
    (g.simplePaths source target limit).toList.Pairwise (· < ·) := by
  rw [toList_simplePaths]
  split
  · exact sorted_simplePathsFrom _ _ _ (List.nodup_singleton source)
  · exact .nil

/-- Draining the search comes to an end and yields the simple paths with no more edges than the limit says, each
once, in lexicographic order, and nothing if the search starts at its target or an end is no node. -/
theorem simplePaths_exact (g : Digraph ε) (reachable : g.Reachable) (source target : Nat)
    (limit : Option Nat) :
    ∃ found, g.simpleEnumeration.Drains (g.simpleSearch source target limit) found ∧
      (g.simplePaths source target limit).toList = found ∧
      (∀ path, path ∈ found ↔
        g.SimplePath source target path ∧ ∀ bound, limit = some bound → path.length ≤ bound + 1) ∧
      found.Pairwise (· < ·) ∧
      (source = target ∨ ¬ g.hasNode source ∨ ¬ g.hasNode target → found = []) := by
  refine ⟨_, drains_toList_simplePaths g source target limit, rfl, mem_simplePaths reachable source target limit,
    sorted_simplePaths g source target limit, fun hout => ?_⟩
  have hends : ¬ (source ≠ target ∧ g.hasNode source ∧ g.hasNode target) := by tauto
  rw [toList_simplePaths, if_neg hends]

/-- With two edges at most, the way over both 1 and 2 is too long. -/
theorem exists_simplePaths_loopedDiamond :
    loopedDiamond.Reachable ∧ ∃ found,
      loopedDiamond.simpleEnumeration.Drains (loopedDiamond.simpleSearch 0 3 (some 2)) found ∧
      [0, 1, 3] ∈ found ∧ [0, 1, 2, 3] ∉ found ∧ found.Pairwise (· < ·) := by
  obtain ⟨found, hdrains, -, hmem, hsorted, -⟩ :=
    simplePaths_exact loopedDiamond reachable_loopedDiamond 0 3 (some 2)
  refine ⟨reachable_loopedDiamond, found, hdrains, (hmem _).mpr ⟨?_, ?_⟩, fun hlong => ?_, hsorted⟩
  · exact ⟨⟨rfl, rfl, by decide⟩, by decide, by decide⟩
  · rintro bound ⟨⟩
    decide
  · exact absurd (((hmem _).mp hlong).2 2 rfl) (by decide)

example : (loopedDiamond.simplePaths 0 3 none).toList = [[0, 1, 2, 3], [0, 1, 3], [0, 2, 3]] := by
  rw [toList_simplePaths]
  decide

end Digraph

end PolicyAnalysis
