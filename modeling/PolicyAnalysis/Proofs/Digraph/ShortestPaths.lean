import PolicyAnalysis.Digraph.ShortestPaths
import PolicyAnalysis.Proofs.Digraph.Discovery
import PolicyAnalysis.Proofs.Digraph.SimplePaths

/-!
# The search for shortest paths is exact

The rounds find, for each node up to the distance of the target, the nodes one edge nearer to the source. What a
suspended way back has still to yield are the ways over the predecessors not yet tried of each node on it. Ways back
are walks as short as the distance of the target, and these are the simple paths of the least length.
-/

namespace PolicyAnalysis

namespace ShortestSearch

/-- The ways back from a node of some depth to the source, each with the way on. -/
def waysBack (source : Nat) (predecessors : Std.ExtTreeMap Nat (List Nat)) :
    Nat → Nat → List Nat → List (List Nat)
  | 0, node, onward => if node = source then [node :: onward] else []
  | depth + 1, node, onward =>
    (predecessors.getD node []).flatMap fun previous => waysBack source predecessors depth previous (node :: onward)

/-- The ways over the predecessors of a node after the first ones. -/
def waysOver (s : ShortestSearch) (node tried : Nat) (onward : List Nat) : List (List Nat) :=
  ((s.predecessors.getD node []).drop tried).flatMap fun previous =>
    waysBack s.source s.predecessors (s.depth.getD previous 0) previous (node :: onward)

def waysOnward (s : ShortestSearch) : List (Nat × Nat) → List (List Nat)
  | [] => []
  | (node, tried) :: onward => s.waysOver node (tried + 1) (onward.map Prod.fst) ++ waysOnward s onward

/-- What a suspended way back has still to yield. -/
def remaining (s : ShortestSearch) : List (List Nat) :=
  match s.stack with
  | [] => []
  | (node, tried) :: onward =>
    (if node = s.source then [s.stack.map Prod.fst] else []) ++ s.waysOver node tried (onward.map Prod.fst) ++
      s.waysOnward onward

variable {s s' : ShortestSearch}

/-- The way back starts at the target and has not passed the source. -/
structure Outward (s : ShortestSearch) : Prop where
  depth_source : s.depth.getD s.source 0 = 0
  passed : ∀ frame ∈ s.stack.tail, frame.1 ≠ s.source

/-- Only the first look at the source yields a way, since there is nowhere to go back from it. -/
theorem predecessors_source (h : s.depth.getD s.source 0 = 0) : s.predecessors.getD s.source [] = [] := by
  refine List.eq_nil_iff_forall_not_mem.mpr fun previous hprevious => ?_
  have := s.descends s.source previous hprevious
  omega

theorem waysBack_eq (h : s.depth.getD s.source 0 = 0) (node : Nat) (onward : List Nat) :
    waysBack s.source s.predecessors (s.depth.getD node 0) node onward =
      (if node = s.source then [node :: onward] else []) ++ s.waysOver node 0 onward := by
  have hdescends := s.descends node
  cases hdepth : s.depth.getD node 0 with
  | zero =>
    have hnil : s.predecessors.getD node [] = [] := by
      refine List.eq_nil_iff_forall_not_mem.mpr fun previous hprevious => ?_
      have := hdescends previous hprevious
      omega
    simp [waysBack, waysOver, hnil]
  | succ depth =>
    have hne : node ≠ s.source := by
      rintro rfl
      omega
    rw [waysBack, if_neg hne, List.nil_append, waysOver, List.drop_zero]
    refine List.flatMap_congr fun previous hprevious => ?_
    rw [hdepth] at hdescends
    rw [Nat.succ.inj (hdescends previous hprevious)]

theorem waysOver_eq_cons {node tried previous : Nat}
    (h : (s.predecessors.getD node [])[tried]? = some previous) (onward : List Nat) :
    s.waysOver node tried onward =
      waysBack s.source s.predecessors (s.depth.getD previous 0) previous (node :: onward) ++
        s.waysOver node (tried + 1) onward := by
  obtain ⟨hlt, hprevious⟩ := List.getElem?_eq_some_iff.mp h
  rw [waysOver, List.drop_eq_getElem_cons hlt, List.flatMap_cons, hprevious]
  rfl

theorem waysOver_eq_nil {node tried : Nat} (h : (s.predecessors.getD node [])[tried]? = none) (onward : List Nat) :
    s.waysOver node tried onward = [] := by
  rw [waysOver, List.drop_eq_nil_of_le (List.getElem?_eq_none_iff.mp h)]
  rfl

theorem waysOnward_stack (s : ShortestSearch) (stack onward : List (Nat × Nat)) :
    waysOnward { s with stack := stack } onward = s.waysOnward onward := by
  induction onward with
  | nil => rfl
  | cons frame onward ih => rw [waysOnward, ih]; rfl

theorem remaining_advance {onward : List (Nat × Nat)} (passed : ∀ frame ∈ onward, frame.1 ≠ s.source) :
    remaining { s with stack := advance onward } = s.waysOnward onward := by
  cases onward with
  | nil => rfl
  | cons frame onward =>
    rw [remaining, advance]
    simp only [if_neg (passed frame List.mem_cons_self), List.nil_append, waysOnward_stack]
    rfl

/-- Going back to a predecessor takes the ways over it from those that are left. -/
theorem remaining_back (h : s.depth.getD s.source 0 = 0) {node tried previous : Nat} {onward : List (Nat × Nat)}
    (hprevious : (s.predecessors.getD node [])[tried]? = some previous) :
    remaining { s with stack := (previous, 0) :: (node, tried) :: onward } =
      s.waysOver node tried (onward.map Prod.fst) ++ s.waysOnward onward := by
  rw [waysOver_eq_cons hprevious, waysBack_eq h, remaining]
  simp only [waysOnward_stack, waysOnward, List.map_cons, List.append_assoc]
  rfl

theorem leaves_remaining : ways.Leaves Outward remaining where
  of_end {s} _ hend := by
    change s.step = none at hend
    rw [step] at hend
    split at hend
    next hstack => rw [remaining, hstack]
    next =>
      simp only at hend
      split at hend <;> cases hend
  of_step {s out s'} good hstep := by
    change s.step = some (out, s') at hstep
    rw [step] at hstep
    split at hstep
    next => cases hstep
    next node tried onward hstack =>
      have hpassed := good.passed
      rw [hstack, List.tail_cons] at hpassed
      simp only at hstep
      split at hstep
      next previous hprevious =>
        have hnode : node ≠ s.source := by
          rintro rfl
          simp [predecessors_source good.depth_source] at hprevious
        cases hstep
        refine ⟨⟨good.depth_source, ?_⟩, ?_⟩
        · rw [hstack]
          exact List.forall_mem_cons.mpr ⟨hnode, hpassed⟩
        · rw [hstack, remaining_back good.depth_source hprevious, remaining, hstack]
          simp only [if_neg hnode, Option.toList_none]
          rfl
      next hend =>
        cases hstep
        refine ⟨⟨good.depth_source, ?_⟩, ?_⟩
        · cases onward with
          | nil => exact fun _ hmem => absurd hmem List.not_mem_nil
          | cons => exact (List.forall_mem_cons.mp hpassed).2
        · rw [remaining_advance hpassed, remaining, hstack]
          simp only [waysOver_eq_nil hend, List.append_nil]
          split <;> rfl

end ShortestSearch

namespace Digraph

open ShortestSearch

variable {ε : Type} {g : Digraph ε} {source target distance : Nat} {b : Discovery}

theorem outward_shortestSearch (g : Digraph ε) (source target : Nat) : (g.shortestSearch source target).Outward := by
  rw [shortestSearch]
  split
  · obtain ⟨distance, hknows, -⟩ := Discovery.knows_discover (Discovery.Knows.start g source target)
    refine ⟨?_, fun frame hmem => ?_⟩
    · have hdepth := (hknows.depth source 0).mpr ⟨distance.zero_le, (g.atDistance_zero source source).mpr rfl⟩
      simp only [Std.ExtTreeMap.getD_eq_getD_getElem?, hdepth, Option.getD_some]
    · simp only at hmem
      split at hmem <;> exact absurd hmem List.not_mem_nil
  · exact ⟨by simp, fun _ hmem => absurd hmem List.not_mem_nil⟩

theorem drains_shortestSearch (g : Digraph ε) (source target : Nat) :
    ways.Drains (g.shortestSearch source target) (g.shortestSearch source target).remaining :=
  ShortestSearch.leaves_remaining.drains (g.outward_shortestSearch source target)

/-- The search follows all ways back from the target, if the rounds have met it. -/
theorem remaining_shortestSearch (distinct : source ≠ target) (hs : g.hasNode source) (ht : g.hasNode target) :
    (∃ (b : Discovery) (distance d : Nat), b.Knows g source target distance ∧ d ≤ distance ∧
      g.AtDistance source d target ∧
      (g.shortestSearch source target).remaining = waysBack source b.predecessors d target []) ∨
    (g.shortestSearch source target).remaining = [] ∧ ∀ k, ¬ g.ReachesIn source k target := by
  have houtward := g.outward_shortestSearch source target
  obtain ⟨distance, hknows, hend⟩ := Discovery.knows_discover (Discovery.Knows.start g source target)
  have hways := waysBack_eq houtward.depth_source target []
  rw [shortestSearch, if_pos ⟨distinct, hs, ht⟩] at hways ⊢
  obtain ⟨hfound, d, hd, hdist⟩ | ⟨hmissed, hunreachable⟩ := hknows.found_or_unreachable distinct hend
  · refine Or.inl ⟨_, distance, d, hknows, hd, hdist, ?_⟩
    have hdepth := (hknows.depth target d).mpr ⟨hd, hdist⟩
    simp only [Std.ExtTreeMap.getD_eq_getD_getElem?, hdepth, Option.getD_some] at hways
    rw [hways, ShortestSearch.remaining]
    simp [hfound, waysOnward]
  · refine Or.inr ⟨?_, hunreachable⟩
    simp [ShortestSearch.remaining, hmissed]

theorem toList_shortestPaths (g : Digraph ε) (source target : Nat) :
    (g.shortestPaths source target).toList = (g.shortestSearch source target).remaining :=
  (g.drains_shortestSearch source target).toList_items

/-- The ways back from a node that the rounds have met are the shortest walks to it, each with the way on. -/
theorem mem_waysBack (h : b.Knows g source target distance) {d : Nat} (hd : d ≤ distance) (node : Nat)
    (onward : List Nat) (hdist : g.AtDistance source d node) {path : List Nat} :
    path ∈ waysBack source b.predecessors d node onward ↔
      ∃ front, path = front ++ node :: onward ∧ front.length = d ∧ g.Walk source node (front ++ [node]) := by
  induction d generalizing node onward path with
  | zero =>
    obtain rfl := (g.atDistance_zero source node).mp hdist
    rw [waysBack, if_pos rfl, List.mem_singleton]
    constructor
    · rintro rfl
      exact ⟨[], rfl, rfl, .singleton g node⟩
    · rintro ⟨front, rfl, hfront, -⟩
      rw [List.length_eq_zero_iff.mp hfront, List.nil_append]
  | succ d ih =>
    rw [waysBack, List.mem_flatMap]
    constructor
    · rintro ⟨previous, hprevious, hpath⟩
      obtain ⟨d', -, hprevious, hnode, hedge⟩ := (h.predecessors node previous).mp hprevious
      obtain rfl : d' = d := Nat.succ.inj (hnode.unique hdist)
      rw [ih (by omega) previous (node :: onward) hprevious] at hpath
      obtain ⟨front, rfl, hfront, hwalk⟩ := hpath
      refine ⟨front ++ [previous], by simp, by simpa using hfront, ?_⟩
      rw [List.append_assoc]
      exact Walk.concat_iff.mpr ⟨hwalk, hedge⟩
    · rintro ⟨front, rfl, hfront, hwalk⟩
      obtain ⟨before, previous, rfl⟩ :=
        List.eq_nil_or_concat front |>.resolve_left (by rintro rfl; cases hfront)
      simp only [List.concat_eq_append, List.append_assoc, List.singleton_append] at hfront hwalk ⊢
      have hbefore : before.length = d := by simpa using hfront
      obtain ⟨hwalk, hedge⟩ := Walk.concat_iff.mp hwalk
      have hprevious : g.AtDistance source d previous := hdist.of_edge ⟨_, hwalk, by simp [hbefore]⟩ hedge
      refine ⟨previous, (h.predecessors node previous).mpr ⟨d, by omega, hprevious, hdist, hedge⟩, ?_⟩
      rw [ih (by omega) previous (node :: onward) hprevious]
      exact ⟨before, rfl, hbefore, hwalk⟩

theorem suffix_of_mem_waysBack (predecessors : Std.ExtTreeMap Nat (List Nat)) (d node : Nat)
    (onward path : List Nat) (h : path ∈ waysBack source predecessors d node onward) : node :: onward <:+ path := by
  induction d generalizing node onward with
  | zero =>
    rw [waysBack] at h
    split at h
    · exact List.mem_singleton.mp h ▸ List.suffix_rfl
    · cases h
  | succ d ih =>
    rw [waysBack, List.mem_flatMap] at h
    obtain ⟨previous, -, h⟩ := h
    exact (List.suffix_cons previous _).trans (ih previous (node :: onward) h)

/-- Ways back over different predecessors stay apart, since all of them have the same way on. -/
theorem nodup_waysBack (h : b.Knows g source target distance) (d node : Nat) (onward : List Nat) :
    (waysBack source b.predecessors d node onward).Nodup := by
  induction d generalizing node onward with
  | zero =>
    rw [waysBack]
    split
    · exact List.nodup_singleton _
    · exact .nil
  | succ d ih =>
    rw [waysBack, List.nodup_flatMap]
    refine ⟨fun previous _ => ih previous (node :: onward), (h.nodup_predecessors node).imp fun {a c} hac => ?_⟩
    intro path ha hc
    have hsuffix := List.suffix_of_suffix_length_le (suffix_of_mem_waysBack _ _ _ _ _ ha)
      (suffix_of_mem_waysBack _ _ _ _ _ hc) le_rfl
    exact hac (List.cons_eq_cons.mp (hsuffix.eq_of_length rfl)).1

/-- The shortest walks between two different nodes are the simple paths of the least length. -/
theorem simplePath_minimal_iff (distinct : source ≠ target) (path : List Nat) :
    (g.SimplePath source target path ∧
      ∀ other, g.SimplePath source target other → path.length ≤ other.length) ↔
      ∃ d, g.AtDistance source d target ∧ g.Walk source target path ∧ path.length = d + 1 := by
  have simple {d : Nat} {path : List Nat} (hdist : g.AtDistance source d target)
      (hwalk : g.Walk source target path) (hlen : path.length = d + 1) :
      g.SimplePath source target path := by
    refine ⟨hwalk, hdist.nodup hwalk hlen, ?_⟩
    have hpos : d ≠ 0 := by
      rintro rfl
      exact distinct ((g.atDistance_zero source target).mp hdist).symm
    omega
  have steps {path : List Nat} (hwalk : g.Walk source target path) :
      g.ReachesIn source (path.length - 1) target := by
    have hpos := List.length_pos_iff.mpr hwalk.ne_nil
    exact ⟨path, hwalk, by omega⟩
  constructor
  · rintro ⟨hpath, hleast⟩
    obtain ⟨d, hd, hdist⟩ := (steps hpath.toWalk).exists_atDistance
    obtain ⟨short, hwalk, hlen⟩ := hdist.reaches
    have hle := hleast short (simple hdist hwalk hlen)
    have hpos := hpath.two_le_length
    exact ⟨d, hdist, hpath.toWalk, by omega⟩
  · rintro ⟨d, hdist, hwalk, hlen⟩
    refine ⟨simple hdist hwalk hlen, fun other hother => ?_⟩
    by_contra! hshorter
    have hpos := hother.two_le_length
    exact hdist.least (other.length - 1) (by omega) (steps hother.toWalk)

theorem mem_shortestPaths (reachable : g.Reachable) (source target : Nat) (path : List Nat) :
    path ∈ (g.shortestPaths source target).toList ↔
      g.SimplePath source target path ∧
        ∀ other, g.SimplePath source target other → path.length ≤ other.length := by
  rw [toList_shortestPaths]
  by_cases hends : source ≠ target ∧ g.hasNode source ∧ g.hasNode target
  · obtain ⟨distinct, hs, ht⟩ := hends
    rw [simplePath_minimal_iff distinct]
    obtain ⟨b, distance, d, hknows, hd, hdist, heq⟩ | ⟨heq, hunreachable⟩ :=
      remaining_shortestSearch distinct hs ht
    · rw [heq, mem_waysBack hknows hd target [] hdist]
      constructor
      · rintro ⟨front, rfl, hfront, hwalk⟩
        exact ⟨d, hdist, hwalk, by simp [hfront]⟩
      · rintro ⟨d', hdist', hwalk, hlen⟩
        obtain rfl : d' = d := hdist'.unique hdist
        obtain ⟨front, rfl⟩ := List.getLast?_eq_some_iff.mp hwalk.last
        exact ⟨front, rfl, by simpa using hlen, hwalk⟩
    · rw [heq]
      constructor
      · rintro ⟨⟩
      · rintro ⟨d, hdist, -⟩
        exact absurd hdist.reaches (hunreachable d)
  · rw [shortestSearch, if_neg hends]
    constructor
    · rintro ⟨⟩
    · rintro ⟨h, -⟩
      exact absurd ⟨h.source_ne_target, h.hasNode_source, h.hasNode_target reachable⟩ hends

theorem nodup_shortestPaths (g : Digraph ε) (source target : Nat) :
    (g.shortestPaths source target).toList.Nodup := by
  rw [toList_shortestPaths]
  by_cases hends : source ≠ target ∧ g.hasNode source ∧ g.hasNode target
  · obtain ⟨distinct, hs, ht⟩ := hends
    obtain ⟨b, distance, d, hknows, -, -, heq⟩ | ⟨heq, -⟩ := remaining_shortestSearch distinct hs ht
    · rw [heq]
      exact nodup_waysBack hknows d target []
    · rw [heq]
      exact .nil
  · rw [shortestSearch, if_neg hends]
    exact .nil

theorem SimplePath.exists_minimal {path : List Nat} (h : g.SimplePath source target path) :
    ∃ short, g.SimplePath source target short ∧
      ∀ other, g.SimplePath source target other → short.length ≤ other.length := by
  induction hlen : path.length using Nat.strong_induction_on generalizing path with
  | _ k ih =>
    by_cases hleast : ∀ other, g.SimplePath source target other → path.length ≤ other.length
    · exact ⟨path, h, hleast⟩
    · push Not at hleast
      obtain ⟨other, hother, hlt⟩ := hleast
      exact ih other.length (hlen ▸ hlt) hother rfl

/-- Draining the search comes to an end and yields, each once, the paths of the least length among those that the
unlimited search for simple paths yields. It yields nothing only if there is no simple path, so in particular if it
starts at its target or an end is no node. -/
theorem shortestPaths_exact (g : Digraph ε) (reachable : g.Reachable) (source target : Nat) :
    ∃ shortest simple, ways.Drains (g.shortestSearch source target) shortest ∧
      (g.shortestPaths source target).toList = shortest ∧
      g.simpleEnumeration.Drains (g.simpleSearch source target none) simple ∧
      shortest.Nodup ∧
      (∀ path, path ∈ shortest ↔ path ∈ simple ∧ ∀ other ∈ simple, path.length ≤ other.length) ∧
      (shortest = [] ↔ ¬ ∃ path, g.SimplePath source target path) ∧
      (source = target ∨ ¬ g.hasNode source ∨ ¬ g.hasNode target → shortest = []) := by
  have hsimple (path : List Nat) :
      path ∈ (g.simplePaths source target none).toList ↔ g.SimplePath source target path := by
    simp [mem_simplePaths reachable]
  have hempty : (g.shortestPaths source target).toList = [] ↔
      ¬ ∃ path, g.SimplePath source target path := by
    simp only [List.eq_nil_iff_forall_not_mem, mem_shortestPaths reachable]
    constructor
    · rintro hnone ⟨path, hpath⟩
      obtain ⟨short, hshort⟩ := hpath.exists_minimal
      exact hnone short hshort
    · rintro hnone path ⟨hpath, -⟩
      exact hnone ⟨path, hpath⟩
  refine ⟨_, _, toList_shortestPaths g source target ▸ drains_shortestSearch g source target, rfl,
    drains_toList_simplePaths g source target none, nodup_shortestPaths g source target, fun path => ?_, hempty,
    fun hout => hempty.mpr ?_⟩
  · simp only [mem_shortestPaths reachable, hsimple]
  · rintro ⟨path, hpath⟩
    have := hpath.source_ne_target
    have := hpath.hasNode_source
    have := hpath.hasNode_target reachable
    tauto

/-- The edge between the two ways does not lead to a shortest path. -/
theorem exists_shortestPaths_loopedDiamond :
    loopedDiamond.Reachable ∧ ∃ shortest simple, ways.Drains (loopedDiamond.shortestSearch 0 3) shortest ∧
      loopedDiamond.simpleEnumeration.Drains (loopedDiamond.simpleSearch 0 3 none) simple ∧
      shortest.Nodup ∧ shortest ≠ [] ∧
      ∀ path ∈ shortest, path ∈ simple ∧ ∀ other ∈ simple, path.length ≤ other.length := by
  obtain ⟨shortest, simple, hshortest, -, hsimple, hnodup, hmem, hempty, -⟩ :=
    shortestPaths_exact loopedDiamond reachable_loopedDiamond 0 3
  refine ⟨reachable_loopedDiamond, shortest, simple, hshortest, hsimple, hnodup, fun hnone => ?_,
    fun path hpath => (hmem path).mp hpath⟩
  exact hempty.mp hnone ⟨[0, 1, 3], ⟨rfl, rfl, by decide⟩, by decide, by decide⟩

end Digraph

end PolicyAnalysis
