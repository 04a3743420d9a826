import PolicyAnalysis.Digraph.Discovery
import PolicyAnalysis.Proofs.Digraph.Distance

/-!
# Rounds find distances

Before each round the search knows the nodes up to a distance: how far each of them is, and over which edges it is
reached in the fewest steps. The nodes at just that distance are the ones that are visited next. What an edge adds
depends on the state at the start of its round and on the edges of the round before it: a node that is new in the
round is met over all edges that lead to it.
-/

namespace PolicyAnalysis.Discovery

variable {ε : Type} {g : Digraph ε} {source target level : Nat} {edges : List (Nat × Nat)} {b b' : Discovery}

/-- The search knows all nodes up to a distance. -/
structure Knows (g : Digraph ε) (source target distance : Nat) (b : Discovery) : Prop where
  depth : ∀ n d : Nat, b.depth[n]? = some d ↔ d ≤ distance ∧ g.AtDistance source d n
  frontier : ∀ n, n ∈ b.frontier ↔ g.AtDistance source distance n
  nodup_frontier : b.frontier.Nodup
  predecessors : ∀ n m, m ∈ b.predecessors.getD n [] ↔
    ∃ d < distance, g.AtDistance source d m ∧ g.AtDistance source (d + 1) n ∧ g.hasEdge m n
  nodup_predecessors : ∀ n, (b.predecessors.getD n []).Nodup
  found : b.found ↔ ∃ d < distance, ∃ m, g.AtDistance source d m ∧ g.hasEdge m target

/-- The nodes from which some edges lead to a node. -/
def sources (edges : List (Nat × Nat)) (n : Nat) : List Nat :=
  (edges.filter fun e => e.2 == n).map Prod.fst

/-- The edges that the next round goes over, in its order. -/
def ahead (g : Digraph ε) (b : Discovery) : List (Nat × Nat) :=
  b.frontier.flatMap fun node => (g.successors node).map (node, ·)

/-- The state in a round after some edges, by that at the start of the round. -/
structure Met (target level : Nat) (b : Discovery) (edges : List (Nat × Nat)) (b' : Discovery) : Prop where
  old : ∀ n d : Nat, b.depth[n]? = some d →
    b'.depth[n]? = some d ∧ b'.predecessors.getD n [] = b.predecessors.getD n []
  new : ∀ n : Nat, b.depth[n]? = none →
    b'.depth[n]? = (if sources edges n = [] then none else some (level + 1)) ∧
      b'.predecessors.getD n [] = sources edges n
  frontier : ∀ n : Nat, n ∈ b'.frontier ↔ b.depth[n]? = none ∧ sources edges n ≠ []
  nodup_frontier : b'.frontier.Nodup
  found : b'.found ↔ b.found ∨ sources edges target ≠ []

theorem sources_concat (edges : List (Nat × Nat)) (node succ n : Nat) :
    sources (edges ++ [(node, succ)]) n = sources edges n ++ if succ = n then [node] else [] := by
  by_cases hn : succ = n <;> simp [sources, hn]

theorem mem_sources {m n : Nat} : m ∈ sources edges n ↔ (m, n) ∈ edges := by
  simp [sources]

theorem Met.start (fresh : ∀ n : Nat, b.depth[n]? = none → b.predecessors.getD n [] = []) :
    b.Met target level [] { b with frontier := [] } where
  old _ _ hd := ⟨hd, rfl⟩
  new n hn := ⟨hn, fresh n hn⟩
  frontier n := by simp [sources]
  nodup_frontier := .nil
  found := by simp [sources]

theorem record_of_ne {node succ n : Nat} (b : Discovery) (hn : succ ≠ n) :
    (b.record node level succ).depth[n]? = b.depth[n]? ∧
      (b.record node level succ).predecessors.getD n [] = b.predecessors.getD n [] ∧
      (n ∈ (b.record node level succ).frontier ↔ n ∈ b.frontier) := by
  have hcmp : compare succ n ≠ .eq := fun h => hn (Nat.compare_eq_eq.mp h)
  rcases b.record_cases node level succ with ⟨-, heq⟩ | ⟨-, heq⟩ | ⟨-, heq⟩
  · rw [heq, Std.ExtTreeMap.getElem?_insert, if_neg hcmp, Std.ExtTreeMap.getD_insert, if_neg hcmp]
    simp [hn.symm]
  · rw [heq, Std.ExtTreeMap.getD_alter, if_neg hcmp]
    exact ⟨rfl, rfl, Iff.rfl⟩
  · rw [heq]
    exact ⟨rfl, rfl, Iff.rfl⟩

/-- A node that was known before the round is not met again. -/
theorem Met.record_old (h : b.Met target level edges b') {succ d : Nat} (hd : b.depth[succ]? = some d)
    (hle : d ≤ level) (node : Nat) : b'.record node level succ = b' := by
  have hne : d ≠ level + 1 := by omega
  simp [Discovery.record, (h.old succ d hd).1, hne]

/-- A node that is new in the round is met from one node more. -/
theorem Met.record_new (h : b.Met target level edges b') {succ : Nat} (hnew : b.depth[succ]? = none) (node : Nat) :
    (b'.record node level succ).depth[succ]? = some (level + 1) ∧
      (b'.record node level succ).predecessors.getD succ [] = sources edges succ ++ [node] ∧
      succ ∈ (b'.record node level succ).frontier ∧ (b'.record node level succ).frontier.Nodup := by
  obtain ⟨hdepth, hsources⟩ := h.new succ hnew
  have hfrontier := h.frontier succ
  by_cases hfirst : sources edges succ = []
  · rw [if_pos hfirst] at hdepth
    have hmissing : succ ∉ b'.frontier := fun hmem => (hfrontier.mp hmem).2 hfirst
    have heq : b'.record node level succ =
        { b' with
          depth := b'.depth.insert succ (level + 1)
          predecessors := b'.predecessors.insert succ [node]
          frontier := b'.frontier ++ [succ] } := by
      rw [Discovery.record, hdepth]
    rw [heq, hfirst]
    refine ⟨by simp, by simp, by simp, ?_⟩
    exact List.nodup_append.mpr ⟨h.nodup_frontier, List.nodup_singleton succ, fun a ha c hc hac =>
      hmissing (List.mem_singleton.mp hc ▸ hac ▸ ha)⟩
  · rw [if_neg hfirst] at hdepth
    have heq : b'.record node level succ =
        { b' with predecessors := b'.predecessors.alter succ fun l => some (l.getD [] ++ [node]) } := by
      rw [Discovery.record, hdepth]
      exact if_pos rfl
    rw [heq, ← hsources]
    exact ⟨hdepth, by simp [Std.ExtTreeMap.getD_eq_getD_getElem?], hfrontier.mpr ⟨hnew, hfirst⟩, h.nodup_frontier⟩

theorem meet_found (b : Discovery) (target node level succ : Nat) :
    (b.meet target node level succ).found ↔ b.found ∨ succ = target := by
  have hrecord : (b.record node level succ).found = b.found := by
    rcases b.record_cases node level succ with ⟨-, heq⟩ | ⟨-, heq⟩ | ⟨-, heq⟩ <;> rw [heq]
  rw [Discovery.meet]
  split <;> simp_all

theorem Met.meet (h : b.Met target level edges b') (known : ∀ n d : Nat, b.depth[n]? = some d → d ≤ level)
    (node succ : Nat) : b.Met target level (edges ++ [(node, succ)]) (b'.meet target node level succ) := by
  have other {n : Nat} (hn : succ ≠ n) : sources (edges ++ [(node, succ)]) n = sources edges n := by
    rw [sources_concat, if_neg hn, List.append_nil]
  have self : sources (edges ++ [(node, succ)]) succ = sources edges succ ++ [node] := by
    rw [sources_concat, if_pos rfl]
  refine ⟨fun n d hd => ?_, fun n hn => ?_, fun n => ?_, ?_, ?_⟩
  · rw [meet_depth, meet_predecessors]
    by_cases hsucc : succ = n
    · subst hsucc
      rw [h.record_old hd (known succ d hd)]
      exact h.old succ d hd
    · rw [(b'.record_of_ne hsucc).1, (b'.record_of_ne hsucc).2.1]
      exact h.old n d hd
  · rw [meet_depth, meet_predecessors]
    by_cases hsucc : succ = n
    · subst hsucc
      rw [(h.record_new hn node).1, (h.record_new hn node).2.1, self]
      simp
    · rw [(b'.record_of_ne hsucc).1, (b'.record_of_ne hsucc).2.1, other hsucc]
      exact h.new n hn
  · rw [meet_frontier]
    by_cases hsucc : succ = n
    · subst hsucc
      cases hold : b.depth[succ]? with
      | none => simp [(h.record_new hold node).2.2.1, self]
      | some d => simp [h.record_old hold (known succ d hold), h.frontier, hold]
    · rw [(b'.record_of_ne hsucc).2.2, other hsucc]
      exact h.frontier n
  · rw [meet_frontier]
    cases hold : b.depth[succ]? with
    | none => exact (h.record_new hold node).2.2.2
    | some d =>
      rw [h.record_old hold (known succ d hold)]
      exact h.nodup_frontier
  · rw [meet_found, h.found]
    by_cases hsucc : succ = target
    · subst hsucc
      simp [self]
    · simp [other hsucc, hsucc]

theorem Met.foldl_meet (h : b.Met target level edges b') (known : ∀ n d : Nat, b.depth[n]? = some d → d ≤ level)
    (node : Nat) (succs : List Nat) :
    b.Met target level (edges ++ succs.map (node, ·)) (succs.foldl (.meet target node level) b') := by
  induction succs generalizing edges b' with
  | nil => simpa using h
  | cons succ succs ih => simpa using ih (h.meet known node succ)

theorem Met.foldl_visit (h : b.Met target level edges b') (known : ∀ n d : Nat, b.depth[n]? = some d → d ≤ level)
    (nodes : List Nat) (hnodes : ∀ n ∈ nodes, b.depth[n]? = some level) :
    b.Met target level (edges ++ nodes.flatMap fun node => (g.successors node).map (node, ·))
      (nodes.foldl (g.visit target) b') := by
  induction nodes generalizing edges b' with
  | nil => simpa using h
  | cons node nodes ih =>
    have hlevel : b'.depth.getD node 0 = level := by
      rw [Std.ExtTreeMap.getD_eq_getD_getElem?, (h.old node level (hnodes node List.mem_cons_self)).1]
      rfl
    have hvisit := h.foldl_meet known node (g.successors node)
    rw [List.foldl_cons, Digraph.visit, hlevel, List.flatMap_cons, ← List.append_assoc]
    exact ih hvisit fun n hn => hnodes n (List.mem_cons_of_mem node hn)

namespace Knows

variable {distance n d : Nat}

theorem start (g : Digraph ε) (source target : Nat) : Knows g source target 0 (start source) where
  depth n d := by
    rw [Discovery.start, Std.ExtTreeMap.ofList_singleton, Std.ExtTreeMap.getElem?_insert, Nat.le_zero]
    simp only [Nat.compare_eq_eq, Std.ExtTreeMap.getElem?_empty]
    constructor
    · intro hd
      split at hd
      next hn =>
        cases hd
        exact ⟨rfl, (g.atDistance_zero source n).mpr hn.symm⟩
      next => cases hd
    · rintro ⟨rfl, hdist⟩
      rw [if_pos ((g.atDistance_zero source n).mp hdist).symm]
  frontier n := by simp [Discovery.start, Digraph.atDistance_zero]
  nodup_frontier := List.nodup_singleton source
  predecessors n m := by simp [Discovery.start]
  nodup_predecessors n := by simp [Discovery.start]
  found := by simp [Discovery.start]

/-- What has not been met is farther away. -/
theorem depth_eq_none (h : b.Knows g source target distance) (n : Nat) :
    b.depth[n]? = none ↔ ∀ j ≤ distance, ¬ g.ReachesIn source j n := by
  constructor
  · intro hn j hj hreach
    obtain ⟨d, hd, hdist⟩ := hreach.exists_atDistance
    cases hn.symm.trans ((h.depth n d).mpr ⟨by omega, hdist⟩)
  · intro hfar
    cases hn : b.depth[n]? with
    | none => rfl
    | some d =>
      obtain ⟨hd, hdist⟩ := (h.depth n d).mp hn
      exact absurd hdist.reaches (hfar d hd)

theorem mem_sources (h : b.Knows g source target distance) (n m : Nat) :
    m ∈ sources (ahead g b) n ↔ g.AtDistance source distance m ∧ g.hasEdge m n := by
  rw [Discovery.mem_sources, ahead, List.mem_flatMap]
  constructor
  · rintro ⟨node, hnode, hmem⟩
    obtain ⟨succ, hsucc, heq⟩ := List.mem_map.mp hmem
    cases heq
    exact ⟨(h.frontier m).mp hnode, (g.mem_successors m n).mp hsucc⟩
  · rintro ⟨hdist, hedge⟩
    exact ⟨m, (h.frontier m).mpr hdist, List.mem_map.mpr ⟨n, (g.mem_successors m n).mpr hedge, rfl⟩⟩

theorem nodup_sources (h : b.Knows g source target distance) (n : Nat) : (sources (ahead g b) n).Nodup := by
  have hedges : (ahead g b).Nodup := by
    refine List.nodup_flatMap.mpr ⟨fun node _ => ?_, h.nodup_frontier.imp fun hne e hm hm' => ?_⟩
    · exact ((g.successors_sorted node).imp Nat.ne_of_lt).map _ fun _ _ hne heq => hne (Prod.mk.inj heq).2
    · obtain ⟨_, -, rfl⟩ := List.mem_map.mp hm
      obtain ⟨_, -, heq⟩ := List.mem_map.mp hm'
      exact hne (Prod.mk.inj heq).1.symm
  refine (hedges.filter _).map_on fun e he e' he' heq => ?_
  exact Prod.ext heq (by simp_all)

theorem sources_ne_nil_iff (h : b.Knows g source target distance) (n : Nat) :
    sources (ahead g b) n ≠ [] ↔ ∃ m, g.AtDistance source distance m ∧ g.hasEdge m n := by
  simp only [ne_eq, List.eq_nil_iff_forall_not_mem, h.mem_sources, not_forall, not_not]

/-- A node that has not been met is met in the round just if it is one edge farther. -/
theorem sources_ne_nil_iff_of_new (h : b.Knows g source target distance) (hn : b.depth[n]? = none) :
    sources (ahead g b) n ≠ [] ↔ g.AtDistance source (distance + 1) n := by
  rw [h.sources_ne_nil_iff, g.atDistance_succ, and_iff_right ((h.depth_eq_none n).mp hn)]

theorem lt_of_new (h : b.Knows g source target distance) (hn : b.depth[n]? = none)
    (hdist : g.AtDistance source d n) : distance < d := by
  by_contra! hle
  exact (h.depth_eq_none n).mp hn d hle hdist.reaches

theorem not_atDistance_succ (h : b.Knows g source target distance) (hd : b.depth[n]? = some d) :
    ¬ g.AtDistance source (distance + 1) n := by
  intro hfar
  obtain ⟨hle, hdist⟩ := (h.depth n d).mp hd
  exact absurd (hdist.unique hfar) (by omega)

theorem met_round (h : b.Knows g source target distance) :
    b.Met target distance (ahead g b) (g.round target b) := by
  have fresh (n : Nat) (hn : b.depth[n]? = none) : b.predecessors.getD n [] = [] := by
    refine List.eq_nil_iff_forall_not_mem.mpr fun m hm => ?_
    obtain ⟨d, hd, -, hdist, -⟩ := (h.predecessors n m).mp hm
    exact (h.depth_eq_none n).mp hn (d + 1) hd hdist.reaches
  have hstart : b.Met target distance [] { b with frontier := [] } := .start fresh
  have hmet := hstart.foldl_visit (g := g) (fun n d hd => ((h.depth n d).mp hd).1) b.frontier
    fun n hn => (h.depth n distance).mpr ⟨le_rfl, (h.frontier n).mp hn⟩
  rwa [List.nil_append] at hmet

theorem depth_round (h : b.Knows g source target distance) (n d : Nat) :
    (g.round target b).depth[n]? = some d ↔ d ≤ distance + 1 ∧ g.AtDistance source d n := by
  cases hn : b.depth[n]? with
  | none =>
    rw [(h.met_round.new n hn).1]
    constructor
    · intro hd
      split at hd
      next => cases hd
      next hmet =>
        cases hd
        exact ⟨le_rfl, (h.sources_ne_nil_iff_of_new hn).mp hmet⟩
    · rintro ⟨hle, hdist⟩
      obtain rfl : d = distance + 1 := by
        have := h.lt_of_new hn hdist
        omega
      rw [if_neg ((h.sources_ne_nil_iff_of_new hn).mpr hdist)]
  | some d' =>
    obtain ⟨hle, hdist'⟩ := (h.depth n d').mp hn
    rw [(h.met_round.old n d' hn).1, Option.some.injEq]
    constructor
    · rintro rfl
      exact ⟨by omega, hdist'⟩
    · rintro ⟨-, hdist⟩
      exact hdist'.unique hdist

theorem mem_frontier_round (h : b.Knows g source target distance) (n : Nat) :
    n ∈ (g.round target b).frontier ↔ g.AtDistance source (distance + 1) n := by
  rw [h.met_round.frontier]
  constructor
  · rintro ⟨hn, hmet⟩
    exact (h.sources_ne_nil_iff_of_new hn).mp hmet
  · intro hdist
    cases hn : b.depth[n]? with
    | none => exact ⟨rfl, (h.sources_ne_nil_iff_of_new hn).mpr hdist⟩
    | some d => exact absurd hdist (h.not_atDistance_succ hn)

theorem mem_predecessors_round (h : b.Knows g source target distance) (n m : Nat) :
    m ∈ (g.round target b).predecessors.getD n [] ↔
      ∃ d < distance + 1, g.AtDistance source d m ∧ g.AtDistance source (d + 1) n ∧ g.hasEdge m n := by
  cases hn : b.depth[n]? with
  | none =>
    rw [(h.met_round.new n hn).2, h.mem_sources]
    constructor
    · rintro ⟨hm, hedge⟩
      have hmet := (h.sources_ne_nil_iff n).mpr ⟨m, hm, hedge⟩
      exact ⟨distance, by omega, hm, (h.sources_ne_nil_iff_of_new hn).mp hmet, hedge⟩
    · rintro ⟨d, hd, hm, hdist, hedge⟩
      obtain rfl : d = distance := by
        have := h.lt_of_new hn hdist
        omega
      exact ⟨hm, hedge⟩
  | some d' =>
    rw [(h.met_round.old n d' hn).2, h.predecessors]
    constructor
    · rintro ⟨d, hd, hm⟩
      exact ⟨d, by omega, hm⟩
    · rintro ⟨d, hd, hm, hdist, hedge⟩
      by_cases hlast : d = distance
      · exact absurd (hlast ▸ hdist) (h.not_atDistance_succ hn)
      · exact ⟨d, by omega, hm, hdist, hedge⟩

theorem nodup_predecessors_round (h : b.Knows g source target distance) (n : Nat) :
    ((g.round target b).predecessors.getD n []).Nodup := by
  cases hn : b.depth[n]? with
  | none =>
    rw [(h.met_round.new n hn).2]
    exact h.nodup_sources n
  | some d =>
    rw [(h.met_round.old n d hn).2]
    exact h.nodup_predecessors n

/-- A round goes one edge farther. -/
theorem round (h : b.Knows g source target distance) :
    Knows g source target (distance + 1) (g.round target b) where
  depth := h.depth_round
  frontier := h.mem_frontier_round
  nodup_frontier := h.met_round.nodup_frontier
  predecessors := h.mem_predecessors_round
  nodup_predecessors := h.nodup_predecessors_round
  found := by rw [h.met_round.found, h.found, h.sources_ne_nil_iff, Nat.exists_lt_succ_right]

/-- When the rounds have come to an end, they have met the target, or no walk leads to it. -/
theorem found_or_unreachable (h : b.Knows g source target distance) (distinct : source ≠ target)
    (hend : b.frontier.isEmpty || b.found) :
    (b.found ∧ ∃ d ≤ distance, g.AtDistance source d target) ∨
      ¬ b.found ∧ ∀ k, ¬ g.ReachesIn source k target := by
  by_cases hfound : b.found
  · obtain ⟨d, hd, m, hm, hedge⟩ := h.found.mp hfound
    obtain ⟨d', hd', hdist⟩ := ((g.reachesIn_succ source d target).mpr ⟨m, hm.reaches, hedge⟩).exists_atDistance
    exact Or.inl ⟨hfound, d', by omega, hdist⟩
  · refine Or.inr ⟨hfound, fun k hreach => ?_⟩
    obtain ⟨d, -, hdist⟩ := hreach.exists_atDistance
    by_cases hnear : d ≤ distance
    · cases d with
      | zero => exact distinct ((g.atDistance_zero source target).mp hdist).symm
      | succ d =>
        obtain ⟨-, m, hm, hedge⟩ := (g.atDistance_succ source d target).mp hdist
        exact hfound (h.found.mpr ⟨d, hnear, m, hm, hedge⟩)
    · obtain ⟨m, hm⟩ := hdist.exists_nearer (j := distance) (by omega)
      rw [← h.frontier m] at hm
      simp_all

end Knows

theorem knows_discover {distance : Nat} (h : b.Knows g source target distance) :
    ∃ distance', (g.discover target b).Knows g source target distance' ∧
      ((g.discover target b).frontier.isEmpty || (g.discover target b).found) := by
  induction b using Digraph.discover.induct g target generalizing distance with
  | case1 b hend =>
    rw [Digraph.discover, if_pos hend]
    exact ⟨distance, h, hend⟩
  | case2 b hgo ih =>
    rw [Digraph.discover, if_neg hgo]
    exact ih h.round

end PolicyAnalysis.Discovery
