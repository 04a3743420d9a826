import PolicyAnalysis.Digraph.Basic

/-!
# Search in rounds

The search goes from a node in rounds, one for each number of edges, until a round meets the target. It keeps for
each node the nodes from which it was met in the round of its depth. A node that is met for the first time leaves
fewer edges to nodes that have not been met, so the rounds come to an end, and each node was met from nodes one edge
nearer to the source.
-/

namespace PolicyAnalysis

/-- How far the search in rounds has come. -/
structure Discovery where
  /-- The number of edges from the source to each node that has been met. -/
  depth : Std.ExtTreeMap Nat Nat
  /-- The nodes from which a node was met, in the order in which these were visited. -/
  predecessors : Std.ExtTreeMap Nat (List Nat)
  /-- The nodes that have been met but not visited. -/
  frontier : List Nat
  found : Bool

namespace Discovery

def start (source : Nat) : Discovery :=
  ⟨.ofList [(source, 0)], ∅, [source], false⟩

/-- Records that a successor has been met from a node. -/
def record (node level : Nat) (b : Discovery) (succ : Nat) : Discovery :=
  match b.depth[succ]? with
  | none =>
    { b with
      depth := b.depth.insert succ (level + 1)
      predecessors := b.predecessors.insert succ [node]
      frontier := b.frontier ++ [succ] }
  | some d =>
    -- A round may come to a node by several ways.
    if d = level + 1 then
      { b with predecessors := b.predecessors.alter succ fun l => some (l.getD [] ++ [node]) }
    else b

def meet (target node level : Nat) (b : Discovery) (succ : Nat) : Discovery :=
  let met := b.record node level succ
  if succ = target then { met with found := true } else met

end Discovery

namespace Digraph

variable {ε : Type} (g : Digraph ε) (target : Nat)

def visit (b : Discovery) (node : Nat) : Discovery :=
  (g.successors node).foldl (.meet target node (b.depth.getD node 0)) b

def round (b : Discovery) : Discovery :=
  b.frontier.foldl (g.visit target) { b with frontier := [] }

def unmet (b : Discovery) : List ((Nat × Nat) × ε) :=
  g.edges.filter fun e => !b.depth.contains e.1.2

end Digraph

namespace Discovery

/-- What has been met stays so, with its depth, and each new node of the frontier is one that had not been met. -/
structure Grows {ε : Type} (g : Digraph ε) (b b' : Discovery) : Prop where
  depth : ∀ n d : Nat, b.depth[n]? = some d → b'.depth[n]? = some d
  unmet : (g.unmet b').length + b'.frontier.length ≤ (g.unmet b).length + b.frontier.length

/-- A node was met from nodes one edge nearer to the source. -/
structure Ranked (b : Discovery) : Prop where
  frontier : ∀ n ∈ b.frontier, ∃ d : Nat, b.depth[n]? = some d
  predecessors : ∀ n : Nat, ∀ m ∈ b.predecessors.getD n [],
    ∃ d : Nat, b.depth[m]? = some d ∧ b.depth[n]? = some (d + 1)

variable {ε : Type} {g : Digraph ε} {b b' b'' : Discovery} {target node level succ : Nat}

theorem Grows.refl (b : Discovery) : b.Grows g b :=
  ⟨fun _ _ h => h, Nat.le_refl _⟩

theorem Grows.trans (h : b.Grows g b') (h' : b'.Grows g b'') : b.Grows g b'' :=
  ⟨fun n d hd => h'.depth n d (h.depth n d hd), Nat.le_trans h'.unmet h.unmet⟩

theorem ranked_start (source : Nat) : (start source).Ranked := by
  refine ⟨fun n hn => ⟨0, ?_⟩, fun n m hm => ?_⟩
  · rw [List.mem_singleton.mp hn]
    simp [start]
  · simp [start] at hm

theorem Ranked.descends (h : b.Ranked) (node : Nat) :
    ∀ previous ∈ b.predecessors.getD node [], b.depth.getD previous 0 + 1 = b.depth.getD node 0 := by
  intro previous hprevious
  obtain ⟨d, hd, hnode⟩ := h.predecessors node previous hprevious
  rw [Std.ExtTreeMap.getD_eq_getD_getElem?, Std.ExtTreeMap.getD_eq_getD_getElem?, hd, hnode]
  rfl

theorem getElem?_insert_of_none {depth : Std.ExtTreeMap Nat Nat} {n d : Nat} (hnew : depth[succ]? = none)
    (hd : depth[n]? = some d) : (depth.insert succ level)[n]? = some d := by
  rw [Std.ExtTreeMap.getElem?_insert, if_neg]
  · exact hd
  · rw [Nat.compare_eq_eq]
    rintro rfl
    cases hnew.symm.trans hd

theorem record_cases (node level : Nat) (b : Discovery) (succ : Nat) :
    (b.depth[succ]? = none ∧ b.record node level succ =
      { b with
        depth := b.depth.insert succ (level + 1)
        predecessors := b.predecessors.insert succ [node]
        frontier := b.frontier ++ [succ] }) ∨
    (b.depth[succ]? = some (level + 1) ∧ b.record node level succ =
      { b with predecessors := b.predecessors.alter succ fun l => some (l.getD [] ++ [node]) }) ∨
    (∃ d, b.depth[succ]? = some d ∧ d ≠ level + 1) ∧ b.record node level succ = b := by
  rw [record]
  split
  next hnew => exact Or.inl ⟨hnew, rfl⟩
  next d hd =>
    by_cases hlevel : d = level + 1
    · rw [if_pos hlevel, ← hlevel]
      exact Or.inr (Or.inl ⟨hd, rfl⟩)
    · rw [if_neg hlevel]
      exact Or.inr (Or.inr ⟨⟨d, hd, hlevel⟩, rfl⟩)

theorem meet_depth : (b.meet target node level succ).depth = (b.record node level succ).depth := by
  rw [meet]
  split <;> rfl

theorem meet_predecessors :
    (b.meet target node level succ).predecessors = (b.record node level succ).predecessors := by
  rw [meet]
  split <;> rfl

theorem meet_frontier : (b.meet target node level succ).frontier = (b.record node level succ).frontier := by
  rw [meet]
  split <;> rfl

/-- The edge to a node that is met for the first time is not counted any more. -/
theorem length_unmet_lt (hnew : b.depth[succ]? = none) (hsucc : succ ∈ g.successors node)
    (hdepth : b'.depth = b.depth.insert succ level) : (g.unmet b').length < (g.unmet b).length := by
  have hfilter : g.unmet b' = (g.unmet b).filter fun e => e.1.2 != succ := by
    rw [Digraph.unmet, Digraph.unmet, List.filter_filter, hdepth]
    congr 1
    funext e
    rw [Std.ExtTreeMap.contains_insert, Bool.not_or]
    congr 2
    rw [Bool.eq_iff_iff, beq_iff_eq, beq_iff_eq, Nat.compare_eq_eq, eq_comm]
  obtain ⟨e, he⟩ := (g.hasEdge_iff node succ).mp ((g.mem_successors node succ).mp hsucc)
  rw [hfilter, List.length_filter_lt_length_iff_exists]
  refine ⟨((node, succ), e), List.mem_filter.mpr ⟨g.mem_edges.mpr he, ?_⟩, by simp⟩
  simp [Std.ExtTreeMap.contains_eq_isSome_getElem?, hnew]

theorem grows_meet (hsucc : succ ∈ g.successors node) : b.Grows g (b.meet target node level succ) := by
  have hunmet : g.unmet (b.meet target node level succ) = g.unmet (b.record node level succ) := by
    rw [Digraph.unmet, Digraph.unmet, meet_depth]
  suffices h : b.Grows g (b.record node level succ) from
    ⟨meet_depth ▸ h.depth, by rw [hunmet, meet_frontier]; exact h.unmet⟩
  rcases b.record_cases node level succ with ⟨hnew, heq⟩ | ⟨-, heq⟩ | ⟨-, heq⟩
  · have hlt : (g.unmet (b.record node level succ)).length < (g.unmet b).length :=
      length_unmet_lt hnew hsucc (congrArg Discovery.depth heq)
    refine ⟨fun n d hd => ?_, ?_⟩
    · rw [heq]
      exact getElem?_insert_of_none hnew hd
    · rw [show (b.record node level succ).frontier = b.frontier ++ [succ] from congrArg Discovery.frontier heq,
        List.length_append, List.length_singleton]
      omega
  · rw [heq]
    exact ⟨fun _ _ hd => hd, Nat.le_refl _⟩
  · rw [heq]
    exact .refl b

theorem ranked_meet (h : b.Ranked) (hnode : b.depth[node]? = some level) :
    (b.meet target node level succ).Ranked := by
  suffices h : (b.record node level succ).Ranked from
    ⟨by rw [meet_frontier, meet_depth]; exact h.frontier, by rw [meet_predecessors, meet_depth]; exact h.predecessors⟩
  rcases b.record_cases node level succ with ⟨hnew, heq⟩ | ⟨hmet, heq⟩ | ⟨-, heq⟩
  · rw [heq]
    constructor
    · intro n hn
      rcases List.mem_append.mp hn with hn | hn
      · obtain ⟨d, hd⟩ := h.frontier n hn
        exact ⟨d, getElem?_insert_of_none hnew hd⟩
      · exact ⟨level + 1, by simp [List.mem_singleton.mp hn]⟩
    · intro n m hm
      rw [Std.ExtTreeMap.getD_insert] at hm
      split at hm
      next hn =>
        cases List.mem_singleton.mp hm
        rw [Nat.compare_eq_eq] at hn
        exact ⟨level, getElem?_insert_of_none hnew hnode, by simp [hn]⟩
      next =>
        obtain ⟨d, hdm, hdn⟩ := h.predecessors n m hm
        exact ⟨d, getElem?_insert_of_none hnew hdm, getElem?_insert_of_none hnew hdn⟩
  · rw [heq]
    refine ⟨h.frontier, fun n m hm => ?_⟩
    rw [Std.ExtTreeMap.getD_alter] at hm
    split at hm
    next hn =>
      rw [Nat.compare_eq_eq] at hn
      subst hn
      rw [Option.getD_some, List.mem_append, ← Std.ExtTreeMap.getD_eq_getD_getElem?] at hm
      rcases hm with hm | hm
      · exact h.predecessors succ m hm
      · cases List.mem_singleton.mp hm
        exact ⟨level, hnode, hmet⟩
    next => exact h.predecessors n m hm
  · rw [heq]
    exact h

theorem grows_visit (b : Discovery) (target node : Nat) : b.Grows g (g.visit target b node) :=
  List.foldlRecOn _ _ (.refl b) fun _ h _ hsucc => h.trans (grows_meet hsucc)

theorem ranked_visit (h : b.Ranked) (hnode : ∃ d : Nat, b.depth[node]? = some d) :
    (g.visit target b node).Ranked := by
  obtain ⟨d, hd⟩ := hnode
  have hlevel : b.depth.getD node 0 = d := by rw [Std.ExtTreeMap.getD_eq_getD_getElem?, hd, Option.getD_some]
  refine (List.foldlRecOn (motive := fun b' => b.Grows g b' ∧ b'.Ranked) _ _ ⟨.refl b, h⟩ ?_).2
  rintro b' ⟨hgrows, hranked⟩ succ hsucc
  exact ⟨hgrows.trans (grows_meet hsucc), ranked_meet hranked (hlevel ▸ hgrows.depth node d hd)⟩

theorem grows_round (b : Discovery) (target : Nat) :
    Grows g { b with frontier := [] } (g.round target b) :=
  List.foldlRecOn _ _ (.refl _) fun b' h node _ => h.trans (b'.grows_visit target node)

theorem ranked_round (h : b.Ranked) : (g.round target b).Ranked := by
  refine (List.foldlRecOn
    (motive := fun b' => Grows g { b with frontier := [] } b' ∧ b'.Ranked) _ _ ⟨.refl _, ?_⟩ ?_).2
  · exact ⟨fun _ hn => absurd hn List.not_mem_nil, h.predecessors⟩
  · rintro b' ⟨hgrows, hranked⟩ node hnode
    obtain ⟨d, hd⟩ := h.frontier node hnode
    exact ⟨hgrows.trans (b'.grows_visit target node), ranked_visit hranked ⟨d, hgrows.depth node d hd⟩⟩

end Discovery

namespace Digraph

variable {ε : Type} (g : Digraph ε) (target : Nat)

/-- Goes on until the target has been met or there is nothing left to visit. -/
def discover (b : Discovery) : Discovery :=
  if b.frontier.isEmpty || b.found then b else discover (g.round target b)
termination_by (g.unmet b).length + b.frontier.length
decreasing_by
  rename_i hgo
  have hle := (b.grows_round target (g := g)).unmet
  have hpos : 0 < b.frontier.length := List.length_pos_iff.mpr fun hnil => hgo (by simp [hnil])
  have heq : g.unmet { b with frontier := [] } = g.unmet b := rfl
  rw [heq, List.length_nil] at hle
  omega

theorem ranked_discover {b : Discovery} (h : b.Ranked) : (g.discover target b).Ranked := by
  induction b using discover.induct g target with
  | case1 b hend =>
    rw [discover, if_pos hend]
    exact h
  | case2 b hgo ih =>
    rw [discover, if_neg hgo]
    exact ih (Discovery.ranked_round h)

end Digraph

end PolicyAnalysis
