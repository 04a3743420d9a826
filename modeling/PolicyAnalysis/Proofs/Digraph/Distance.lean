import PolicyAnalysis.Proofs.Digraph.Walk

/-!
# Distances

The distance of a node from a source is the least number of edges of a walk to it. The nodes at a distance
of `k + 1` are those with an edge from a node at the distance `k` that no shorter walk reaches, and a walk
that is as short as the distance meets no node twice.
-/

namespace PolicyAnalysis.Digraph

variable {ε : Type} {g : Digraph ε} {s : Nat}

/-- A walk with `k` edges leads to the node. -/
def ReachesIn (g : Digraph ε) (s k n : Nat) : Prop :=
  ∃ path, g.Walk s n path ∧ path.length = k + 1

structure AtDistance (g : Digraph ε) (s k n : Nat) : Prop where
  reaches : g.ReachesIn s k n
  least : ∀ j < k, ¬ g.ReachesIn s j n

theorem Walk.eq_of_length_eq_one {n : Nat} {path : List Nat} (h : g.Walk s n path)
    (hlen : path.length = 1) : path = [s] ∧ n = s := by
  obtain ⟨a, rfl⟩ := List.length_eq_one_iff.mp hlen
  obtain ⟨head, last, -⟩ := h
  cases head
  cases last
  exact ⟨rfl, rfl⟩

theorem Walk.exists_concat {n k : Nat} {path : List Nat} (h : g.Walk s n path)
    (hlen : path.length = k + 2) :
    ∃ front m, path = front ++ [m, n] ∧ (front ++ [m]).length = k + 1 ∧ g.Walk s m (front ++ [m]) ∧
      g.hasEdge m n := by
  obtain ⟨whole, rfl⟩ := List.getLast?_eq_some_iff.mp h.last
  obtain ⟨front, m, rfl⟩ := List.eq_nil_or_concat whole |>.resolve_left (by rintro rfl; simp at hlen)
  simp only [List.concat_eq_append, List.append_assoc, List.singleton_append] at h hlen ⊢
  obtain ⟨hwalk, hedge⟩ := Walk.concat_iff.mp h
  refine ⟨front, m, rfl, ?_, hwalk, hedge⟩
  simp only [List.length_append, List.length_cons, List.length_nil] at hlen ⊢
  omega

theorem reachesIn_zero (g : Digraph ε) (s n : Nat) : g.ReachesIn s 0 n ↔ n = s := by
  constructor
  · rintro ⟨path, hwalk, hlen⟩
    exact (hwalk.eq_of_length_eq_one hlen).2
  · rintro rfl
    exact ⟨[n], .singleton g n, rfl⟩

theorem reachesIn_succ (g : Digraph ε) (s k n : Nat) :
    g.ReachesIn s (k + 1) n ↔ ∃ m, g.ReachesIn s k m ∧ g.hasEdge m n := by
  constructor
  · rintro ⟨path, hwalk, hlen⟩
    obtain ⟨front, m, -, hfront, hwalk', hedge⟩ := hwalk.exists_concat hlen
    exact ⟨m, ⟨_, hwalk', hfront⟩, hedge⟩
  · rintro ⟨m, ⟨path, hwalk, hlen⟩, hedge⟩
    obtain ⟨front, rfl⟩ := List.getLast?_eq_some_iff.mp hwalk.last
    refine ⟨front ++ [m, n], Walk.concat_iff.mpr ⟨hwalk, hedge⟩, ?_⟩
    simp only [List.length_append, List.length_cons, List.length_nil] at hlen ⊢
    omega

theorem ReachesIn.hasNode (reachable : g.Reachable) (hs : g.hasNode s) {k n : Nat} (h : g.ReachesIn s k n) :
    g.hasNode n := by
  obtain ⟨path, hwalk, -⟩ := h
  exact hwalk.hasNode_of_mem reachable hs (List.mem_of_getLast? hwalk.last)

theorem atDistance_zero (g : Digraph ε) (s n : Nat) : g.AtDistance s 0 n ↔ n = s := by
  constructor
  · rintro ⟨reaches, -⟩
    exact (g.reachesIn_zero s n).mp reaches
  · intro h
    exact ⟨(g.reachesIn_zero s n).mpr h, fun j hj => absurd hj (Nat.not_lt_zero j)⟩

/-- The node before the last on a shortest walk is one step nearer. -/
theorem AtDistance.of_edge {k m n : Nat} (h : g.AtDistance s (k + 1) n) (reaches : g.ReachesIn s k m)
    (edge : g.hasEdge m n) : g.AtDistance s k m := by
  refine ⟨reaches, fun j hj hm => ?_⟩
  exact h.least (j + 1) (by omega) ((g.reachesIn_succ s j n).mpr ⟨m, hm, edge⟩)

theorem atDistance_succ (g : Digraph ε) (s k n : Nat) :
    g.AtDistance s (k + 1) n ↔
      (∀ j ≤ k, ¬ g.ReachesIn s j n) ∧ ∃ m, g.AtDistance s k m ∧ g.hasEdge m n := by
  constructor
  · intro h
    obtain ⟨m, hm, hedge⟩ := (g.reachesIn_succ s k n).mp h.reaches
    exact ⟨fun j hj => h.least j (by omega), m, h.of_edge hm hedge, hedge⟩
  · rintro ⟨hnew, m, hm, hedge⟩
    exact ⟨(g.reachesIn_succ s k n).mpr ⟨m, hm.reaches, hedge⟩, fun j hj => hnew j (by omega)⟩

theorem AtDistance.unique {j k n : Nat} (hj : g.AtDistance s j n) (hk : g.AtDistance s k n) : j = k := by
  have h₁ : ¬ j < k := fun hlt => hk.least j hlt hj.reaches
  have h₂ : ¬ k < j := fun hlt => hj.least k hlt hk.reaches
  omega

theorem ReachesIn.exists_atDistance {k n : Nat} (h : g.ReachesIn s k n) : ∃ d ≤ k, g.AtDistance s d n := by
  induction k using Nat.strong_induction_on with
  | _ k ih =>
    by_cases hleast : ∀ j < k, ¬ g.ReachesIn s j n
    · exact ⟨k, le_rfl, h, hleast⟩
    · push Not at hleast
      obtain ⟨j, hj, hreach⟩ := hleast
      obtain ⟨d, hd, hdist⟩ := ih j hj hreach
      exact ⟨d, by omega, hdist⟩

/-- On the way to a node there are nodes at every smaller distance. -/
theorem AtDistance.exists_nearer {k n : Nat} (h : g.AtDistance s k n) {j : Nat} (hj : j ≤ k) :
    ∃ m, g.AtDistance s j m := by
  induction k generalizing n with
  | zero =>
    obtain rfl : j = 0 := by omega
    exact ⟨n, h⟩
  | succ k ih =>
    by_cases heq : j = k + 1
    · exact ⟨n, heq ▸ h⟩
    · obtain ⟨-, m, hm, -⟩ := (g.atDistance_succ s k n).mp h
      exact ih hm (by omega)

theorem Walk.reachesIn_of_mem {k n x : Nat} {path : List Nat} (h : g.Walk s n path)
    (hlen : path.length = k + 1) (hx : x ∈ path) : ∃ j ≤ k, g.ReachesIn s j x := by
  induction k generalizing n path with
  | zero =>
    obtain ⟨rfl, -⟩ := h.eq_of_length_eq_one hlen
    exact ⟨0, le_rfl, (g.reachesIn_zero s x).mpr (List.mem_singleton.mp hx)⟩
  | succ k ih =>
    obtain ⟨front, m, rfl, hfront, hwalk, -⟩ := h.exists_concat hlen
    have hcases : x ∈ front ++ [m] ∨ x = n := by simpa [or_assoc] using hx
    rcases hcases with hx | rfl
    · obtain ⟨j, hj, hreach⟩ := ih hwalk hfront hx
      exact ⟨j, by omega, hreach⟩
    · exact ⟨k + 1, le_rfl, _, h, hlen⟩

/-- A walk that is as short as the distance meets no node twice. -/
theorem AtDistance.nodup {k n : Nat} (hdist : g.AtDistance s k n) {path : List Nat} (h : g.Walk s n path)
    (hlen : path.length = k + 1) : path.Nodup := by
  induction k generalizing n path with
  | zero =>
    rw [(h.eq_of_length_eq_one hlen).1]
    exact List.nodup_singleton s
  | succ k ih =>
    obtain ⟨front, m, rfl, hfront, hwalk, hedge⟩ := h.exists_concat hlen
    have hm := hdist.of_edge ⟨_, hwalk, hfront⟩ hedge
    have hnew : n ∉ front ++ [m] := by
      intro hmem
      obtain ⟨j, hj, hreach⟩ := hwalk.reachesIn_of_mem hfront hmem
      exact hdist.least j (by omega) hreach
    rw [show front ++ [m, n] = (front ++ [m]) ++ [n] by simp, List.nodup_append]
    refine ⟨ih hm hwalk hfront, List.nodup_singleton n, ?_⟩
    rintro a ha b hb rfl
    exact hnew (List.mem_singleton.mp hb ▸ ha)

end PolicyAnalysis.Digraph
