import PolicyAnalysis.Digraph.Route
import PolicyAnalysis.Proofs.Digraph.ShortestPaths

/-!
# Graphs that mirror each other

Two graphs mirror each other if they have the same edges the other way round. The paths of one are then those
of the other backwards, so searches from either end find the same.
-/

namespace PolicyAnalysis

variable {ε : Type}

def Step.ends (x : Step ε) : Nat × Nat :=
  (x.source, x.target)

namespace Digraph

variable {g h : Digraph ε} {s t : Nat} {nodes : List Nat}

def Mirrors (g h : Digraph ε) : Prop :=
  ∀ s t, h.edge? s t = g.edge? t s

namespace Mirrors

theorem symm (m : g.Mirrors h) : h.Mirrors g :=
  fun s t => (m t s).symm

theorem hasEdge_iff (m : g.Mirrors h) (s t : Nat) : h.hasEdge s t ↔ g.hasEdge t s := by
  rw [hasEdge, hasEdge, m]

theorem simplePath_reverse (m : g.Mirrors h) (path : g.SimplePath s t nodes) :
    h.SimplePath t s nodes.reverse where
  head := by rw [List.head?_reverse, path.last]
  last := by rw [List.getLast?_reverse, path.head]
  edges := by
    rw [List.isChain_reverse]
    apply path.edges.imp
    intro a b edge
    exact (m.hasEdge_iff b a).mpr edge
  nodup := List.nodup_reverse.mpr path.nodup
  two_le_length := by
    rw [List.length_reverse]
    exact path.two_le_length

theorem simplePath_reverse_iff (m : g.Mirrors h) : h.SimplePath t s nodes.reverse ↔ g.SimplePath s t nodes := by
  constructor
  · intro path
    have back := m.symm.simplePath_reverse path
    rwa [List.reverse_reverse] at back
  · exact m.simplePath_reverse

theorem mem_simplePaths_iff (m : g.Mirrors h) (hg : g.Reachable) (hh : h.Reachable) (s t : Nat)
    (limit : Option Nat) (nodes : List Nat) :
    nodes.reverse ∈ (h.simplePaths t s limit).toList ↔ nodes ∈ (g.simplePaths s t limit).toList := by
  rw [mem_simplePaths hh, mem_simplePaths hg, m.simplePath_reverse_iff, List.length_reverse]

theorem mem_shortestPaths_iff (m : g.Mirrors h) (hg : g.Reachable) (hh : h.Reachable) (s t : Nat)
    (nodes : List Nat) :
    nodes.reverse ∈ (h.shortestPaths t s).toList ↔ nodes ∈ (g.shortestPaths s t).toList := by
  rw [mem_shortestPaths hh, mem_shortestPaths hg, m.simplePath_reverse_iff, List.length_reverse]
  refine and_congr_right fun _ => ?_
  constructor
  · intro hleast other path
    have hle := hleast other.reverse (m.simplePath_reverse path)
    rwa [List.length_reverse] at hle
  · intro hleast other path
    have hle := hleast other.reverse (m.symm.simplePath_reverse path)
    rwa [List.length_reverse] at hle

end Mirrors

theorem zip_tail_concat (front : List Nat) (u t : Nat) :
    (front ++ [u, t]).zip (front ++ [u, t]).tail = (front ++ [u]).zip (front ++ [u]).tail ++ [(u, t)] := by
  induction front with
  | nil => rfl
  | cons a front ih =>
    cases front with
    | nil => rfl
    | cons b front => exact congrArg (fun pairs => (a, b) :: pairs) ih

theorem zip_tail_reverse (nodes : List Nat) :
    nodes.reverse.zip nodes.reverse.tail = ((nodes.zip nodes.tail).map Prod.swap).reverse := by
  induction nodes with
  | nil => rfl
  | cons a nodes ih =>
    cases nodes with
    | nil => rfl
    | cons b nodes =>
      have hsplit : (a :: b :: nodes).reverse = nodes.reverse ++ [b, a] := by simp
      have hrest : nodes.reverse ++ [b] = (b :: nodes).reverse := by simp
      rw [hsplit, zip_tail_concat, hrest, ih]
      simp

/-- Along the edges of a graph, no step is left out of a route. -/
theorem map_ends_route (edges : nodes.IsChain fun a b => g.hasEdge a b) :
    (g.route nodes).map Step.ends = nodes.zip nodes.tail := by
  induction nodes with
  | nil => rfl
  | cons a nodes ih =>
    cases nodes with
    | nil => rfl
    | cons b nodes =>
      obtain ⟨edge, edges⟩ := List.isChain_cons_cons.mp edges
      obtain ⟨e, he⟩ := (g.hasEdge_iff a b).mp edge
      have hstep : g.step? (a, b) = some ⟨a, b, e⟩ := by rw [step?, he]; rfl
      have hroute : g.route (a :: b :: nodes) = ⟨a, b, e⟩ :: g.route (b :: nodes) :=
        List.filterMap_cons_some hstep
      rw [hroute, List.map_cons, ih edges]
      rfl

theorem Mirrors.step?_swap (m : g.Mirrors h) (ends : Nat × Nat) :
    h.step? ends.swap = (g.step? ends).map Step.turned := by
  have hedge : h.edge? ends.2 ends.1 = g.edge? ends.1 ends.2 := m ends.2 ends.1
  rw [step?, step?, Prod.fst_swap, Prod.snd_swap, hedge, Option.map_map]
  rfl

theorem Mirrors.route_reverse (m : g.Mirrors h) (nodes : List Nat) :
    h.route nodes.reverse = ((g.route nodes).map Step.turned).reverse := by
  have hswap : (h.step? ∘ Prod.swap) = fun ends => (g.step? ends).map Step.turned := funext m.step?_swap
  rw [route, route, zip_tail_reverse, List.filterMap_reverse, List.filterMap_map, hswap, List.map_filterMap]

theorem eq_of_zip_tail_eq {nodes' : List Nat} (hlen : 2 ≤ nodes.length) (hlen' : 2 ≤ nodes'.length)
    (h : nodes.zip nodes.tail = nodes'.zip nodes'.tail) : nodes = nodes' := by
  match nodes, nodes', hlen, hlen' with
  | a :: b :: rest, a' :: b' :: rest', _, _ =>
    have htail (a : Nat) (rest : List Nat) : ((a :: rest).zip rest).map Prod.snd = rest :=
      List.map_snd_zip (by simp)
    have hrest : b :: rest = b' :: rest' := by
      rw [← htail a (b :: rest), ← htail a' (b' :: rest')]
      exact congrArg (List.map Prod.snd) h
    have hhead : (a, b) = (a', b') := (List.cons_eq_cons.mp h).1
    rw [hrest, (Prod.mk.inj hhead).1]

/-- The steps of a path are those from each node of a list to the next. -/
def Follows (nodes : List Nat) (path : List (Step ε)) : Prop :=
  path.map Step.ends = nodes.zip nodes.tail

/-- The steps of a path lead from one node to another, each from where the one before has led. -/
structure Joins (s t : Nat) (path : List (Step ε)) : Prop where
  first : path.head?.map Step.source = some s
  last : path.getLast?.map Step.target = some t
  links : path.IsChain fun x y => x.target = y.source

theorem Follows.joins {path : List (Step ε)} (follows : Follows nodes path) (hlen : 2 ≤ nodes.length)
    (head : nodes.head? = some s) (last : nodes.getLast? = some t) : Joins s t path := by
  induction nodes generalizing s path with
  | nil => cases head
  | cons a nodes ih =>
    cases head
    match nodes, path, hlen with
    | [b], [x], _ =>
      have hends : x.ends = (a, b) := (List.cons_eq_cons.mp follows).1
      have hsource : x.source = a := congrArg Prod.fst hends
      have htarget : x.target = b := congrArg Prod.snd hends
      exact ⟨congrArg some hsource, (congrArg some htarget).trans last, .singleton x⟩
    | b :: c :: rest, x :: path, _ =>
      obtain ⟨hends, hrest⟩ := List.cons_eq_cons.mp follows
      have hjoins : Joins b t path := ih hrest (by simp) rfl (List.getLast?_cons_cons.symm.trans last)
      have hsource : x.source = a := congrArg Prod.fst hends
      have htarget : x.target = b := congrArg Prod.snd hends
      cases path with
      | nil => cases hrest
      | cons y path =>
        refine ⟨congrArg some hsource, ?_, ?_⟩
        · rw [List.getLast?_cons_cons]
          exact hjoins.last
        · have hlink : x.target = y.source := htarget.trans (Option.some.inj hjoins.first).symm
          exact List.isChain_cons_cons.mpr ⟨hlink, hjoins.links⟩

/-- Two lists of paths that are the same read from either end. Each path follows the nodes that a search has
found for it, from one node to another or back from there. -/
structure Mirrored (s t : Nat) (nodes back : List (List Nat)) (paths backPaths : List (List (Step ε))) :
    Prop where
  nodup : paths.Nodup
  nodup_back : backPaths.Nodup
  reverse_mem_iff : ∀ path, path.reverse ∈ backPaths ↔ path ∈ paths
  follows : List.Forall₂ Follows nodes paths
  follows_back : List.Forall₂ (fun nodes path => Follows nodes.reverse path.reverse) back backPaths
  joins : ∀ path ∈ paths, Joins s t path

theorem Mirrors.map_turned_route (m : g.Mirrors h) (nodes : List Nat) :
    (h.route nodes).map Step.turned = (g.route nodes.reverse).reverse := by
  have hturned : Step.turned ∘ Step.turned = (id : Step ε → Step ε) := rfl
  have hroute := m.route_reverse nodes.reverse
  rw [List.reverse_reverse] at hroute
  rw [hroute, List.map_reverse, List.map_map, hturned, List.map_id]

theorem SimplePath.follows (path : g.SimplePath s t nodes) : Follows nodes (g.route nodes) :=
  map_ends_route path.edges

theorem route_injOn {nodes' : List Nat} (path : g.SimplePath s t nodes) (path' : g.SimplePath s t nodes')
    (hroute : g.route nodes = g.route nodes') : nodes = nodes' := by
  apply eq_of_zip_tail_eq path.two_le_length path'.two_le_length
  rw [← path.follows, ← path'.follows, hroute]

theorem Mirrors.mirrored (m : g.Mirrors h) {found back : List (List Nat)} (hfound : found.Nodup)
    (hback : back.Nodup) (hpath : ∀ nodes ∈ found, g.SimplePath s t nodes)
    (hmem : ∀ nodes, nodes.reverse ∈ back ↔ nodes ∈ found) :
    Mirrored s t found back (found.map g.route) (back.map fun nodes => (h.route nodes).map Step.turned) := by
  have hreverse {nodes : List Nat} (hnodes : nodes ∈ back) : nodes.reverse ∈ found := by
    rw [← hmem, List.reverse_reverse]
    exact hnodes
  simp only [m.map_turned_route]
  constructor
  case nodup =>
    apply hfound.map_on
    intro nodes hnodes nodes' hnodes' hroute
    exact route_injOn (hpath nodes hnodes) (hpath nodes' hnodes') hroute
  case nodup_back =>
    apply hback.map_on
    intro nodes hnodes nodes' hnodes' hroute
    have hsame := route_injOn (hpath _ (hreverse hnodes)) (hpath _ (hreverse hnodes'))
      (List.reverse_injective hroute)
    exact List.reverse_injective hsame
  case reverse_mem_iff =>
    intro path
    rw [List.mem_map, List.mem_map]
    constructor
    · intro ⟨nodes, hnodes, hroute⟩
      exact ⟨nodes.reverse, hreverse hnodes, List.reverse_injective hroute⟩
    · intro ⟨nodes, hnodes, hroute⟩
      refine ⟨nodes.reverse, (hmem nodes).mpr hnodes, ?_⟩
      rw [List.reverse_reverse, hroute]
  case follows =>
    rw [List.forall₂_map_right_iff, List.forall₂_same]
    intro nodes hnodes
    exact (hpath nodes hnodes).follows
  case follows_back =>
    rw [List.forall₂_map_right_iff, List.forall₂_same]
    intro nodes hnodes
    rw [List.reverse_reverse]
    exact (hpath _ (hreverse hnodes)).follows
  case joins =>
    intro path hmem
    obtain ⟨nodes, hnodes, rfl⟩ := List.mem_map.mp hmem
    have hsimple := hpath nodes hnodes
    exact hsimple.follows.joins hsimple.two_le_length hsimple.head hsimple.last

theorem step?_eq_some_iff {ends : Nat × Nat} {x : Step ε} :
    g.step? ends = some x ↔ x.ends = ends ∧ g.edge? ends.1 ends.2 = some x.edge := by
  rw [step?, Option.map_eq_some_iff]
  constructor
  · intro ⟨e, he, hx⟩
    subst hx
    exact ⟨rfl, he⟩
  · intro ⟨hends, hedge⟩
    subst hends
    exact ⟨x.edge, hedge, rfl⟩

theorem mem_stepsAt_out {n : Nat} {x : Step ε} :
    x ∈ g.stepsAt n .out ↔ x.source = n ∧ g.edge? x.source x.target = some x.edge := by
  rw [stepsAt, adjacent, List.mem_filterMap]
  constructor
  · intro ⟨ends, hends, hstep⟩
    obtain ⟨t, -, rfl⟩ := List.mem_map.mp hends
    obtain ⟨hx, hedge⟩ := step?_eq_some_iff.mp hstep
    have hsource : x.source = n := congrArg Prod.fst hx
    have htarget : x.target = t := congrArg Prod.snd hx
    rw [hsource, htarget]
    exact ⟨rfl, hedge⟩
  · intro ⟨hsource, hedge⟩
    have hsome : g.hasEdge n x.target := (g.hasEdge_iff n x.target).mpr ⟨x.edge, hsource ▸ hedge⟩
    have hends : (n, x.target) ∈ (g.successors n).map fun t => (n, t) :=
      List.mem_map.mpr ⟨x.target, (g.mem_successors n x.target).mpr hsome, rfl⟩
    exact ⟨(n, x.target), hends, step?_eq_some_iff.mpr ⟨congrArg (·, x.target) hsource, hsource ▸ hedge⟩⟩

theorem nodup_stepsAt_out (g : Digraph ε) (n : Nat) : (g.stepsAt n .out).Nodup := by
  have hsuccessors : (g.successors n).Nodup := (g.successors_sorted n).imp Nat.ne_of_lt
  have hadjacent : (g.adjacent n .out).Nodup := hsuccessors.map fun _ _ h => congrArg Prod.snd h
  apply hadjacent.filterMap
  intro ends ends' x hx hx'
  obtain ⟨hends, -⟩ := step?_eq_some_iff.mp hx
  obtain ⟨hends', -⟩ := step?_eq_some_iff.mp hx'
  rw [← hends, ← hends']

theorem Mirrors.mem_map_turned_stepsAt_out (m : g.Mirrors h) {n : Nat} {x : Step ε} :
    x ∈ (h.stepsAt n .out).map Step.turned ↔ x.target = n ∧ x ∈ g.stepsAt x.source .out := by
  have hturned : Function.Involutive (Step.turned : Step ε → Step ε) := fun _ => rfl
  have hmem : x ∈ (h.stepsAt n .out).map Step.turned ↔ x.turned ∈ h.stepsAt n .out := by
    exact List.mem_map_of_involutive hturned
  have hedge : h.edge? x.turned.source x.turned.target = g.edge? x.source x.target := m x.target x.source
  rw [hmem, mem_stepsAt_out, mem_stepsAt_out, hedge]
  simp [Step.turned]

end Digraph

end PolicyAnalysis
