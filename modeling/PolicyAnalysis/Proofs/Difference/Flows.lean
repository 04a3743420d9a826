import PolicyAnalysis.Proofs.Difference.Agreement
import PolicyAnalysis.Proofs.Difference.Respelling
import PolicyAnalysis.Proofs.Flow.Rights
import PolicyAnalysis.Proofs.Survey.Answers

/-!
# No difference, no difference in flows

Where a comparison of two policies finds nothing, the same information flows in both. The policies may number
their types differently and spell their rules differently, and still each filter leaves the same edges with the
same weights between types of the same names.
-/

namespace PolicyAnalysis

open Checked

variable {d d' : Draft} {p q : Policy} {m : PermissionMap} {g h : FlowGraph}

/-- Two graphs of flows are the same by the names of types. -/
structure SameFlows (p q : Policy) (g h : FlowGraph) : Prop where
  named_iff : ∀ a, (∃ s, p.lookupType a = .ok s) ↔ ∃ s', q.lookupType a = .ok s'
  edges : ∀ a b s t s' t', p.lookupType a = .ok s → p.lookupType b = .ok t →
    q.lookupType a = .ok s' → q.lookupType b = .ok t' →
      (g.hasEdge s t ↔ h.hasEdge s' t') ∧ ∀ e e', g.edge? s t = some e → h.edge? s' t' = some e' →
        ∀ direction, e.weightIn direction = e'.weightIn direction

namespace Policy

theorem SameTypes.exists_lookupTypes (same : p.SameTypes q) (hp : p.DistinctNames) (hq : q.DistinctNames)
    {names : List String} {ids : Std.ExtTreeSet TypeId} (hids : p.lookupTypes names = .ok ids) :
    ∃ ids', q.lookupTypes names = .ok ids' ∧ ∀ s s', p.SameType q s s' → (s ∈ ids ↔ s' ∈ ids') := by
  obtain ⟨found, hfound, -⟩ := bind_eq_ok.mp hids
  have hall : ∀ name ∈ names, ∃ s', q.lookupType name = .ok s' := by
    intro name hname
    obtain ⟨s, hs⟩ := exists_mapM_eq_ok.mp ⟨found, hfound⟩ name hname
    obtain ⟨s', hs', -⟩ := same.exists_lookupType hp hq hs
    exact ⟨s', hs'⟩
  obtain ⟨found', hfound'⟩ := exists_mapM_eq_ok.mpr hall
  have hids' : q.lookupTypes names = .ok (.ofList found') := by
    rw [lookupTypes, hfound']
    rfl
  refine ⟨_, hids', ?_⟩
  intro s s' hs
  rw [mem_lookupTypes hids, mem_lookupTypes hids']
  simp only [hs.lookupType_iff hp hq]

namespace Agree

theorem placeCounts_iff (agree : p.Agree q) (booleans : Option (NameTable Bool))
    (place : Option (TruthTable × Bool)) : p.PlaceCounts booleans place ↔ q.PlaceCounts booleans place := by
  simp only [PlaceCounts, agree.active_iff]

theorem flows (agree : p.Agree q) {booleans : Option (NameTable Bool)} {source target : String}
    {direction : FlowDirection} {w : Nat} (h : p.Flows m booleans source target direction w) :
    q.Flows m booleans source target direction w := by
  obtain ⟨key, perm, x, h⟩ := h
  have hgives := (agree.allows_iff key perm).mp h.gives
  have hcounts := (agree.placeCounts_iff booleans key.place).mp h.counts
  exact ⟨key, perm, x, { h with gives := hgives, counts := hcounts }⟩

theorem flows_iff (agree : p.Agree q) (booleans : Option (NameTable Bool)) (source target : String)
    (direction : FlowDirection) (w : Nat) :
    p.Flows m booleans source target direction w ↔ q.Flows m booleans source target direction w :=
  ⟨agree.flows, agree.symm.flows⟩

theorem edge_iff (agree : p.Agree q) {minWeight : Nat} {ids ids' : Std.ExtTreeSet TypeId}
    {booleans : Option (NameTable Bool)} {s t s' t' : TypeId} {source target : String}
    (hshows : FlowFilter.Shows ⟨minWeight, ids, booleans⟩ p m g s t source target)
    (hshows' : FlowFilter.Shows ⟨minWeight, ids', booleans⟩ q m h s' t' source target) (hst : s = t ↔ s' = t')
    (hs : s ∈ ids ↔ s' ∈ ids') (ht : t ∈ ids ↔ t' ∈ ids') :
    (g.hasEdge s t ↔ h.hasEdge s' t') ∧ ∀ e e', g.edge? s t = some e → h.edge? s' t' = some e' →
      ∀ direction, e.weightIn direction = e'.weightIn direction := by
  refine ⟨?_, ?_⟩
  · rw [hshows.hasEdge_iff, hshows'.hasEdge_iff]
    simp only [ne_eq, hst, hs, ht, agree.flows_iff]
  · intro e e' he he' direction
    have hleft := hshows.isGreatest e he direction
    have hright := hshows'.isGreatest e' he' direction
    simp only [agree.flows_iff] at hleft
    exact hleft.unique hright

end Agree

end Policy

/-- Policies between which a comparison finds no difference have the same flows by each permission map that covers
both, whatever a filter leaves out. -/
theorem Comparison.sameFlows_of_isEmpty {name name' : String} {statements statements' : List Statement}
    (hp : Policy.build name statements = .ok p) (hq : Policy.build name' statements' = .ok q) {c : Comparison}
    (hc : between p q = .ok c) (hempty : c.isEmpty) (hg : FlowGraph.ofPolicy p m = .ok g)
    (hh : FlowGraph.ofPolicy q m = .ok h) (minWeight : Nat) {exclude : List String} {ids : Std.ExtTreeSet TypeId}
    (hexclude : p.lookupTypes exclude = .ok ids) {booleans : Option (NameTable Bool)}
    (hdeclared : ∀ states, booleans = some states → ∀ name ∈ states, name ∈ p.booleans) :
    ∃ ids' g' h', q.lookupTypes exclude = .ok ids' ∧
      FlowFilter.apply ⟨minWeight, ids, booleans⟩ p g = .ok g' ∧
      FlowFilter.apply ⟨minWeight, ids', booleans⟩ q h = .ok h' ∧ SameFlows p q g' h' := by
  have agree := agree_of_isEmpty hp hq hc hempty
  have same := agree.sameTypes
  have distinctp := Policy.distinctNames_of_build hp
  have distinctq := Policy.distinctNames_of_build hq
  have hdeclared' : ∀ states, booleans = some states → ∀ name ∈ states, name ∈ q.booleans := by
    intro states hstates name hname
    exact (agree.mem_booleans_iff name).mp (hdeclared states hstates name hname)
  obtain ⟨ids', hids', hmem⟩ := same.exists_lookupTypes distinctp distinctq hexclude
  obtain ⟨g', hg', hshows⟩ := FlowFilter.exists_apply_shows (f := ⟨minWeight, ids, booleans⟩) hp hg hdeclared
  obtain ⟨h', hh', hshows'⟩ := FlowFilter.exists_apply_shows (f := ⟨minWeight, ids', booleans⟩) hq hh hdeclared'
  refine ⟨ids', g', h', hids', hg', hh', same.exists_lookupType_iff distinctp distinctq, ?_⟩
  intro a b s t s' t' hs ht hs' ht'
  have hsame := same.sameType_of_lookupType distinctp distinctq hs hs'
  have hsame' := same.sameType_of_lookupType distinctp distinctq ht ht'
  have hst := hsame.eq_iff hsame' distinctp distinctq
  have hmem' := hmem t t' hsame'
  have hmem := hmem s s' hsame
  obtain ⟨x, hx, hx'⟩ := hsame
  obtain ⟨y, hy, hy'⟩ := hsame'
  exact agree.edge_iff (hshows s t x y hx hy) (hshows' s' t' x y hx' hy') hst hmem hmem'

def hatchDeclarations : List Statement := [
  .attribute "domain",
  .type "a_t" (.ofList ["domain"]),
  .type "b_t" (.ofList ["domain"]),
  .type "c_t" ∅,
  .boolean "open" true,
  .objectClass "file" none (.ofList ["read", "write"])]

def hatchRules : List Rule := [
  .access ⟨.allow, "domain", "b_t", "file", .ofList ["read"], none⟩,
  .access ⟨.allow, "c_t", "b_t", "file", .ofList ["write"], none⟩,
  .access ⟨.allow, "a_t", "b_t", "file", .ofList ["write"], some ⟨.boolean "open", true⟩⟩]

def respelledHatchRules : List Rule := [
  .access ⟨.allow, "a_t", "b_t", "file", .ofList ["write"], some ⟨notShut, true⟩⟩,
  .access ⟨.allow, "b_t", "self", "file", .ofList ["read"], none⟩,
  .access ⟨.allow, "c_t", "b_t", "file", .ofList ["write"], none⟩,
  .access ⟨.allow, "a_t", "b_t", "file", .ofList ["read"], none⟩]

def hatch : Policy :=
  match Policy.build "hatch" (hatchDeclarations ++ hatchRules.map .rule) with
  | .ok p => p
  | .error _ => (Draft.ofStatements "hatch" []).start

/-- The hatch with the last type first and with other rules that allow the same. -/
def respelledHatch : Policy :=
  match Policy.build "hatch" (hatchDeclarations.reverse ++ respelledHatchRules.map .rule) with
  | .ok p => p
  | .error _ => (Draft.ofStatements "hatch" []).start

def hatchMap : PermissionMap :=
  (PermissionMap.empty.put "file" "read" ⟨.read, 5, true⟩).put "file" "write" ⟨.write, 8, true⟩

theorem Comparison.sameFlows_hatch :
    Policy.build "hatch" (hatchDeclarations ++ hatchRules.map .rule) = .ok hatch ∧
      Policy.build "hatch" (hatchDeclarations.reverse ++ respelledHatchRules.map .rule) = .ok respelledHatch ∧
      (∃ c, between hatch respelledHatch = .ok c ∧ c.isEmpty) ∧
      ∃ g h, FlowGraph.ofPolicy hatch hatchMap = .ok g ∧ FlowGraph.ofPolicy respelledHatch hatchMap = .ok h ∧
        ∃ ids g' ids' h', hatch.lookupTypes ["c_t"] = .ok ids ∧ respelledHatch.lookupTypes ["c_t"] = .ok ids' ∧
          FlowFilter.apply ⟨2, ids, some (.ofList [("open", false)])⟩ hatch g = .ok g' ∧
          FlowFilter.apply ⟨2, ids', some (.ofList [("open", false)])⟩ respelledHatch h = .ok h' ∧
          g'.hasEdge 1 0 ∧ ¬ g'.hasEdge 0 1 ∧ SameFlows hatch respelledHatch g' h' := by
  have hp : Policy.build "hatch" (hatchDeclarations ++ hatchRules.map .rule) = .ok hatch := by rfl
  have hq : Policy.build "hatch" (hatchDeclarations.reverse ++ respelledHatchRules.map .rule) =
      .ok respelledHatch := by rfl
  have hcompare : ∃ c, between hatch respelledHatch = .ok c ∧ c.isEmpty := by
    obtain ⟨c, hc⟩ := exists_between hp hq
    refine ⟨c, hc, ?_⟩
    cases hc
    decide +kernel
  obtain ⟨g, hg⟩ : ∃ g, FlowGraph.ofPolicy hatch hatchMap = .ok g := ⟨_, rfl⟩
  obtain ⟨h, hh⟩ : ∃ h, FlowGraph.ofPolicy respelledHatch hatchMap = .ok h := ⟨_, rfl⟩
  obtain ⟨ids, hids⟩ : ∃ ids, hatch.lookupTypes ["c_t"] = .ok ids := ⟨_, rfl⟩
  have hdeclared : ∀ states : NameTable Bool, some (.ofList [("open", false)]) = some states →
      ∀ name ∈ states, name ∈ hatch.booleans := by
    intro states hstates name hname
    cases hstates
    have hopen : "open" = name := by simpa using hname
    rw [← hopen]
    exact Std.ExtTreeMap.contains_iff_mem.mp (by decide)
  obtain ⟨c, hc, hempty⟩ := hcompare
  obtain ⟨ids', g', h', hids', hg', hh', hsame⟩ := sameFlows_of_isEmpty hp hq hc hempty hg hh 2 hids hdeclared
  refine ⟨hp, hq, ⟨c, hc, hempty⟩, g, h, hg, hh, ids, g', ids', h', hids, hids', hg', hh', ?_, ?_, hsame⟩
  · cases hg
    cases hids
    cases hg'
    decide +kernel
  · cases hg
    cases hids
    cases hg'
    decide +kernel

end PolicyAnalysis
