import PolicyAnalysis.Proofs.Difference.Agreement
import PolicyAnalysis.Proofs.Policy.Levels

/-!
# Dominance under equal views

Sensitivities and categories are compared by their names and aliases, not by their order. Policies that do not
differ and declare them in the same order compare all levels alike. Where no two of them share a name, such
policies resolve every level alike in any order. Whether they also compare levels alike depends on the order of the
sensitivities, and on nothing else.
-/

namespace PolicyAnalysis

variable {p q : Policy}

/-- No two sensitivities and no two categories share a name. -/
structure Policy.ApartLevels (p : Policy) : Prop where
  sensitivities : MlsSymbol.Apart p.sensitivities
  categories : MlsSymbol.Apart p.categories

theorem Policy.ApartLevels.clear (h : p.ApartLevels) : p.ClearLevels :=
  ⟨h.sensitivities.unshadowed, h.categories.unshadowed⟩

theorem Reading.mem_mlsSymbols_of_view_eq {name : String} {symbols : Policy → List MlsSymbol}
    (hp : ((symbols p).map MlsSymbol.name).Nodup)
    (hview : (mlsSymbols name symbols).view p = (mlsSymbols name symbols).view q)
    {s : MlsSymbol} (hs : s ∈ symbols p) : s ∈ symbols q := by
  refine mem_items_of_view_eq rfl hview hs ?_ ?_
  · intro t ht hname
    exact List.inj_on_of_nodup_map hp ht hs hname
  · -- A symbol is nothing but its name and its aliases.
    rintro ⟨name, aliases⟩ hname haliases
    cases hname
    cases haliases
    rfl

theorem Reading.mem_mlsSymbols_iff {name : String} {symbols : Policy → List MlsSymbol}
    (hview : (mlsSymbols name symbols).view p = (mlsSymbols name symbols).view q)
    (hp : MlsSymbol.Apart (symbols p)) (hq : MlsSymbol.Apart (symbols q)) (s : MlsSymbol) :
    s ∈ symbols p ↔ s ∈ symbols q :=
  ⟨mem_mlsSymbols_of_view_eq hp.nodup_names hview, mem_mlsSymbols_of_view_eq hq.nodup_names hview.symm⟩

/-- Symbols with the same names in the same order, each name once, are the same if all of the first are among the
second. -/
theorem MlsSymbol.eq_of_map_name_eq {l l' : List MlsSymbol} (hnodup : (l.map MlsSymbol.name).Nodup)
    (hnames : l.map MlsSymbol.name = l'.map MlsSymbol.name) (hmem : ∀ s ∈ l, s ∈ l') : l = l' := by
  have hlength : l.length = l'.length := by simpa using congrArg List.length hnames
  refine List.ext_getElem hlength fun i hi hi' => ?_
  have hname : l[i].name = l'[i].name := by
    have hname := List.getElem_of_eq hnames (by rwa [List.length_map])
    rwa [List.getElem_map, List.getElem_map] at hname
  exact List.inj_on_of_nodup_map (hnames ▸ hnodup) (hmem _ (List.getElem_mem hi)) (List.getElem_mem hi') hname

theorem Reading.mlsSymbols_eq_of_view_eq {name : String} {symbols : Policy → List MlsSymbol}
    (hview : (mlsSymbols name symbols).view p = (mlsSymbols name symbols).view q)
    (hnodup : ((symbols p).map MlsSymbol.name).Nodup)
    (hnames : (symbols p).map MlsSymbol.name = (symbols q).map MlsSymbol.name) : symbols p = symbols q :=
  MlsSymbol.eq_of_map_name_eq hnodup hnames fun _ => mem_mlsSymbols_of_view_eq hnodup hview

namespace Policy

theorem resolveLevel_eq_of_eq (hsensitivities : p.sensitivities = q.sensitivities)
    (hcategories : p.categories = q.categories) (l : Level) : p.resolveLevel l = q.resolveLevel l := by
  apply resolveLevel_congr
  · intro name
    rw [resolveSensitivity, hsensitivities, resolveSensitivity]
  · intro name
    rw [resolveCategory, hcategories, resolveCategory]

theorem levelDominates_congr (hsensitivities : p.sensitivities = q.sensitivities)
    (hresolve : ∀ l, p.resolveLevel l = q.resolveLevel l) (high low : Level) :
    p.levelDominates high low = q.levelDominates high low := by
  simp only [levelDominates, hresolve, sensitivityRank, hsensitivities]

theorem ApartLevels.resolveLevel_eq (hp : p.ApartLevels) (hq : q.ApartLevels)
    (hmem : ∀ s, s ∈ p.sensitivities ↔ s ∈ q.sensitivities) (hmem' : ∀ s, s ∈ p.categories ↔ s ∈ q.categories)
    (l : Level) : p.resolveLevel l = q.resolveLevel l := by
  apply resolveLevel_congr
  · intro name
    rw [resolveSensitivity_eq, resolveSensitivity_eq, hp.sensitivities.primary?_eq hq.sensitivities hmem]
  · intro name
    rw [resolveCategory_eq, resolveCategory_eq, hp.categories.primary?_eq hq.categories hmem']

theorem sensitivities_eq (hp : MlsSymbol.Apart p.sensitivities)
    (hmem : ∀ s, s ∈ p.sensitivities ↔ s ∈ q.sensitivities)
    (hbelow : (q.sensitivities.map MlsSymbol.name).Pairwise p.Below) : p.sensitivities = q.sensitivities := by
  have : Std.Irrefl fun s t : MlsSymbol => p.Below s.name t.name := ⟨fun s => Std.Irrefl.irrefl s.name⟩
  have : Std.Asymm fun s t : MlsSymbol => p.Below s.name t.name := ⟨fun s t => Std.Asymm.asymm s.name t.name⟩
  exact (List.pairwise_map.mp (pairwise_below hp)).eq_of_mem_iff (List.pairwise_map.mp hbelow) hmem

/-- Policies with the same sensitivities that resolve levels alike compare them alike just if the order of the
sensitivities is the same. -/
theorem levelDominates_eq_iff (hp : MlsSymbol.Apart p.sensitivities) (hq : MlsSymbol.Apart q.sensitivities)
    (hmem : ∀ s, s ∈ p.sensitivities ↔ s ∈ q.sensitivities) (hresolve : ∀ l, p.resolveLevel l = q.resolveLevel l) :
    (∀ high low, p.levelDominates high low = q.levelDominates high low) ↔
      p.sensitivities.map MlsSymbol.name = q.sensitivities.map MlsSymbol.name := by
  constructor
  · intro hagree
    refine congrArg (List.map MlsSymbol.name) (sensitivities_eq hp hmem ?_)
    refine List.pairwise_map.mpr ((List.pairwise_map.mp (pairwise_below hq)).imp_of_mem ?_)
    intro s t hs ht hbelow
    rw [← levelDominates_bare hp ((hmem s).mpr hs) ((hmem t).mpr ht), hagree, levelDominates_bare hq hs ht]
    exact hbelow
  · intro hnames
    exact levelDominates_congr (MlsSymbol.eq_of_map_name_eq hp.nodup_names hnames fun s => (hmem s).mp) hresolve

end Policy

namespace Comparison

/-- Policies that do not differ compare all levels alike if sensitivities and categories come in the same order, each
name once. Where names are not shared, they resolve levels alike and fail alike to compare them, in any order. Then
they compare all levels alike just if the sensitivities come in the same order. -/
theorem dominance_of_isEmpty {name name' : String} {statements statements' : List Statement} {c : Comparison}
    (hp : Policy.build name statements = .ok p) (hq : Policy.build name' statements' = .ok q)
    (hc : between p q = .ok c) (hempty : c.isEmpty) :
    ((p.sensitivities.map MlsSymbol.name).Nodup → (p.categories.map MlsSymbol.name).Nodup →
      p.sensitivities.map MlsSymbol.name = q.sensitivities.map MlsSymbol.name →
      p.categories.map MlsSymbol.name = q.categories.map MlsSymbol.name →
      ∀ high low, p.levelDominates high low = q.levelDominates high low) ∧
    (p.ApartLevels → q.ApartLevels →
      (∀ l, p.resolveLevel l = q.resolveLevel l) ∧
      (∀ high low e, p.levelDominates high low = .error e ↔ q.levelDominates high low = .error e) ∧
      ((∀ high low, p.levelDominates high low = q.levelDominates high low) ↔
        p.sensitivities.map MlsSymbol.name = q.sensitivities.map MlsSymbol.name)) := by
  have hview := view_eq_of_isEmpty hp hq hc hempty
  have hsensitivities : (Reading.mlsSymbols "sensitivities" Policy.sensitivities).view p =
      (Reading.mlsSymbols "sensitivities" Policy.sensitivities).view q := hview _ (by simp [Reading.all])
  have hcategories : (Reading.mlsSymbols "categories" Policy.categories).view p =
      (Reading.mlsSymbols "categories" Policy.categories).view q := hview _ (by simp [Reading.all])
  constructor
  · intro hnodup hnodup' hnames hnames'
    have heq : p.sensitivities = q.sensitivities := Reading.mlsSymbols_eq_of_view_eq hsensitivities hnodup hnames
    have heq' : p.categories = q.categories := Reading.mlsSymbols_eq_of_view_eq hcategories hnodup' hnames'
    exact Policy.levelDominates_congr heq (Policy.resolveLevel_eq_of_eq heq heq')
  · intro apartp apartq
    have hmem := Reading.mem_mlsSymbols_iff hsensitivities apartp.sensitivities apartq.sensitivities
    have hmem' := Reading.mem_mlsSymbols_iff hcategories apartp.categories apartq.categories
    have hresolve : ∀ l, p.resolveLevel l = q.resolveLevel l := apartp.resolveLevel_eq apartq hmem hmem'
    refine ⟨hresolve, ?_, Policy.levelDominates_eq_iff apartp.sensitivities apartq.sensitivities hmem hresolve⟩
    intro high low e
    rw [apartp.clear.levelDominates_eq_error_iff, apartq.clear.levelDominates_eq_error_iff]
    simp only [hresolve]

def levelStatements (sensitivities categories : List (String × NameSet)) : List Statement :=
  sensitivities.map (fun s => .sensitivity s.1 s.2) ++ categories.map fun c => .category c.1 c.2

def levelPolicy (name : String) (sensitivities categories : List (String × NameSet)) : Policy :=
  match Policy.build name (levelStatements sensitivities categories) with
  | .ok p => p
  | .error _ => (Draft.ofStatements name []).start

def lowFirst : List (String × NameSet) :=
  [("s0", .ofList ["public"]), ("s1", ∅)]

def highFirst : List (String × NameSet) :=
  [("s1", ∅), ("s0", .ofList ["public"])]

def rising : Policy :=
  levelPolicy "rising" lowFirst [("c0", ∅), ("c1", .ofList ["medical"])]

/-- The categories are declared the other way round. -/
def shuffled : Policy :=
  levelPolicy "shuffled" lowFirst [("c1", .ofList ["medical"]), ("c0", ∅)]

/-- The sensitivities are declared the other way round. -/
def falling : Policy :=
  levelPolicy "falling" highFirst [("c0", ∅), ("c1", .ofList ["medical"])]

theorem build_rising :
    Policy.build "rising" (levelStatements lowFirst [("c0", ∅), ("c1", .ofList ["medical"])]) = .ok rising := by
  rfl

theorem build_shuffled :
    Policy.build "shuffled" (levelStatements lowFirst [("c1", .ofList ["medical"]), ("c0", ∅)]) =
      .ok shuffled := by
  rfl

theorem build_falling :
    Policy.build "falling" (levelStatements highFirst [("c0", ∅), ("c1", .ofList ["medical"])]) =
      .ok falling := by
  rfl

theorem exists_dominance_of_isEmpty_shuffled :
    rising.ApartLevels ∧ shuffled.ApartLevels ∧ ∃ c, between rising shuffled = .ok c ∧ c.isEmpty ∧
      (∀ l, rising.resolveLevel l = shuffled.resolveLevel l) ∧
      (∀ high low, rising.levelDominates high low = shuffled.levelDominates high low) ∧
      rising.levelDominates ⟨"s1", .ofList ["medical"]⟩ ⟨"public", .ofList ["c1"]⟩ = .ok true := by
  have apart : rising.ApartLevels := ⟨by decide +kernel, by decide +kernel⟩
  have apart' : shuffled.ApartLevels := ⟨by decide +kernel, by decide +kernel⟩
  obtain ⟨c, hc⟩ := exists_between build_rising build_shuffled
  have hempty : c.isEmpty := by
    cases hc
    decide +kernel
  obtain ⟨hresolve, -, hdominates⟩ := (dominance_of_isEmpty build_rising build_shuffled hc hempty).2 apart apart'
  refine ⟨apart, apart', c, hc, hempty, hresolve, hdominates.mpr (by decide +kernel), ?_⟩
  decide +kernel

/-- The order of the sensitivities is not compared, although it decides which level dominates. -/
theorem not_dominance_of_isEmpty_falling :
    ∃ c, between rising falling = .ok c ∧ c.isEmpty ∧
      rising.levelDominates ⟨"s1", ∅⟩ ⟨"s0", ∅⟩ = .ok true ∧
      falling.levelDominates ⟨"s1", ∅⟩ ⟨"s0", ∅⟩ = .ok false := by
  obtain ⟨c, hc⟩ := exists_between build_rising build_falling
  refine ⟨c, hc, ?_, by decide +kernel, by decide +kernel⟩
  cases hc
  decide +kernel

end Comparison

end PolicyAnalysis
