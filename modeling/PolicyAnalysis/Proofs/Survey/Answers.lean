import PolicyAnalysis.Proofs.Checked
import PolicyAnalysis.Proofs.LazyList
import PolicyAnalysis.Survey.Memory

/-!
# What a survey answers

The graphs that a survey keeps only save work: what a question gives is fixed by the plan, the subject and the
filter, and the question leaves the subject and the filter as they were.
-/

namespace PolicyAnalysis

variable {σ φ ε : Type} {plan : SurveyPlan σ φ ε}

namespace Policy

open Checked

variable {p : Policy} {names : List String}

theorem mem_lookupTypes {ids : Std.ExtTreeSet TypeId} (h : p.lookupTypes names = .ok ids) (s : TypeId) :
    s ∈ ids ↔ ∃ name ∈ names, p.lookupType name = .ok s := by
  obtain ⟨found, hfound, heq⟩ := bind_eq_ok.mp h
  rw [← pure_eq_ok.mp heq, Std.ExtTreeSet.mem_ofList, List.contains_iff_mem]
  exact mem_iff_of_mapM hfound

theorem exists_lookupType_of_lookupTypes {ids : Std.ExtTreeSet TypeId} (h : p.lookupTypes names = .ok ids) :
    ∀ name ∈ names, ∃ s, p.lookupType name = .ok s := by
  obtain ⟨found, hfound, -⟩ := bind_eq_ok.mp h
  exact exists_mapM_eq_ok.mp ⟨found, hfound⟩

/-- The first name that no type has is the one that is reported. -/
theorem lookupTypes_eq_error {e : PolicyError} :
    p.lookupTypes names = .error e ↔ ∃ before name after, names = before ++ name :: after ∧
      (∀ known ∈ before, ∃ s, p.lookupType known = .ok s) ∧ p.lookupType name = .error e := by
  rw [← mapM_eq_error, lookupTypes]
  cases names.mapM p.lookupType with
  | error e' =>
    constructor
    · rintro ⟨⟩
      rfl
    · rintro ⟨⟩
      rfl
  | ok found => exact ⟨nofun, nofun⟩

end Policy

/-- What a filter leaves of the graph of a subject. -/
def SurveyPlan.left (plan : SurveyPlan σ φ ε) (subject : σ) (filter : φ) : Except Error (Digraph ε) := do
  plan.filtered subject filter (← plan.whole subject)

namespace Survey

section
variable (plan) (subject : σ) (filter : φ)

/-- The routes between two types in what the filter leaves, drawn from the start. -/
def routesAnew (source target : String) (search : Digraph ε → TypeId → TypeId → LazyList (List TypeId)) :
    Except Error (LazyList (List (Step ε))) := do
  let s ← (plan.policy subject).lookupType source
  let t ← (plan.policy subject).lookupType target
  let g ← plan.left subject filter
  return (search g s t).map fun nodes => (g.route nodes).map (plan.orient filter)

def simplePathsAnew (source target : String) (limit : Option Nat) :
    Except Error (LazyList (List (Step ε))) := do
  if limit = some 0 then throw (AnalysisError.maxLengthTooSmall 0 : Error)
  routesAnew plan subject filter source target fun g s t => g.simplePaths s t limit

def stepsAnew (type : String) (side : Side) : Except Error (List (Step ε)) := do
  let n ← (plan.policy subject).lookupType type
  let g ← plan.left subject filter
  return (g.stepsAt n side).map (plan.orient filter)

/-- The answer that is found where nothing has been drawn. -/
def Question.answer : Question → Except Error (Answer ε)
  | .size => return .size (← plan.whole subject).size
  | .filteredSize => return .size (← plan.left subject filter).size
  | .filtered => return .graph (← plan.left subject filter)
  | .simplePaths source target limit => return .paths (← simplePathsAnew plan subject filter source target limit)
  | .simplePathsWith source target settings => do
    let limit ← settings.limit
    return .paths (← simplePathsAnew plan subject filter source target limit)
  | .shortestPaths source target =>
    return .paths (← routesAnew plan subject filter source target Digraph.shortestPaths)
  | .stepsAt type side => return .steps (← stepsAnew plan subject filter type side)

end

theorem forget_eq_forget_iff {d e : Survey plan} :
    d.forget = e.forget ↔ d.subject = e.subject ∧ d.filter = e.filter := by
  rw [forget, forget, blank, blank, mk.injEq]
  simp

/-- A result is an answer, found without a change of the subject or the filter. -/
def Answers {α : Type} (d : Survey plan) (r : Except Error (α × Survey plan)) (answer : Except Error α) : Prop :=
  r.map (fun x => (x.1, x.2.forget)) = answer.map fun a => (a, d.forget)

def Gives {α : Type} (r : Except Error (α × Survey plan)) (a : α) : Prop :=
  ∃ e, r = .ok (a, e)

/-- A question gives a lazy list, and these are all its items. -/
def Yields {α : Type} (r : Except Error (LazyList α × Survey plan)) (items : List α) : Prop :=
  ∃ found, Gives r found ∧ found.Drains items

theorem Gives.unique {α : Type} {r : Except Error (α × Survey plan)} {a b : α} (ha : Gives r a)
    (hb : Gives r b) : a = b := by
  obtain ⟨e, he⟩ := ha
  obtain ⟨e', he'⟩ := hb
  exact congrArg Prod.fst (Except.ok.inj (he.symm.trans he'))

namespace Answers

variable {α β : Type} {d : Survey plan} {r : Except Error (α × Survey plan)} {answer : Except Error α}

theorem ok_iff {a b : α} {e : Survey plan} :
    d.Answers (.ok (a, e)) (.ok b) ↔ a = b ∧ e.forget = d.forget := by
  simp [Answers, Except.map]

theorem error (e : Error) : d.Answers (.error e : Except Error (α × Survey plan)) (.error e) :=
  rfl

theorem cases (h : d.Answers r answer) :
    (∃ e, r = .error e ∧ answer = .error e) ∨
      ∃ a e, r = .ok (a, e) ∧ answer = .ok a ∧ e.forget = d.forget := by
  match r, answer with
  | .error e, .error e' =>
    have he : e = e' := Except.error.inj h
    exact Or.inl ⟨e, rfl, congrArg Except.error he.symm⟩
  | .error e, .ok a => cases h
  | .ok x, .error e => cases h
  | .ok (a, e), .ok b =>
    obtain ⟨hab, he⟩ := ok_iff.mp h
    exact Or.inr ⟨a, e, rfl, congrArg Except.ok hab.symm, he⟩

theorem gives {a : α} (h : d.Answers r (.ok a)) : Gives r a := by
  obtain ⟨_, -, ha⟩ | ⟨b, e, hr, hb, -⟩ := h.cases
  · cases ha
  · cases hb
    exact ⟨e, hr⟩

/-- What comes after a first question may use its answer and the survey that it leaves. -/
theorem bind (h : d.Answers r answer) {k : α × Survey plan → Except Error (β × Survey plan)}
    {next : α → Except Error β} (hk : ∀ a e, e.forget = d.forget → d.Answers (k (a, e)) (next a)) :
    d.Answers (r >>= k) (answer >>= next) := by
  obtain ⟨e, rfl, rfl⟩ | ⟨a, e, rfl, rfl, he⟩ := h.cases
  · exact error e
  · exact hk a e he

theorem of_check {γ : Type} {check : Except Error γ} {k : γ → Except Error (β × Survey plan)}
    {next : γ → Except Error β} (hk : ∀ c, d.Answers (k c) (next c)) :
    d.Answers (check >>= k) (check >>= next) := by
  cases check with
  | error e => exact error e
  | ok c => exact hk c

theorem bind_attachResult {γ : Type} {x : Except Error γ} {k : { c // x = .ok c } → Except Error (β × Survey plan)}
    {next : γ → Except Error β} (hk : ∀ c hc, d.Answers (k ⟨c, hc⟩) (next c)) :
    d.Answers (attachResult x >>= k) (x >>= next) := by
  cases x with
  | error e => exact error e
  | ok c => exact hk c rfl

theorem return_of_eq {a b : α} {e : Survey plan} (hab : a = b) (he : e.forget = d.forget) :
    d.Answers (pure (a, e)) (pure b) :=
  ok_iff.mpr ⟨hab, he⟩

end Answers

theorem attachResult_eq_ok {α : Type} {r : Except Error α} {a : α} (h : r = .ok a) :
    attachResult r = .ok ⟨a, h⟩ := by
  subst h
  rfl

/-- A graph that is kept is the one that would be drawn. -/
theorem draw_eq_attachResult (d : Survey plan) : d.draw = attachResult (plan.whole d.subject) := by
  unfold draw
  split
  · next g kept => exact (attachResult_eq_ok (d.whole_of_kept g kept)).symm
  · rfl

theorem answers_whole (d : Survey plan) : d.Answers d.whole (plan.whole d.subject) := by
  have hwhole : d.Answers d.whole (plan.whole d.subject >>= pure) := by
    unfold whole
    rw [draw_eq_attachResult]
    apply Answers.bind_attachResult
    intro g hg
    exact .return_of_eq rfl rfl
  rwa [bind_pure] at hwhole

theorem answers_filtered (d : Survey plan) : d.Answers d.filtered (plan.left d.subject d.filter) := by
  unfold filtered
  cases kept : d.filtered? with
  | some h =>
    obtain ⟨g, hg, hh⟩ := d.filtered_of_kept h kept
    have hleft : plan.left d.subject d.filter = .ok h := Checked.bind_eq_ok.mpr ⟨g, hg, hh⟩
    rw [hleft]
    exact .return_of_eq rfl rfl
  | none =>
    have hpure (g : Digraph ε) : plan.filtered d.subject d.filter g =
      plan.filtered d.subject d.filter g >>= pure := (bind_pure _).symm
    rw [draw_eq_attachResult]
    apply Answers.bind_attachResult
    intro g hg
    rw [hpure]
    apply Answers.bind_attachResult
    intro h hh
    exact .return_of_eq rfl rfl

theorem answers_size (d : Survey plan) :
    d.Answers d.size (return (← plan.whole d.subject).size) := by
  apply d.answers_whole.bind
  intro g e he
  exact .return_of_eq rfl he

theorem answers_filteredSize (d : Survey plan) :
    d.Answers d.filteredSize (return (← plan.left d.subject d.filter).size) := by
  apply d.answers_filtered.bind
  intro g e he
  exact .return_of_eq rfl he

theorem answers_routes (d : Survey plan) (source target : String)
    (search : Digraph ε → TypeId → TypeId → LazyList (List TypeId)) :
    d.Answers (d.routes source target search) (routesAnew plan d.subject d.filter source target search) := by
  apply Answers.of_check
  intro s
  apply Answers.of_check
  intro t
  apply d.answers_filtered.bind
  intro g e he
  have hfilter : e.filter = d.filter := (forget_eq_forget_iff.mp he).2
  apply Answers.return_of_eq _ he
  rw [hfilter]

theorem yields_routes {d : Survey plan} {source target : String} {s t : TypeId} {g : Digraph ε}
    (hs : d.policy.lookupType source = .ok s) (ht : d.policy.lookupType target = .ok t)
    (hg : plan.left d.subject d.filter = .ok g)
    (search : Digraph ε → TypeId → TypeId → LazyList (List TypeId)) :
    Yields (d.routes source target search)
      ((search g s t).toList.map fun nodes => (g.route nodes).map (plan.orient d.filter)) := by
  have hs : (plan.policy d.subject).lookupType source = .ok s := hs
  have ht : (plan.policy d.subject).lookupType target = .ok t := ht
  have hanswers := d.answers_routes source target search
  rw [routesAnew, hs, ht, hg] at hanswers
  rw [← LazyList.toList_map]
  exact ⟨_, hanswers.gives, LazyList.drains_toList _⟩

theorem simplePaths_of_limit {limit : Option Nat} (h : limit ≠ some 0) (d : Survey plan) (source target : String) :
    d.simplePaths source target limit = d.routes source target fun g s t => g.simplePaths s t limit := by
  unfold simplePaths
  rw [if_neg h]

theorem simplePaths_zero (d : Survey plan) (source target : String) :
    d.simplePaths source target (some 0) = .error (AnalysisError.maxLengthTooSmall 0 : Error) :=
  rfl

theorem answers_simplePaths (d : Survey plan) (source target : String) (limit : Option Nat) :
    d.Answers (d.simplePaths source target limit) (simplePathsAnew plan d.subject d.filter source target limit) := by
  by_cases hlimit : limit = some 0
  · subst hlimit
    exact .error _
  · rw [simplePaths_of_limit hlimit, simplePathsAnew, if_neg hlimit]
    exact d.answers_routes source target _

theorem answers_stepsAt (d : Survey plan) (type : String) (side : Side) :
    d.Answers (d.stepsAt type side) (stepsAnew plan d.subject d.filter type side) := by
  apply Answers.of_check
  intro n
  apply d.answers_filtered.bind
  intro g e he
  have hfilter : e.filter = d.filter := (forget_eq_forget_iff.mp he).2
  apply Answers.return_of_eq _ he
  rw [hfilter]

theorem gives_stepsAt {d : Survey plan} {type : String} {n : TypeId} {g : Digraph ε}
    (hn : d.policy.lookupType type = .ok n) (hg : plan.left d.subject d.filter = .ok g) (side : Side) :
    Gives (d.stepsAt type side) ((g.stepsAt n side).map (plan.orient d.filter)) := by
  have hn : (plan.policy d.subject).lookupType type = .ok n := hn
  have hanswers := d.answers_stepsAt type side
  rw [stepsAnew, hn, hg] at hanswers
  exact hanswers.gives

theorem exists_lookupType_of_gives_stepsAt {d : Survey plan} {type : String} {side : Side}
    {steps : List (Step ε)} (h : Gives (d.stepsAt type side) steps) :
    ∃ n, d.policy.lookupType type = .ok n := by
  obtain ⟨e, he⟩ := h
  obtain ⟨n, hn, -⟩ := Checked.bind_eq_ok.mp he
  exact ⟨n, Checked.mapError_eq_ok.mp hn⟩

end Survey

end PolicyAnalysis
