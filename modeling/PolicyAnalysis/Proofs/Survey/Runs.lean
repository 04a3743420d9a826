import PolicyAnalysis.Flow.Analysis
import PolicyAnalysis.Proofs.Flow.Filter
import PolicyAnalysis.Proofs.Survey.Memory
import PolicyAnalysis.Transition.Analysis

/-!
# Runs of an analysis

An analysis is asked questions and has its settings changed, in any order and for any length of time. Some of
this may fail. Whatever has been done, what an operation gives is what it gives for an analysis that has just
been made with the same settings, and these are what the changes that succeeded have put there.
-/

namespace PolicyAnalysis

namespace Survey

open Memory

variable {σ φ ε χ : Type} {plan : SurveyPlan σ φ ε}

def ask (d : Survey plan) : Question → Except Error (Answer ε × Survey plan)
  | .size => return (← d.size).map .size id
  | .filteredSize => return (← d.filteredSize).map .size id
  | .filtered => return (← d.filtered).map .graph id
  | .simplePaths source target limit => return (← d.simplePaths source target limit).map .paths id
  | .simplePathsWith source target settings => return (← d.simplePathsWith source target settings).map .paths id
  | .shortestPaths source target => return (← d.shortestPaths source target).map .paths id
  | .stepsAt type side => return (← d.stepsAt type side).map .steps id

theorem answers_ask (d : Survey plan) (q : Question) : d.Answers (d.ask q) (q.answer plan d.subject d.filter) := by
  have hmap {α : Type} {r : Except Error (α × Survey plan)} {answer : Except Error α} (f : α → Answer ε)
      (h : d.Answers r answer) :
      d.Answers (r >>= fun x => pure (x.map f id)) (answer >>= fun a => pure (f a)) :=
    h.bind fun _ _ he => .return_of_eq rfl he
  cases q with
  | size =>
    have hsize := hmap Answer.size d.answers_size
    rwa [bind_assoc] at hsize
  | filteredSize =>
    have hsize := hmap Answer.size d.answers_filteredSize
    rwa [bind_assoc] at hsize
  | filtered => exact hmap Answer.graph d.answers_filtered
  | simplePaths source target limit => exact hmap Answer.paths (d.answers_simplePaths source target limit)
  | simplePathsWith source target settings =>
    show d.Answers (d.simplePathsWith source target settings >>= _) (settings.limit >>= _)
    unfold simplePathsWith
    cases settings.limit with
    | error e => exact .error e
    | ok limit => exact hmap Answer.paths (d.answers_simplePaths source target limit)
  | shortestPaths source target => exact hmap Answer.paths (d.answers_routes source target _)
  | stepsAt type side => exact hmap Answer.steps (d.answers_stepsAt type side)

def perform (alter : χ → Survey plan → Except Error (Survey plan)) (d : Survey plan) :
    Operation χ → Except Error (Answer ε × Survey plan)
  | .change c => return (.done, ← alter c d)
  | .forget => return (.done, d.forget)
  | .ask q => d.ask q

variable (alter : χ → Survey plan → Except Error (Survey plan))

def outcome (d : Survey plan) (op : Operation χ) : Except Error (Answer ε) :=
  (d.perform alter op).map Prod.fst

def next (d : Survey plan) (op : Operation χ) : Survey plan :=
  match d.perform alter op with
  | .ok (_, e) => e
  | .error _ => d

/-- A survey after some operations. -/
def after (d : Survey plan) (ops : List (Operation χ)) : Survey plan :=
  ops.foldl (next alter) d

/-- What a change makes of settings where nothing has been drawn. -/
def effect (c : χ) (s : σ × φ) : Except Error (σ × φ) :=
  (alter c (blank plan s.1 s.2)).map settings

def Operation.answer (s : σ × φ) : Operation χ → Except Error (Answer ε)
  | .change c => (effect alter c s).map fun _ => .done
  | .forget => return .done
  | .ask q => q.answer plan s.1 s.2

/-- The settings after an operation on a survey with some settings. -/
def Operation.settings (s : σ × φ) : Operation χ → σ × φ
  | .change c => (effect alter c s).toOption.getD s
  | _ => s

def Operation.isChange : Operation χ → Bool
  | .change _ => true
  | _ => false

/-- A change does not look at the graphs that are kept. -/
def Blind : Prop :=
  ∀ c (d : Survey plan), (alter c d).map Survey.settings = effect alter c d.settings

/-- Steps in memory make a change as a whole or not at all. -/
def InPlace (change : χ → Working σ φ ε Unit) : Prop :=
  ∀ c m, Agrees plan m → Does plan m (change c) ((effect alter c m.settings).map fun _ => ())
    ((effect alter c m.settings).toOption.getD m.settings)

variable {alter}

theorem outcome_eq_answer (blind : Blind alter) (d : Survey plan) (op : Operation χ) :
    d.outcome alter op = op.answer alter d.settings ∧
      (d.next alter op).settings = op.settings alter d.settings := by
  unfold outcome next
  cases op with
  | change c =>
    have hc := blind c d
    have hperform : d.perform alter (.change c) = alter c d >>= fun e => pure (.done, e) := rfl
    rw [hperform, Operation.answer, Operation.settings, ← hc]
    cases alter c d <;> exact ⟨rfl, rfl⟩
  | forget => exact ⟨rfl, rfl⟩
  | ask q =>
    have hperform : d.perform alter (.ask q) = d.ask q := rfl
    rw [hperform]
    obtain ⟨x, hask, hanswer⟩ | ⟨a, e, hask, hanswer, hsame⟩ := (d.answers_ask q).cases
    · rw [hask]
      exact ⟨hanswer.symm, rfl⟩
    · obtain ⟨hsubject, hfilter⟩ := forget_eq_forget_iff.mp hsame
      rw [hask]
      exact ⟨hanswer.symm, Prod.ext hsubject hfilter⟩

theorem settings_after (blind : Blind alter) (d : Survey plan) (ops : List (Operation χ)) :
    (d.after alter ops).settings = ops.foldl (Operation.settings alter) d.settings := by
  induction ops generalizing d with
  | nil => rfl
  | cons op ops ih =>
    rw [List.foldl_cons, ← (outcome_eq_answer blind d op).2]
    exact ih (d.next alter op)

namespace Memory

variable {change : χ → Working σ φ ε Unit} {m m' : Memory σ φ ε}

theorem does_perform (inPlace : InPlace alter change) (hm : m.Agrees plan) (op : Operation χ) :
    Does plan m (Working.perform plan change op) (op.answer alter m.settings) (op.settings alter m.settings) := by
  cases op with
  | change c =>
    have hdone := (inPlace c m hm).map fun _ => (Answer.done : Answer ε)
    have hanswer : Operation.answer alter m.settings (.change c) =
        ((effect alter c m.settings).map fun _ => ()) >>= fun _ => pure Answer.done := by
      rw [Operation.answer]
      cases effect alter c m.settings <;> rfl
    rw [hanswer]
    exact hdone
  | forget => exact ⟨blank m.subject m.filter, agrees_blank m.subject m.filter, rfl, rfl⟩
  | ask q => exact does_ask hm rfl q

/-- An operation gives what the settings say, and the graphs in memory go on agreeing with them. -/
theorem outcome_and_next (inPlace : InPlace alter change) (hm : m.Agrees plan) (op : Operation χ) :
    m.outcome plan change op = op.answer alter m.settings ∧ (m.next plan change op).Agrees plan ∧
      (m.next plan change op).settings = op.settings alter m.settings := by
  obtain ⟨m', hm', hs, hrun⟩ := does_perform inPlace hm op
  unfold outcome next
  rw [hrun]
  cases op.answer alter m.settings <;> exact ⟨rfl, hm', hs⟩

theorem agrees_and_settings_after (inPlace : InPlace alter change) (hm : m.Agrees plan)
    (ops : List (Operation χ)) : (m.after plan change ops).Agrees plan ∧
      (m.after plan change ops).settings = ops.foldl (Operation.settings alter) m.settings := by
  induction ops generalizing m with
  | nil => exact ⟨hm, rfl⟩
  | cons op ops ih =>
    obtain ⟨-, hnext, hs⟩ := outcome_and_next inPlace hm op
    rw [List.foldl_cons, ← hs]
    exact ih hnext

/-- Memories with the same settings go on giving the same. -/
theorem outcome_after_congr (inPlace : InPlace alter change) (hm : m.Agrees plan) (hm' : m'.Agrees plan)
    (hs : m.settings = m'.settings) (ops : List (Operation χ)) (op : Operation χ) :
    (m.after plan change ops).outcome plan change op = (m'.after plan change ops).outcome plan change op := by
  obtain ⟨hafter, hsettings⟩ := agrees_and_settings_after inPlace hm ops
  obtain ⟨hafter', hsettings'⟩ := agrees_and_settings_after inPlace hm' ops
  rw [(outcome_and_next inPlace hafter op).1, (outcome_and_next inPlace hafter' op).1, hsettings, hsettings', hs]

/-- What a memory gives now and later depends on nothing but its settings. Each change either puts what it is
given there or is refused, with rules that say which. -/
structure Fresh (plan : SurveyPlan σ φ ε) (change : χ → Working σ φ ε Unit)
    (Makes : χ → σ × φ → σ × φ → Prop) (Refused : χ → σ × φ → Error → Prop) (m : Memory σ φ ε) : Prop where
  /-- The graphs in memory are those of the settings. -/
  agrees : m.Agrees plan
  outcome : ∀ op, m.outcome plan change op = (blank m.subject m.filter).outcome plan change op
  /-- Only changes have an effect on the settings. -/
  kept : ∀ op, op.isChange = false → (m.next plan change op).settings = m.settings
  made : ∀ c,
    (∃ s, Makes c m.settings s ∧ m.outcome plan change (.change c) = .ok .done ∧
      (m.next plan change (.change c)).settings = s) ∨
    ∃ e, Refused c m.settings e ∧ m.outcome plan change (.change c) = .error e
  /-- What fails makes no difference to what comes later. -/
  failure : ∀ op e, m.outcome plan change op = .error e →
    (m.next plan change op).settings = m.settings ∧
      ∀ future later, ((m.next plan change op).after plan change future).outcome plan change later =
        (m.after plan change future).outcome plan change later

theorem fresh_of_agrees (inPlace : InPlace alter change) {Makes : χ → σ × φ → σ × φ → Prop}
    {Refused : χ → σ × φ → Error → Prop}
    (rules : ∀ c s, (∃ s', Makes c s s' ∧ effect alter c s = .ok s') ∨
      ∃ e, Refused c s e ∧ effect alter c s = .error e)
    (hm : m.Agrees plan) : Fresh plan change Makes Refused m where
  agrees := hm
  outcome op := by
    have hblank : (blank m.subject m.filter).Agrees plan := agrees_blank m.subject m.filter
    rw [(outcome_and_next inPlace hm op).1, (outcome_and_next inPlace hblank op).1]
    rfl
  kept op hop := by
    rw [(outcome_and_next inPlace hm op).2.2]
    cases op with
    | change c => cases hop
    | forget => rfl
    | ask q => rfl
  made c := by
    obtain ⟨houtcome, -, hs⟩ := outcome_and_next inPlace hm (.change c)
    rw [houtcome, hs, Operation.answer, Operation.settings]
    rcases rules c m.settings with ⟨s', hmakes, heffect⟩ | ⟨e, hrefused, heffect⟩
    · rw [heffect]
      exact Or.inl ⟨s', hmakes, rfl, rfl⟩
    · rw [heffect]
      exact Or.inr ⟨e, hrefused, rfl⟩
  failure op e he := by
    obtain ⟨houtcome, hnext, hs⟩ := outcome_and_next inPlace hm op
    rw [houtcome] at he
    have hsame : (m.next plan change op).settings = m.settings := by
      rw [hs]
      cases op with
      | change c =>
        have heffect : effect alter c m.settings = .error e := Checked.except_map_eq_error.mp he
        rw [Operation.settings, heffect]
        rfl
      | forget => rfl
      | ask q => rfl
    exact ⟨hsame, outcome_after_congr inPlace hnext hm hsame⟩

end Memory

/-- A survey that keeps its graphs and one in memory give the same after the same operations. -/
theorem outcome_eq_memory {change : χ → Working σ φ ε Unit} (blind : Blind alter) (inPlace : InPlace alter change)
    (d : Survey plan) (past : List (Operation χ)) (op : Operation χ) :
    (d.after alter past).outcome alter op =
      (d.memory.after plan change past).outcome plan change op := by
  obtain ⟨hafter, hs⟩ := agrees_and_settings_after inPlace (agrees_memory d) past
  rw [(outcome_eq_answer blind _ op).1, (outcome_and_next inPlace hafter op).1, hs, settings_after blind]
  rfl

theorem run_bind_congr {α β : Type} {steps steps' : Working σ φ ε α} {m : Memory σ φ ε}
    (h : steps.run m = steps'.run m) (k : α → Working σ φ ε β) : (steps >>= k).run m = (steps' >>= k).run m := by
  have h : steps m = steps' m := h
  show EStateM.bind steps k m = EStateM.bind steps' k m
  rw [EStateM.bind, EStateM.bind, h]

/-- Checks in memory one after the other are one check. -/
theorem run_forM_check {α : Type} {f : α → Except Error Unit} {steps : α → Working σ φ ε Unit}
    (hsteps : ∀ a m, (steps a).run m = (liftM (f a) : Working σ φ ε Unit).run m) (l : List α) (m : Memory σ φ ε) :
    (l.forM steps).run m = (liftM (l.forM f) : Working σ φ ε Unit).run m := by
  induction l with
  | nil => rfl
  | cons a l ih =>
    refine (run_bind_congr (hsteps a m) fun _ => l.forM steps).trans ?_
    have hcheck : (a :: l).forM f = f a >>= fun _ => l.forM f := rfl
    rw [hcheck]
    cases f a with
    | error e => rfl
    | ok u => exact ih

theorem map_settings_withFilter {α : Type} (check : Except Error α) (d : Survey plan) (refilter : α → φ → φ) :
    (check >>= fun x => pure (d.withFilter (refilter x d.filter))).map settings =
      check.map fun x => (d.subject, refilter x d.filter) := by
  cases check <;> rfl

/-- A change that checks something and, if that succeeds, changes the filter. -/
structure Refilters {α : Type} (alter : χ → Survey plan → Except Error (Survey plan))
    (change : χ → Working σ φ ε Unit) (c : χ) (check : σ × φ → Except Error α) (refilter : α → φ → φ) : Prop where
  alters : ∀ d, (alter c d).map settings = (check d.settings).map fun x => (d.subject, refilter x d.filter)
  steps : ∀ m, (change c).run m = (do
    let x ← liftM (check m.settings)
    Working.modifyFilter (refilter x)
    Working.dropFiltered : Working σ φ ε Unit).run m

namespace Refilters

variable {α : Type} {change : χ → Working σ φ ε Unit} {c : χ} {check : σ × φ → Except Error α}
  {refilter : α → φ → φ}

theorem effect_eq (h : Refilters alter change c check refilter) (s : σ × φ) :
    effect alter c s = (check s).map fun x => (s.1, refilter x s.2) :=
  h.alters (blank plan s.1 s.2)

theorem blind (h : Refilters alter change c check refilter) (d : Survey plan) :
    (alter c d).map settings = effect alter c d.settings :=
  (h.alters d).trans (h.effect_eq d.settings).symm

theorem does (h : Refilters alter change c check refilter) {m : Memory σ φ ε} (hm : m.Agrees plan) :
    Does plan m (change c) ((effect alter c m.settings).map fun _ => ())
      ((effect alter c m.settings).toOption.getD m.settings) := by
  rw [h.effect_eq, Does]
  cases hcheck : check m.settings with
  | error e =>
    refine ⟨m, hm, rfl, ?_⟩
    rw [h.steps, hcheck]
    rfl
  | ok x =>
    refine ⟨⟨m.subject, refilter x m.filter, m.whole?, none⟩, ⟨hm.whole, nofun⟩, rfl, ?_⟩
    rw [h.steps, hcheck]
    rfl

end Refilters

end Survey

open Survey

namespace FlowChange

/-- What a change that succeeds makes of the settings. -/
inductive Makes : FlowChange → FlowSubject × FlowFilter → FlowSubject × FlowFilter → Prop
  | minWeight {weight : Nat} {s : FlowSubject} {f : FlowFilter} (hweight : 1 ≤ weight ∧ weight ≤ 10) :
    Makes (.minWeight weight) (s, f) (s, { f with minWeight := weight })
  | exclude {types : List String} {ids : Std.ExtTreeSet TypeId} {s : FlowSubject} {f : FlowFilter}
    (htypes : ∀ type ∈ types, ∃ id, s.policy.lookupType type = .ok id)
    (hids : ∀ id, id ∈ ids ↔ ∃ type ∈ types, s.policy.lookupType type = .ok id) :
    Makes (.exclude types) (s, f) (s, { f with exclude := ids })
  | booleans {states : Option (NameTable Bool)} {s : FlowSubject} {f : FlowFilter}
    (hstates : ∀ name ∈ states.getD ∅, ∃ boolean, s.policy.lookupBoolean name = .ok boolean) :
    Makes (.booleans states) (s, f) (s, { f with booleans := states })
  | map {alter : PermissionMap → PermissionMap} {s : FlowSubject} {f : FlowFilter} :
    Makes (.map alter) (s, f) ({ s with map := alter s.map }, f)

/-- A change is refused, with an error about the first thing that is wrong. -/
inductive Refused : FlowChange → FlowSubject × FlowFilter → Error → Prop
  | minWeight {weight : Int} {s : FlowSubject × FlowFilter} (hweight : weight < 1 ∨ 10 < weight) :
    Refused (.minWeight weight) s (AnalysisError.minWeightOutOfRange weight)
  | exclude {before after : List String} {type : String} {e : PolicyError} {s : FlowSubject × FlowFilter}
    (hbefore : ∀ type ∈ before, ∃ id, s.1.policy.lookupType type = .ok id)
    (htype : s.1.policy.lookupType type = .error e) :
    Refused (.exclude (before ++ type :: after)) s e
  | booleans {states : Option (NameTable Bool)} {before after : List String} {name : String} {e : PolicyError}
    {s : FlowSubject × FlowFilter} (hstates : (states.getD ∅).keys = before ++ name :: after)
    (hbefore : ∀ name ∈ before, ∃ boolean, s.1.policy.lookupBoolean name = .ok boolean)
    (hname : s.1.policy.lookupBoolean name = .error e) :
    Refused (.booleans states) s e

theorem refilters_minWeight (weight : Int) :
    Refilters apply steps (.minWeight weight)
      (fun _ => if Weight.InRange weight then .ok () else .error (AnalysisError.minWeightOutOfRange weight))
      fun _ f => { f with minWeight := weight.toNat } where
  alters a := by
    show (FlowAnalysis.setMinWeight a weight).map settings = _
    unfold FlowAnalysis.setMinWeight
    by_cases hweight : Weight.InRange weight
    · rw [if_pos hweight, if_neg (not_not.mpr hweight)]
      rfl
    · rw [if_neg hweight, if_pos hweight]
      rfl
  steps m := by
    unfold steps
    by_cases hweight : Weight.InRange weight
    · simp only [if_pos hweight, if_neg (not_not.mpr hweight)]
      rfl
    · simp only [if_neg hweight, if_pos hweight]
      rfl

theorem refilters_exclude (types : List String) :
    Refilters apply steps (.exclude types) (fun s => liftM (s.1.policy.lookupTypes types))
      fun ids f => { f with exclude := ids } where
  alters a := map_settings_withFilter _ a fun ids f => { f with exclude := ids }
  steps _ := rfl

def checkBooleans (states : Option (NameTable Bool)) (s : FlowSubject × FlowFilter) : Except Error Unit :=
  (states.getD ∅).keys.forM fun name => discard (s.1.policy.lookupBoolean name)

theorem checkBooleans_eq_ok {states : Option (NameTable Bool)} {s : FlowSubject × FlowFilter}
    (h : checkBooleans states s = .ok ()) :
    ∀ name ∈ states.getD ∅, ∃ boolean, s.1.policy.lookupBoolean name = .ok boolean := by
  intro name hname
  have hlookup := Checked.forM_eq_ok.mp h name (Std.ExtTreeMap.mem_keys.mpr hname)
  obtain ⟨boolean, hboolean⟩ := Checked.discard_eq_ok.mp hlookup
  exact ⟨boolean, Checked.mapError_eq_ok.mp hboolean⟩

theorem checkBooleans_eq_error {states : Option (NameTable Bool)} {s : FlowSubject × FlowFilter} {e : Error}
    (h : checkBooleans states s = .error e) : Refused (.booleans states) s e := by
  obtain ⟨before, name, after, hkeys, hbefore, hname⟩ := Checked.forM_eq_error.mp h
  obtain ⟨e', he, rfl⟩ := Checked.mapError_eq_error.mp (Checked.discard_eq_error.mp hname)
  refine .booleans hkeys ?_ he
  intro known hknown
  obtain ⟨boolean, hboolean⟩ := Checked.discard_eq_ok.mp (hbefore known hknown)
  exact ⟨boolean, Checked.mapError_eq_ok.mp hboolean⟩

theorem refilters_booleans (states : Option (NameTable Bool)) :
    Refilters apply steps (.booleans states) (checkBooleans states)
      fun _ f => { f with booleans := states } where
  alters a := map_settings_withFilter _ a fun _ f => { f with booleans := states }
  steps m := by
    have hlookup (name : String) (m' : Memory FlowSubject FlowFilter FlowEdge) :
        (discard (liftM (m.subject.policy.lookupBoolean name)) : Working FlowSubject FlowFilter FlowEdge Unit).run m' =
          (liftM (discard (m.subject.policy.lookupBoolean name) : Except Error Unit) : Working _ _ _ _).run m' := by
      cases m.subject.policy.lookupBoolean name <;> rfl
    exact run_bind_congr (run_forM_check hlookup (states.getD ∅).keys m) _

theorem blind : Blind apply := by
  intro c a
  cases c with
  | minWeight weight => exact (refilters_minWeight weight).blind a
  | exclude types => exact (refilters_exclude types).blind a
  | booleans states => exact (refilters_booleans states).blind a
  | map alter => rfl

theorem inPlace : InPlace apply steps := by
  intro c m hm
  cases c with
  | minWeight weight => exact (refilters_minWeight weight).does hm
  | exclude types => exact (refilters_exclude types).does hm
  | booleans states => exact (refilters_booleans states).does hm
  | map alter =>
    exact ⟨.blank { m.subject with map := alter m.subject.map } m.filter, Memory.agrees_blank _ _, rfl, rfl⟩

theorem makes_or_refused (c : FlowChange) (s : FlowSubject × FlowFilter) :
    (∃ s', Makes c s s' ∧ effect apply c s = .ok s') ∨ ∃ e, Refused c s e ∧ effect apply c s = .error e := by
  cases c with
  | minWeight weight =>
    rw [(refilters_minWeight weight).effect_eq]
    by_cases hweight : Weight.InRange weight
    · rw [if_pos hweight]
      obtain ⟨hmin, hmax⟩ : 1 ≤ weight ∧ weight ≤ 10 := hweight
      obtain ⟨n, rfl⟩ := Int.eq_ofNat_of_zero_le (by omega : 0 ≤ weight)
      exact Or.inl ⟨_, .minWeight ⟨by omega, by omega⟩, rfl⟩
    · rw [if_neg hweight]
      have hscale : ¬ (1 ≤ weight ∧ weight ≤ 10) := hweight
      exact Or.inr ⟨_, .minWeight (by omega), rfl⟩
  | exclude types =>
    rw [(refilters_exclude types).effect_eq]
    cases hids : s.1.policy.lookupTypes types with
    | ok ids =>
      exact Or.inl ⟨_, .exclude (Policy.exists_lookupType_of_lookupTypes hids) (Policy.mem_lookupTypes hids), rfl⟩
    | error e =>
      obtain ⟨before, type, after, rfl, hbefore, htype⟩ := Policy.lookupTypes_eq_error.mp hids
      exact Or.inr ⟨e, .exclude hbefore htype, rfl⟩
  | booleans states =>
    rw [(refilters_booleans states).effect_eq]
    cases hstates : checkBooleans states s with
    | ok u => exact Or.inl ⟨_, .booleans (checkBooleans_eq_ok hstates), rfl⟩
    | error e => exact Or.inr ⟨e, checkBooleans_eq_error hstates, rfl⟩
  | map alter => exact Or.inl ⟨_, .map, rfl⟩

end FlowChange

namespace TransitionChange

/-- What a change that succeeds makes of the settings. -/
inductive Makes : TransitionChange → Policy × TransitionFilter → Policy × TransitionFilter → Prop
  | reverse {back : Bool} {p : Policy} {f : TransitionFilter} :
    Makes (.reverse back) (p, f) (p, { f with reverse := back })
  | exclude {types : List String} {ids : Std.ExtTreeSet TypeId} {p : Policy} {f : TransitionFilter}
    (htypes : ∀ type ∈ types, ∃ id, p.lookupType type = .ok id)
    (hids : ∀ id, id ∈ ids ↔ ∃ type ∈ types, p.lookupType type = .ok id) :
    Makes (.exclude types) (p, f) (p, { f with exclude := ids })

inductive Refused : TransitionChange → Policy × TransitionFilter → Error → Prop
  | exclude {before after : List String} {type : String} {e : PolicyError} {s : Policy × TransitionFilter}
    (hbefore : ∀ type ∈ before, ∃ id, s.1.lookupType type = .ok id) (htype : s.1.lookupType type = .error e) :
    Refused (.exclude (before ++ type :: after)) s e

theorem refilters_exclude (types : List String) :
    Refilters apply steps (.exclude types) (fun s => liftM (s.1.lookupTypes types))
      fun ids f => { f with exclude := ids } where
  alters a := map_settings_withFilter _ a fun ids f => { f with exclude := ids }
  steps _ := rfl

/-- Where the direction is the one that is there already, nothing is dropped. -/
theorem setReverse_settings (a : TransitionAnalysis) (back : Bool) :
    (a.setReverse back).settings = (a.subject, { a.filter with reverse := back }) := by
  unfold TransitionAnalysis.setReverse
  by_cases hback : a.filter.reverse = back
  · rw [if_pos hback, ← hback]
    rfl
  · rw [if_neg hback]
    rfl

theorem effect_reverse (back : Bool) (s : Policy × TransitionFilter) :
    effect apply (.reverse back) s = .ok (s.1, { s.2 with reverse := back }) :=
  congrArg Except.ok (setReverse_settings (.blank transitionPlan s.1 s.2) back)

theorem blind : Blind apply := by
  intro c a
  cases c with
  | reverse back =>
    rw [effect_reverse]
    exact congrArg Except.ok (setReverse_settings a back)
  | exclude types => exact (refilters_exclude types).blind a

theorem inPlace : InPlace apply steps := by
  intro c m hm
  cases c with
  | reverse back =>
    rw [effect_reverse]
    have hrun : (steps (.reverse back)).run m = (if m.filter.reverse ≠ back then do
        Working.modifyFilter fun f => { f with reverse := back }
        Working.dropFiltered
      else pure () : Working Policy TransitionFilter TransitionEdge Unit).run m := rfl
    by_cases hback : m.filter.reverse = back
    · refine ⟨m, hm, by rw [← hback]; rfl, ?_⟩
      rw [hrun, if_neg (not_not.mpr hback)]
      rfl
    · refine ⟨⟨m.subject, { m.filter with reverse := back }, m.whole?, none⟩, ⟨hm.whole, nofun⟩, rfl, ?_⟩
      rw [hrun, if_pos hback]
      rfl
  | exclude types => exact (refilters_exclude types).does hm

theorem makes_or_refused (c : TransitionChange) (s : Policy × TransitionFilter) :
    (∃ s', Makes c s s' ∧ effect apply c s = .ok s') ∨ ∃ e, Refused c s e ∧ effect apply c s = .error e := by
  cases c with
  | reverse back => exact Or.inl ⟨_, .reverse, effect_reverse back s⟩
  | exclude types =>
    rw [(refilters_exclude types).effect_eq]
    cases hids : s.1.lookupTypes types with
    | ok ids =>
      exact Or.inl ⟨_, .exclude (Policy.exists_lookupType_of_lookupTypes hids) (Policy.mem_lookupTypes hids), rfl⟩
    | error e =>
      obtain ⟨before, type, after, rfl, hbefore, htype⟩ := Policy.lookupTypes_eq_error.mp hids
      exact Or.inr ⟨e, .exclude hbefore htype, rfl⟩

end TransitionChange

/-- Whatever has been done with an analysis, what an operation gives is what it gives where nothing has been drawn
yet and the settings are the same. Every change that succeeds has put there what it was given. -/
theorem analyses_fresh :
    (∀ (a : FlowAnalysis) (past : List (Operation FlowChange)),
      Memory.Fresh flowPlan FlowChange.steps FlowChange.Makes FlowChange.Refused
          (a.memory.after flowPlan FlowChange.steps past) ∧
        ∀ op, (a.after FlowChange.apply past).outcome FlowChange.apply op =
          (a.memory.after flowPlan FlowChange.steps past).outcome flowPlan FlowChange.steps op) ∧
      ∀ (a : TransitionAnalysis) (past : List (Operation TransitionChange)),
        Memory.Fresh transitionPlan TransitionChange.steps TransitionChange.Makes TransitionChange.Refused
            (a.memory.after transitionPlan TransitionChange.steps past) ∧
          ∀ op, (a.after TransitionChange.apply past).outcome TransitionChange.apply op =
            (a.memory.after transitionPlan TransitionChange.steps past).outcome transitionPlan
              TransitionChange.steps op := by
  refine ⟨fun a past => ⟨?_, ?_⟩, fun a past => ⟨?_, ?_⟩⟩
  · have hafter := Memory.agrees_and_settings_after FlowChange.inPlace (Memory.agrees_memory a) past
    exact Memory.fresh_of_agrees FlowChange.inPlace FlowChange.makes_or_refused hafter.1
  · exact outcome_eq_memory FlowChange.blind FlowChange.inPlace a past
  · have hafter := Memory.agrees_and_settings_after TransitionChange.inPlace (Memory.agrees_memory a) past
    exact Memory.fresh_of_agrees TransitionChange.inPlace TransitionChange.makes_or_refused hafter.1
  · exact outcome_eq_memory TransitionChange.blind TransitionChange.inPlace a past

def Survey.Answer.size? {ε : Type} : Answer ε → Option GraphSize
  | .size n => some n
  | _ => none

def gateRun : List (Operation FlowChange) := [
  .ask .filteredSize,
  .change (.minWeight 5),
  .ask .filteredSize,
  .change (.minWeight 11),
  .change (.exclude ["bob_t", "carol_t"]),
  .change (.map fun m => m.put "file" "write" ⟨.write, 2, true⟩)]

/-- The only flow is heavy enough at first. A weight that is out of range is refused and so is a name that no type
has, and once the map has been changed the flow is too light. -/
theorem fresh_gateRun :
    let a := FlowAnalysis.ofPolicy FlowFilter.gate FlowFilter.gateMap
    let m n := a.memory.after flowPlan FlowChange.steps (gateRun.take n)
    let outcome n op := (m n).outcome flowPlan FlowChange.steps op
    (outcome 0 (.ask .filteredSize)).toOption.bind Answer.size? = some ⟨2, 1⟩ ∧
      outcome 3 (.change (.minWeight 11)) = .error (AnalysisError.minWeightOutOfRange 11 : Error) ∧
      outcome 4 (.change (.exclude ["bob_t", "carol_t"])) = .error (PolicyError.unknownType "carol_t" : Error) ∧
      (outcome 6 (.ask .filteredSize)).toOption.bind Answer.size? = some ⟨2, 0⟩ ∧
      (m 6).filter.minWeight = 5 ∧
      (m 6).Fresh flowPlan FlowChange.steps FlowChange.Makes FlowChange.Refused := by
  intro a m outcome
  refine ⟨by decide +kernel, by rfl, by rfl, by decide +kernel, by decide +kernel, ?_⟩
  exact (analyses_fresh.1 a gateRun).1

end PolicyAnalysis
