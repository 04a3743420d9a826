import PolicyAnalysis.Proofs.Survey.Answers

/-!
# What a survey in memory answers

The graphs in memory agree with the subject and the filter, and every question keeps it so, also one that fails
halfway. Then a question gives what it gives where nothing has been drawn.
-/

namespace PolicyAnalysis.Survey

variable {σ φ ε α β : Type} {plan : SurveyPlan σ φ ε}

def memory (d : Survey plan) : Memory σ φ ε :=
  ⟨d.subject, d.filter, d.whole?, d.filtered?⟩

def settings (d : Survey plan) : σ × φ :=
  (d.subject, d.filter)

namespace Memory

def settings (m : Memory σ φ ε) : σ × φ :=
  (m.subject, m.filter)

/-- The graphs in memory are those of the subject and the filter. -/
structure Agrees (plan : SurveyPlan σ φ ε) (m : Memory σ φ ε) : Prop where
  whole : ∀ g, m.whole? = some g → plan.whole m.subject = .ok g
  filtered : ∀ h, m.filtered? = some h → plan.left m.subject m.filter = .ok h

theorem agrees_blank (subject : σ) (filter : φ) : (blank subject filter : Memory σ φ ε).Agrees plan :=
  ⟨nofun, nofun⟩

theorem agrees_memory (d : Survey plan) : d.memory.Agrees plan where
  whole := d.whole_of_kept
  filtered h kept := by
    obtain ⟨g, hg, hh⟩ := d.filtered_of_kept h kept
    exact Checked.bind_eq_ok.mpr ⟨g, hg, hh⟩

/-- What steps end in that give a result and leave a memory. -/
def finish (m : Memory σ φ ε) : Except Error α → EStateM.Result Error (Memory σ φ ε) α
  | .ok a => .ok a m
  | .error e => .error e m

/-- Steps have a result, and they leave a memory that agrees and has some settings. -/
def Does (plan : SurveyPlan σ φ ε) (m : Memory σ φ ε) (steps : Working σ φ ε α) (result : Except Error α)
    (s : σ × φ) : Prop :=
  ∃ m' : Memory σ φ ε, m'.Agrees plan ∧ m'.settings = s ∧ steps.run m = m'.finish result

variable {m : Memory σ φ ε} {steps : Working σ φ ε α} {result : Except Error α} {s : σ × φ}

/-- Further steps may use the result and whatever the memory is then. -/
theorem Does.bind (h : Does plan m steps result s) {k : α → Working σ φ ε β} {next : α → Except Error β}
    (hk : ∀ a m', result = .ok a → m'.Agrees plan → m'.settings = s → Does plan m' (k a) (next a) s) :
    Does plan m (steps >>= k) (result >>= next) s := by
  obtain ⟨m', hm', hs, hrun⟩ := h
  have hrun : steps m = m'.finish result := hrun
  have hbind : (steps >>= k).run m = EStateM.bind steps k m := rfl
  rw [EStateM.bind, hrun] at hbind
  cases result with
  | error e => exact ⟨m', hm', hs, hbind⟩
  | ok a =>
    obtain ⟨m'', hm'', hs', hrun'⟩ := hk a m' rfl hm' hs
    exact ⟨m'', hm'', hs', hbind.trans hrun'⟩

theorem does_pure (hm : m.Agrees plan) (hs : m.settings = s) (a : α) : Does plan m (pure a) (pure a) s :=
  ⟨m, hm, hs, rfl⟩

theorem Does.map (h : Does plan m steps result s) (f : α → β) :
    Does plan m (steps >>= fun a => pure (f a)) (result >>= fun a => pure (f a)) s :=
  h.bind fun a _ _ hm' hs => does_pure hm' hs (f a)

theorem does_check (hm : m.Agrees plan) (hs : m.settings = s) (check : Except Error α) :
    Does plan m (liftM check) check s := by
  refine ⟨m, hm, hs, ?_⟩
  cases check <;> rfl

theorem does_whole (hm : m.Agrees plan) (hs : m.settings = s) :
    Does plan m (Working.whole plan) (plan.whole s.1) s := by
  obtain ⟨subject, filter, whole?, filtered?⟩ := m
  subst hs
  cases whole? with
  | some g =>
    have hwhole : plan.whole subject = .ok g := hm.whole g rfl
    refine ⟨_, hm, rfl, ?_⟩
    rw [settings, hwhole]
    rfl
  | none =>
    show Does plan _ (liftM (plan.whole subject) >>= _) (plan.whole subject) _
    cases hwhole : plan.whole subject with
    | error e => exact ⟨_, hm, rfl, rfl⟩
    | ok g =>
      refine ⟨⟨subject, filter, some g, filtered?⟩, ⟨?_, hm.filtered⟩, rfl, rfl⟩
      rintro _ ⟨⟩
      exact hwhole

/-- Where the filter fails, the graph stays in memory all the same. -/
theorem does_filtered (hm : m.Agrees plan) (hs : m.settings = s) :
    Does plan m (Working.filtered plan) (plan.left s.1 s.2) s := by
  apply (does_whole hm hs).bind
  intro g m' hwhole hm' hs'
  obtain ⟨subject, filter, whole?, filtered?⟩ := m'
  subst hs'
  have hwhole : plan.whole subject = .ok g := hwhole
  have hleft : plan.left subject filter = plan.filtered subject filter g := by
    rw [SurveyPlan.left, hwhole]
    rfl
  cases filtered? with
  | some h =>
    have hkept : plan.left subject filter = .ok h := hm'.filtered h rfl
    refine ⟨_, hm', rfl, ?_⟩
    rw [settings, ← hleft, hkept]
    rfl
  | none =>
    show Does plan _ (liftM (plan.filtered subject filter g) >>= _) (plan.filtered subject filter g) _
    cases hfiltered : plan.filtered subject filter g with
    | error e => exact ⟨_, hm', rfl, rfl⟩
    | ok h =>
      refine ⟨⟨subject, filter, whole?, some h⟩, ⟨hm'.whole, ?_⟩, rfl, rfl⟩
      rintro _ ⟨⟩
      exact hleft.trans hfiltered

theorem does_lookupType (hm : m.Agrees plan) (hs : m.settings = s) (type : String) :
    Does plan m (Working.lookupType plan type) (liftM ((plan.policy s.1).lookupType type)) s := by
  subst hs
  exact does_check hm rfl (liftM ((plan.policy m.subject).lookupType type))

theorem does_routes (hm : m.Agrees plan) (hs : m.settings = s) (source target : String)
    (search : Digraph ε → TypeId → TypeId → LazyList (List TypeId)) :
    Does plan m (Working.routes plan source target search) (routesAnew plan s.1 s.2 source target search) s := by
  apply (does_lookupType hm hs source).bind
  rintro n m₁ - hm₁ hs₁
  apply (does_lookupType hm₁ hs₁ target).bind
  rintro n' m₂ - hm₂ hs₂
  apply (does_filtered hm₂ hs₂).bind
  rintro g m₃ - hm₃ rfl
  exact does_pure hm₃ rfl ((search g n n').map fun nodes => (g.route nodes).map (plan.orient m₃.filter))

theorem does_simplePaths (hm : m.Agrees plan) (hs : m.settings = s) (source target : String)
    (limit : Option Nat) :
    Does plan m (Working.simplePaths plan source target limit)
      (simplePathsAnew plan s.1 s.2 source target limit) s := by
  by_cases hlimit : limit = some 0
  · subst hlimit
    exact ⟨m, hm, hs, rfl⟩
  · unfold Working.simplePaths simplePathsAnew
    rw [if_neg hlimit, if_neg hlimit]
    exact does_routes hm hs source target _

theorem does_stepsAt (hm : m.Agrees plan) (hs : m.settings = s) (type : String) (side : Side) :
    Does plan m (Working.stepsAt plan type side) (stepsAnew plan s.1 s.2 type side) s := by
  apply (does_lookupType hm hs type).bind
  rintro n m₁ - hm₁ hs₁
  apply (does_filtered hm₁ hs₁).bind
  rintro g m₂ - hm₂ rfl
  exact does_pure hm₂ rfl ((g.stepsAt n side).map (plan.orient m₂.filter))

theorem does_ask (hm : m.Agrees plan) (hs : m.settings = s) (q : Question) :
    Does plan m (Working.ask plan q) (q.answer plan s.1 s.2) s := by
  cases q with
  | size => exact (does_whole hm hs).map fun g => Answer.size g.size
  | filteredSize => exact (does_filtered hm hs).map fun g => Answer.size g.size
  | filtered => exact (does_filtered hm hs).map Answer.graph
  | simplePaths source target limit => exact (does_simplePaths hm hs source target limit).map Answer.paths
  | simplePathsWith source target settings =>
    apply (does_check hm hs settings.limit).bind
    rintro limit m₁ - hm₁ hs₁
    exact (does_simplePaths hm₁ hs₁ source target limit).map Answer.paths
  | shortestPaths source target => exact (does_routes hm hs source target _).map Answer.paths
  | stepsAt type side => exact (does_stepsAt hm hs type side).map Answer.steps

end Memory

end PolicyAnalysis.Survey
