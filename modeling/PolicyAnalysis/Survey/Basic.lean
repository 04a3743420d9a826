import PolicyAnalysis.Digraph.Route
import PolicyAnalysis.Policy.Basic

/-!
# Surveys

A survey looks at a subject, such as a policy, through a graph. Its plan says how the graph is drawn, what a
filter leaves of it and what a step through that stands for. The graphs that have been drawn are kept, so
that a later question need not draw them again. What is kept always agrees with the plan: a change drops the
graphs that it could make wrong.
-/

namespace PolicyAnalysis

variable {σ φ ε : Type}

structure SurveyPlan (σ φ ε : Type) where
  policy : σ → Policy
  whole : σ → Except Error (Digraph ε)
  filtered : σ → φ → Digraph ε → Except Error (Digraph ε)
  orient : φ → Step ε → Step ε

structure Survey (plan : SurveyPlan σ φ ε) where
  subject : σ
  filter : φ
  whole? : Option (Digraph ε)
  filtered? : Option (Digraph ε)
  whole_of_kept : ∀ g, whole? = some g → plan.whole subject = .ok g
  filtered_of_kept : ∀ h, filtered? = some h →
    ∃ g, plan.whole subject = .ok g ∧ plan.filtered subject filter g = .ok h

def attachResult {α : Type} : (r : Except Error α) → Except Error { a // r = .ok a }
  | .ok a => .ok ⟨a, rfl⟩
  | .error e => .error e

namespace Survey

variable {plan : SurveyPlan σ φ ε}

/-- A survey for which nothing has been drawn. -/
def blank (plan : SurveyPlan σ φ ε) (subject : σ) (filter : φ) : Survey plan :=
  ⟨subject, filter, none, none, nofun, nofun⟩

def policy (d : Survey plan) : Policy :=
  plan.policy d.subject

def forget (d : Survey plan) : Survey plan :=
  blank plan d.subject d.filter

/-- Another subject; nothing that was drawn of the old one is kept. -/
def withSubject (d : Survey plan) (subject : σ) : Survey plan :=
  blank plan subject d.filter

/-- Another filter; the whole graph is kept. -/
def withFilter (d : Survey plan) (filter : φ) : Survey plan :=
  ⟨d.subject, filter, d.whole?, none, d.whole_of_kept, nofun⟩

/-- The whole graph of the subject: the one that is kept, or else a new one. -/
def draw (d : Survey plan) : Except Error { g // plan.whole d.subject = .ok g } :=
  match kept : d.whole? with
  | some g => .ok ⟨g, d.whole_of_kept g kept⟩
  | none => attachResult (plan.whole d.subject)

def whole (d : Survey plan) : Except Error (Digraph ε × Survey plan) := do
  let ⟨g, hg⟩ ← d.draw
  return (g, { d with
    whole? := some g
    whole_of_kept := by rintro _ ⟨⟩; exact hg })

def filtered (d : Survey plan) : Except Error (Digraph ε × Survey plan) :=
  match d.filtered? with
  | some h => .ok (h, d)
  | none => do
    let ⟨g, hg⟩ ← d.draw
    let ⟨h, hh⟩ ← attachResult (plan.filtered d.subject d.filter g)
    return (h, { d with
      whole? := some g
      filtered? := some h
      whole_of_kept := by rintro _ ⟨⟩; exact hg
      filtered_of_kept := by rintro _ ⟨⟩; exact ⟨g, hg, hh⟩ })

end Survey

end PolicyAnalysis
