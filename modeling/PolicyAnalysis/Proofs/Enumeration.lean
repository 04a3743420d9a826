import PolicyAnalysis.Enumeration

/-!
# Draining enumerations

An enumeration is drained by asking for the next item until there is none. What it gives is what is left to give at
the state where it starts, if each step takes from that just what it gives.
-/

namespace PolicyAnalysis.Enumeration

variable {σ α : Type} {e : Enumeration σ α} {s s' : σ} {l : List α}

/-- The items that are met from a state until the enumeration is used up. -/
inductive Drains (e : Enumeration σ α) : σ → List α → Prop
  | done {s : σ} : e.next s = none → Drains e s []
  | next {s s' : σ} {a : α} {l : List α} : e.next s = some (a, s') → Drains e s' l → Drains e s (a :: l)

theorem Drains.of_next_eq (heq : e.next s = e.next s') (h : e.Drains s' l) : e.Drains s l := by
  cases h with
  | done hend => exact .done (heq.trans hend)
  | next hnext hrest => exact .next (heq.trans hnext) hrest

theorem Drains.toList_items (h : e.Drains s l) : (e.items s).toList = l := by
  induction h with
  | done hend =>
    rw [items]
    split <;> simp_all
  | next hnext _ ih =>
    rw [items]
    split <;> simp_all

/-- What is left to give before a step is what the step gives and what is left after it. -/
structure Leaves (e : Enumeration σ α) (Good : σ → Prop) (remaining : σ → List α) : Prop where
  of_end : ∀ {s}, Good s → e.step s = none → remaining s = []
  of_step : ∀ {s out s'}, Good s → e.step s = some (out, s') → Good s' ∧ remaining s = out.toList ++ remaining s'

theorem Leaves.drains {Good : σ → Prop} {remaining : σ → List α} (h : e.Leaves Good remaining) (good : Good s) :
    e.Drains s (remaining s) := by
  induction hwork : e.work s using Nat.strongRecOn generalizing s with
  | ind w ih =>
    match hstep : e.step s with
    | none =>
      rw [h.of_end good hstep]
      exact .done (e.next_of_end hstep)
    | some (some a, s') =>
      obtain ⟨good', hrest⟩ := h.of_step good hstep
      rw [hrest]
      exact .next (e.next_of_item hstep) (ih _ (hwork ▸ e.work_lt hstep) good' rfl)
    | some (none, s') =>
      obtain ⟨good', hrest⟩ := h.of_step good hstep
      rw [hrest]
      exact (ih _ (hwork ▸ e.work_lt hstep) good' rfl).of_next_eq (e.next_of_silent hstep)

end PolicyAnalysis.Enumeration
