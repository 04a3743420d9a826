import PolicyAnalysis.LazyList

/-!
# Enumerations

An enumeration goes from state to state, and some of its steps give an item. Each step leaves less work to do, so
it comes to an end. Between two items it can be suspended: the state is all that it needs to go on.
-/

namespace PolicyAnalysis

structure Enumeration (σ α : Type) where
  /-- The item that the next step gives, if it gives one, and the state after it; `none` at the end. -/
  step : σ → Option (Option α × σ)
  work : σ → Nat
  work_lt : ∀ {s s' out}, step s = some (out, s') → work s' < work s

namespace Enumeration

variable {σ α : Type} (e : Enumeration σ α)

/-- Goes on until the next item. -/
def next (s : σ) : Option (α × σ) :=
  match _h : e.step s with
  | none => none
  | some (some a, s') => some (a, s')
  | some (none, s') => next s'
termination_by e.work s
decreasing_by exact e.work_lt _h

theorem next_of_end {s : σ} (h : e.step s = none) : e.next s = none := by
  rw [next]
  split <;> simp_all

theorem next_of_item {s s' : σ} {a : α} (h : e.step s = some (some a, s')) : e.next s = some (a, s') := by
  rw [next]
  split <;> simp_all

theorem next_of_silent {s s' : σ} (h : e.step s = some (none, s')) : e.next s = e.next s' := by
  rw [next]
  split <;> simp_all

/-- The next item is given by the last of one or more steps. -/
theorem work_next_lt {s s' : σ} {a : α} (h : e.next s = some (a, s')) : e.work s' < e.work s := by
  induction hwork : e.work s using Nat.strongRecOn generalizing s with
  | ind w ih =>
    match hstep : e.step s with
    | none => simp [e.next_of_end hstep] at h
    | some (some b, t) =>
      rw [e.next_of_item hstep] at h
      cases h
      exact hwork ▸ e.work_lt hstep
    | some (none, t) =>
      rw [e.next_of_silent hstep] at h
      have hlt := hwork ▸ e.work_lt hstep
      exact Nat.lt_trans (ih _ hlt h rfl) hlt

/-- All items from a state on. -/
def items (s : σ) : LazyList α :=
  match _h : e.next s with
  | none => .nil
  | some (a, s') => .cons a fun _ => items s'
termination_by e.work s
decreasing_by exact e.work_next_lt _h

end Enumeration

end PolicyAnalysis
