import PolicyAnalysis.Condition.Basic
import PolicyAnalysis.Proofs.Checked

/-!
# Evaluating conditions

While a condition is evaluated, the stack is as high as the check of the condition has counted. So every
operator finds its operands, and only a boolean without a value can stop the evaluation.
-/

namespace PolicyAnalysis

def Assigns (values : NameTable Bool) (names : NameSet) : Prop :=
  ∀ name ∈ names, ∃ v, values[name]? = some v

namespace Condition

open Checked

variable {c : Condition} {values : NameTable Bool}

theorem exists_step (c : Condition) {stack : List Bool} {token : Token} {height : Nat}
    (hheight : token.heightAfter? stack.length = some height)
    (hvalue : ∀ name, token = .boolean name → ∃ v, values[name]? = some v) :
    ∃ stack', c.step values stack token = .ok stack' ∧ stack'.length = height := by
  cases token with
  | boolean name =>
    obtain ⟨v, hv⟩ := hvalue name rfl
    refine ⟨v :: stack, ?_, Option.some.inj hheight⟩
    rw [step, hv]
  | not =>
    match stack with
    | [] => cases hheight
    | a :: stack => exact ⟨(!a) :: stack, rfl, Option.some.inj hheight⟩
  | binary op =>
    match stack with
    | [] => cases hheight
    | [a] => cases hheight
    | b :: a :: stack => exact ⟨op.apply a b :: stack, rfl, Option.some.inj hheight⟩

theorem exists_foldlM_step (c : Condition) {tokens : List Token} {stack : List Bool} {height : Nat}
    (hheight : tokens.foldlM Token.heightAfter? stack.length = some height)
    (hvalues : ∀ name, .boolean name ∈ tokens → ∃ v, values[name]? = some v) :
    ∃ stack', tokens.foldlM (c.step values) stack = .ok stack' ∧ stack'.length = height := by
  induction tokens generalizing stack with
  | nil => exact ⟨stack, rfl, Option.some.inj hheight⟩
  | cons token tokens ih =>
    rw [List.foldlM_cons] at hheight
    obtain ⟨h, hh, hheight⟩ := Option.bind_eq_some_iff.mp hheight
    have hvalue (name : String) (hname : token = .boolean name) : ∃ v, values[name]? = some v :=
      hvalues name (hname ▸ List.mem_cons_self)
    obtain ⟨stack₁, hstep, rfl⟩ := exists_step c hh hvalue
    have hrest (name : String) (hname : .boolean name ∈ tokens) : ∃ v, values[name]? = some v :=
      hvalues name (List.mem_cons_of_mem token hname)
    obtain ⟨stack', hrun, hlength⟩ := ih hheight hrest
    refine ⟨stack', ?_, hlength⟩
    rw [List.foldlM_cons, bind_eq_ok]
    exact ⟨stack₁, hstep, hrun⟩

theorem mem_booleans (c : Condition) (name : String) : name ∈ c.booleans ↔ .boolean name ∈ c.tokens := by
  rw [booleans, booleansOf, Std.ExtTreeSet.mem_ofList, List.contains_iff_mem, List.mem_filterMap]
  constructor
  · intro ⟨token, htoken, hname⟩
    cases token with
    | boolean name' =>
      cases hname
      exact htoken
    | not => cases hname
    | binary op => cases hname
  · intro h
    exact ⟨.boolean name, h, rfl⟩

theorem exists_evaluate (c : Condition) (hvalues : Assigns values c.booleans) :
    ∃ v, c.evaluate values = .ok v := by
  have htokens (name : String) (hname : .boolean name ∈ c.tokens) : ∃ v, values[name]? = some v :=
    hvalues name ((mem_booleans c name).mpr hname)
  have hbalanced : c.tokens.foldlM Token.heightAfter? ([] : List Bool).length = some 1 := c.balanced
  obtain ⟨stack, hrun, hlength⟩ := exists_foldlM_step c hbalanced htokens
  obtain ⟨v, rfl⟩ := List.length_eq_one_iff.mp hlength
  refine ⟨v, ?_⟩
  rw [evaluate, hrun]
  rfl

end Condition

end PolicyAnalysis
