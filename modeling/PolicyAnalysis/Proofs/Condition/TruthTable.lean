import PolicyAnalysis.Condition.TruthTable
import PolicyAnalysis.Proofs.Condition.Evaluate

/-!
# Truth tables tell conditions apart

A condition has a value that depends on nothing but the values of its booleans, and its table has a row for all of
them. So conditions with one table have the same value whenever their booleans have values.
-/

namespace PolicyAnalysis

variable {c c' : Condition} {values values' : NameTable Bool}

namespace Condition

theorem step_congr {stack : List Bool} {token : Token}
    (h : ∀ name, token = .boolean name → values[name]? = values'[name]?) :
    c.step values stack token = c.step values' stack token := by
  cases token with
  | boolean name => rw [step, step, h name rfl]
  | not => cases stack <;> rfl
  | binary op =>
    cases stack with
    | nil => rfl
    | cons b stack => cases stack <;> rfl

theorem foldlM_step_congr {tokens : List Token} (stack : List Bool)
    (h : ∀ name, .boolean name ∈ tokens → values[name]? = values'[name]?) :
    tokens.foldlM (c.step values) stack = tokens.foldlM (c.step values') stack := by
  induction tokens generalizing stack with
  | nil => rfl
  | cons token tokens ih =>
    have hstep : c.step values stack token = c.step values' stack token := by
      apply step_congr
      intro name hname
      exact h name (hname ▸ List.mem_cons_self)
    have hrest (name : String) (hname : .boolean name ∈ tokens) : values[name]? = values'[name]? :=
      h name (List.mem_cons_of_mem token hname)
    rw [List.foldlM_cons, List.foldlM_cons, hstep]
    exact bind_congr fun stack' => ih stack' hrest

theorem evaluate_congr (h : ∀ name ∈ c.booleans, values[name]? = values'[name]?) :
    c.evaluate values = c.evaluate values' := by
  have htokens (name : String) (hname : .boolean name ∈ c.tokens) : values[name]? = values'[name]? :=
    h name ((mem_booleans c name).mpr hname)
  rw [evaluate, evaluate, foldlM_step_congr [] htokens]

end Condition

/-- A row gives values to the names, and is as it was before for all others. -/
theorem TruthTable.mem_assignments {start row : NameTable Bool} {names : List String} :
    row ∈ assignments start names ↔
      (∀ name ∈ names, ∃ v, row[name]? = some v) ∧ ∀ name ∉ names, row[name]? = start[name]? := by
  induction names generalizing start with
  | nil =>
    rw [assignments, List.mem_singleton, Std.ExtTreeMap.ext_getElem?_iff]
    simp
  | cons name names ih =>
    have hfirst : row ∈ assignments start (name :: names) ↔
        ∃ v, row ∈ assignments (start.insert name v) names := by
      rw [assignments, List.mem_append, Bool.exists_bool]
    have hinsert (v : Bool) (other : String) :
        (start.insert name v)[other]? = if name = other then some v else start[other]? := by
      rw [Std.ExtTreeMap.getElem?_insert]
      simp only [Std.LawfulEqCmp.compare_eq_iff_eq]
    rw [hfirst]
    simp only [ih, hinsert]
    constructor
    · intro ⟨v, hnames, hothers⟩
      refine ⟨?_, ?_⟩
      · intro other hother
        by_cases hmem : other ∈ names
        · exact hnames other hmem
        · rcases List.mem_cons.mp hother with rfl | hother
          · exact ⟨v, (hothers other hmem).trans (if_pos rfl)⟩
          · exact absurd hother hmem
      · intro other hother
        have hne : name ≠ other := fun heq => hother (heq ▸ List.mem_cons_self)
        have hmem : other ∉ names := fun hmem => hother (List.mem_cons_of_mem name hmem)
        rw [hothers other hmem, if_neg hne]
    · intro ⟨hnames, hothers⟩
      obtain ⟨v, hv⟩ := hnames name List.mem_cons_self
      refine ⟨v, fun other hother => hnames other (List.mem_cons_of_mem name hother), ?_⟩
      intro other hmem
      by_cases hname : name = other
      · rw [if_pos hname, ← hname, hv]
      · rw [if_neg hname]
        exact hothers other (List.not_mem_cons_of_ne_of_not_mem (Ne.symm hname) hmem)

namespace Condition

theorem exists_row (h : Assigns values c.booleans) :
    ∃ row ∈ TruthTable.assignments ∅ c.booleans.toList, ∀ name ∈ c.booleans, row[name]? = values[name]? := by
  -- The row is the values themselves without those of other names.
  have hrow (name : String) (hname : name ∈ c.booleans) :
      (values.filter fun name _ => c.booleans.contains name)[name]? = values[name]? := by
    rw [Std.ExtTreeMap.getElem?_filter', Std.ExtTreeSet.contains_iff_mem.mpr hname]
    cases values[name]? <;> rfl
  refine ⟨_, TruthTable.mem_assignments.mpr ⟨?_, ?_⟩, hrow⟩
  · intro name hname
    have hname := Std.ExtTreeSet.mem_toList.mp hname
    rw [hrow name hname]
    exact h name hname
  · intro name hname
    have hnot : c.booleans.contains name = false := by
      rw [← Bool.not_eq_true, Std.ExtTreeSet.contains_iff_mem, ← Std.ExtTreeSet.mem_toList]
      exact hname
    rw [Std.ExtTreeMap.getElem?_filter', hnot, Std.ExtTreeMap.getElem?_empty, Option.filter_eq_none_iff]
    exact fun _ _ => Bool.false_ne_true

theorem result_of_evaluate {v : Bool} (h : c.evaluate values = .ok v) :
    (c.evaluate values).toOption.getD false = v := by
  rw [h]
  rfl

theorem truthTable_eq_iff :
    c.truthTable = c'.truthTable ↔
      c.booleans = c'.booleans ∧
        ∀ values, Assigns values c.booleans → c.evaluate values = c'.evaluate values := by
  constructor
  · intro h
    have hlist : c.booleans.toList = c'.booleans.toList := congrArg TruthTable.booleans h
    have hbooleans : c.booleans = c'.booleans := Std.ExtTreeSet.ext_toList (hlist ▸ List.Perm.refl _)
    refine ⟨hbooleans, ?_⟩
    intro values hvalues
    obtain ⟨row, hrow, hsame⟩ := exists_row hvalues
    have hresults := congrArg TruthTable.results h
    simp only [truthTable, ← hbooleans] at hresults
    have hresult := List.map_inj_left.mp hresults row hrow
    have hleft : c.evaluate row = c.evaluate values := evaluate_congr hsame
    have hright : c'.evaluate row = c'.evaluate values := by
      apply evaluate_congr
      rw [← hbooleans]
      exact hsame
    obtain ⟨v, hv⟩ := exists_evaluate c hvalues
    obtain ⟨v', hv'⟩ := exists_evaluate c' (hbooleans ▸ hvalues)
    rw [hleft, hright, result_of_evaluate hv, result_of_evaluate hv'] at hresult
    rw [hv, hv', hresult]
  · intro ⟨hbooleans, hevaluate⟩
    rw [truthTable, truthTable, ← hbooleans, TruthTable.mk.injEq]
    refine ⟨rfl, List.map_inj_left.mpr ?_⟩
    intro row hrow
    have hassigns : Assigns row c.booleans := by
      intro name hname
      exact (TruthTable.mem_assignments.mp hrow).1 name (Std.ExtTreeSet.mem_toList.mpr hname)
    rw [hevaluate row hassigns]

end Condition

theorem Conditional.isEnabled_congr {place place' : Conditional} (h : place.identity = place'.identity)
    (hvalues : Assigns values place.condition.booleans) : place.isEnabled values = place'.isEnabled values := by
  obtain ⟨htable, hbranch⟩ := Prod.mk.inj h
  have hevaluate := (Condition.truthTable_eq_iff.mp htable).2 values hvalues
  rw [isEnabled, isEnabled, hevaluate, hbranch]

end PolicyAnalysis
