import Mathlib.Algebra.Group.Nat.Defs
import Mathlib.Data.Nat.Bits
import PolicyAnalysis.Proofs.Condition.Formula
import PolicyAnalysis.Proofs.Condition.TruthTable

/-!
# The rows of a truth table

The rows of a table are numbered, and the digits of a row's number in base two are the values that it gives to the
booleans. So every choice of values has one row, and the table of a condition is determined by the values that the
condition takes.
-/

namespace PolicyAnalysis

namespace TruthTable

variable {start row : NameTable Bool} {names : List String}

theorem length_assignments (start : NameTable Bool) (names : List String) :
    (assignments start names).length = 2 ^ names.length := by
  induction names generalizing start with
  | nil => rfl
  | cons name names ih =>
    rw [assignments, List.length_append, ih, ih, List.length_cons, Nat.pow_succ, Nat.mul_two]

/-- The name that comes first has the highest digit of the number of a row. -/
theorem getElem?_row (hnodup : names.Nodup) {k : Nat} (hrow : (assignments start names)[k]? = some row)
    {i : Nat} {name : String} (hname : names[i]? = some name) :
    row[name]? = some (k.testBit (names.length - 1 - i)) := by
  induction names generalizing start k i with
  | nil => cases hname
  | cons first names ih =>
    obtain ⟨hfirst, hnodup⟩ := List.nodup_cons.mp hnodup
    -- Rows of the second half have the highest digit and go on as the rows of the first half do.
    have hhalf {v : Bool} {k' : Nat} (hrow : (assignments (start.insert first v) names)[k']? = some row)
        (hhigh : k.testBit names.length = v) (hlow : ∀ j < names.length, k.testBit j = k'.testBit j) :
        row[name]? = some (k.testBit ((first :: names).length - 1 - i)) := by
      cases i with
      | zero =>
        cases hname
        obtain ⟨-, hothers⟩ := mem_assignments.mp (List.mem_of_getElem? hrow)
        rw [hothers name hfirst, Std.ExtTreeMap.getElem?_insert_self]
        exact congrArg some hhigh.symm
      | succ i =>
        rw [List.getElem?_cons_succ] at hname
        have hi : i < names.length := (List.getElem?_eq_some_iff.mp hname).1
        rw [ih hnodup hrow hname, List.length_cons, ← hlow (names.length - 1 - i) (by omega)]
        congr 2
        omega
    have hlength := length_assignments (start.insert first false) names
    rw [assignments] at hrow
    rcases Nat.lt_or_ge k (2 ^ names.length) with hk | hk
    · rw [List.getElem?_append_left (hlength ▸ hk)] at hrow
      exact hhalf hrow (Nat.testBit_lt_two_pow hk) fun _ _ => rfl
    · rw [List.getElem?_append_right (hlength ▸ hk), hlength] at hrow
      obtain ⟨k', rfl⟩ := Nat.exists_eq_add_of_le hk
      rw [Nat.add_sub_cancel_left] at hrow
      have hk' : k' < 2 ^ names.length := by
        rw [← length_assignments (start.insert first true)]
        exact (List.getElem?_eq_some_iff.mp hrow).1
      refine hhalf hrow ?_ fun j hj => Nat.testBit_two_pow_add_gt hj k'
      rw [Nat.testBit_two_pow_add_eq, Nat.testBit_lt_two_pow hk', Bool.not_false]

/-- Every choice of values for the names is that of one row. -/
theorem existsUnique_row {values : NameTable Bool} (hnodup : names.Nodup)
    (hvalues : ∀ name, name ∈ values ↔ name ∈ names) : ∃! k : Nat, (assignments ∅ names)[k]? = some values := by
  have hmem : values ∈ assignments ∅ names := by
    refine mem_assignments.mpr ⟨fun name hname => ?_, fun name hname => ?_⟩
    · exact ⟨_, Std.ExtTreeMap.getElem?_eq_some_getElem ((hvalues name).mpr hname)⟩
    · rw [Std.ExtTreeMap.getElem?_empty, Std.ExtTreeMap.getElem?_eq_none]
      exact mt (hvalues name).mp hname
  obtain ⟨k, hk⟩ := List.mem_iff_getElem?.mp hmem
  refine ⟨k, hk, fun k' hk' => ?_⟩
  have hlt {m : Nat} (hm : (assignments ∅ names)[m]? = some values) : m < 2 ^ names.length := by
    rw [← length_assignments ∅ names]
    exact (List.getElem?_eq_some_iff.mp hm).1
  -- The digits of both numbers are the values of the names, and there are no further digits.
  refine Nat.eq_of_testBit_eq fun j => ?_
  rcases Nat.lt_or_ge j names.length with hj | hj
  · have hname := List.getElem?_eq_getElem (l := names) (i := names.length - 1 - j) (by omega)
    have hdigit := (getElem?_row hnodup hk' hname).symm.trans (getElem?_row hnodup hk hname)
    have hindex : names.length - 1 - (names.length - 1 - j) = j := by omega
    rw [hindex] at hdigit
    exact Option.some.inj hdigit
  · have hpow : 2 ^ names.length ≤ 2 ^ j := Nat.pow_le_pow_right (by omega) hj
    rw [Nat.testBit_lt_two_pow ((hlt hk').trans_le hpow), Nat.testBit_lt_two_pow ((hlt hk).trans_le hpow)]

end TruthTable

/-- The rows of a table count up over the names in their order. Each row gives a value to every name, the first name
having the highest digit, and has what the condition evaluates to; every choice of values is that of one row. -/
structure Condition.Tabulated (c : Condition) (t : TruthTable) : Prop where
  booleans : t.booleans = c.booleans.toList
  ascending : t.booleans.Pairwise fun a b => compare a b = .lt
  length : t.results.length = 2 ^ t.booleans.length
  rows : ∀ k < 2 ^ t.booleans.length, ∃ row v, (TruthTable.assignments ∅ t.booleans)[k]? = some row ∧
    (∀ i name, t.booleans[i]? = some name → row[name]? = some (k.testBit (t.booleans.length - 1 - i))) ∧
    (∀ name ∉ t.booleans, row[name]? = none) ∧ c.evaluate row = .ok v ∧ t.results[k]? = some v
  unique : ∀ values : NameTable Bool, (∀ name, name ∈ values ↔ name ∈ t.booleans) →
    ∃! k : Nat, (TruthTable.assignments ∅ t.booleans)[k]? = some values

namespace Condition

theorem tabulated_truthTable (c : Condition) : c.Tabulated c.truthTable where
  booleans := rfl
  ascending := c.booleans.ordered_toList
  length := by
    rw [truthTable, List.length_map, TruthTable.length_assignments]
  rows k hk := by
    have hlength := TruthTable.length_assignments ∅ c.booleans.toList
    have hrow := List.getElem?_eq_getElem (hlength ▸ hk : k < (TruthTable.assignments ∅ c.booleans.toList).length)
    obtain ⟨hnames, hothers⟩ := TruthTable.mem_assignments.mp (List.mem_of_getElem? hrow)
    obtain ⟨v, hv⟩ := c.exists_evaluate fun name hname => hnames name (Std.ExtTreeSet.mem_toList.mpr hname)
    refine ⟨_, v, hrow, fun i name => TruthTable.getElem?_row (nodup_toList c.booleans) hrow, ?_, hv, ?_⟩
    · intro name hname
      rw [hothers name hname, Std.ExtTreeMap.getElem?_empty]
    · rw [truthTable, List.getElem?_map, hrow, Option.map_some, result_of_evaluate hv]
  unique values := TruthTable.existsUnique_row (nodup_toList c.booleans)

end Condition

open Checked in
theorem Conditional.assigns_of_isEnabled {place : Conditional} {values : NameTable Bool} {active : Bool}
    (h : place.isEnabled values = .ok active) : Assigns values place.condition.booleans := by
  obtain ⟨v, hv, -⟩ := bind_eq_ok.mp h
  exact place.condition.exists_evaluate_iff.mp ⟨v, hv⟩

namespace Condition

/-- A table lists the values of its condition for all values of the booleans, each once, and no row stands for a
failed evaluation. Two conditions have one table exactly if they name the same booleans and have the same value
whenever these have values. So rules at places with one identity count under the same values. -/
theorem truthTable_canonical (c c' : Condition) :
    c.Tabulated c.truthTable ∧
    (c.truthTable = c'.truthTable ↔ c.booleans = c'.booleans ∧ ∀ values, Assigns values c.booleans →
      ∃ v, c.evaluate values = .ok v ∧ c'.evaluate values = .ok v) ∧
    ∀ branch branch', Conditional.identity ⟨c, branch⟩ = Conditional.identity ⟨c', branch'⟩ →
      ∀ values active, Conditional.isEnabled ⟨c, branch⟩ values = .ok active ↔
        Conditional.isEnabled ⟨c', branch'⟩ values = .ok active := by
  refine ⟨c.tabulated_truthTable, ?_, ?_⟩
  · rw [truthTable_eq_iff]
    refine and_congr_right fun _ => forall₂_congr fun values hvalues => ?_
    obtain ⟨v, hv⟩ := c.exists_evaluate hvalues
    rw [hv]
    constructor
    · intro hv'
      exact ⟨v, rfl, hv'.symm⟩
    · intro ⟨w, hw, hw'⟩
      exact hw.trans hw'.symm
  · intro branch branch' hidentity values active
    have hbooleans : c.booleans = c'.booleans := (truthTable_eq_iff.mp (Prod.mk.inj hidentity).1).1
    have hsame (hvalues : Assigns values c.booleans) := Conditional.isEnabled_congr hidentity hvalues
    constructor
    · intro h
      rw [← hsame (Conditional.assigns_of_isEnabled h)]
      exact h
    · intro h
      rw [hsame (hbooleans ▸ Conditional.assigns_of_isEnabled h)]
      exact h

def someUnset : Condition where
  tokens := [.boolean "staff", .not, .boolean "open", .not, .binary .or]
  balanced := rfl
  size_booleans_le := by decide +kernel

/-- Both say that not both booleans are set, so they are one table, and rules under them count alike. -/
theorem truthTable_canonical_nand :
    nand.truthTable = someUnset.truthTable ∧ nand.truthTable = ⟨["open", "staff"], [true, true, true, false]⟩ ∧
      (∃! k : Nat, (TruthTable.assignments ∅ nand.truthTable.booleans)[k]? =
        some (.ofList [("open", true), ("staff", false)])) ∧
      (∃ v, nand.evaluate (.ofList [("open", true), ("staff", false), ("closed", true)]) = .ok v ∧
        someUnset.evaluate (.ofList [("open", true), ("staff", false), ("closed", true)]) = .ok v) ∧
      ∀ values active, Conditional.isEnabled ⟨nand, false⟩ values = .ok active ↔
        Conditional.isEnabled ⟨someUnset, false⟩ values = .ok active := by
  obtain ⟨tabulated, same, enabled⟩ := truthTable_canonical nand someUnset
  have htable : nand.truthTable = someUnset.truthTable := by decide +kernel
  have hlist : nand.truthTable = ⟨["open", "staff"], [true, true, true, false]⟩ := by decide +kernel
  refine ⟨htable, hlist, tabulated.unique _ ?_, (same.mp htable).2 _ ?_, enabled false false ?_⟩
  · intro name
    rw [hlist, Std.ExtTreeMap.mem_ofList, List.contains_iff_mem]
    rfl
  · exact nand.exists_evaluate_iff.mp ⟨true, by rfl⟩
  · rw [Conditional.identity, htable]
    rfl

end Condition

end PolicyAnalysis
