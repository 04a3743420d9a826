import PolicyAnalysis.Proofs.Address.Text
import PolicyAnalysis.Toml.Number

/-!
# TOML integers are read back

An integer is tried as a date and as a real number first, so what is written for one must be neither: behind its
digits stands none of the marks that these have there.
-/

namespace PolicyAnalysis.Toml

variable {c : Char} {cs digits rest rest' : List Char} {m n : Nat}

/-- What may follow a value: a comma, the bracket of a list, or the end of the line. -/
def EndsValue (rest : List Char) : Prop :=
  ∃ c tail, rest = c :: tail ∧ (c = ',' ∨ c = ']' ∨ c = '\n')

theorem isDigit_of_mem_toDigits : ∀ c ∈ Nat.toDigits 10 n, c.isDigit :=
  Address.forall_mem_toDigits (by decide) (by decide)

theorem exists_toDigits (n : Nat) : ∃ c digits, Nat.toDigits 10 n = c :: digits ∧ c.isDigit := by
  obtain ⟨c, digits, heq⟩ := List.exists_cons_of_ne_nil (Nat.toDigits_ne_nil (b := 10) (n := n))
  exact ⟨c, digits, heq, isDigit_of_mem_toDigits c (heq ▸ List.mem_cons_self)⟩

theorem ofDigits_toDigits : ofDigits 10 (Nat.toDigits 10 n) = n := by
  have hvalue : ∀ digit < 10, digitValue digit.digitChar = digit := by
    decide
  induction n using Nat.base_induction 10 (by decide) with
  | single m hm =>
    rw [Nat.toDigits_of_lt_base hm, ofDigits, List.foldl_cons, List.foldl_nil, hvalue m hm]
    omega
  | digit m k hk hm ih =>
    rw [← Nat.toDigits_append_toDigits (by decide) hm hk, Nat.toDigits_of_lt_base hk, ofDigits, List.foldl_append,
      ← ofDigits, ih, List.foldl_cons, List.foldl_nil, hvalue k hk, Nat.mul_comm]

/-- The sign and the digits that are written for an integer. -/
def signChars (n : Int) : List Char :=
  if n < 0 then ['-'] else []

theorem toList_toString (n : Int) : (toString n).toList = signChars n ++ Nat.toDigits 10 n.natAbs := by
  rw [Int.toString_eq_repr, Int.repr_eq_if, signChars]
  split
  next hpos =>
    rw [if_neg (by omega), Nat.toList_repr, List.nil_append]
    congr 1
    omega
  next hneg =>
    rw [if_pos (by omega), String.toList_append, Nat.toList_repr, show (-n).toNat = n.natAbs by omega]
    rfl

/-- What stands where the digits of a number go on or end. -/
theorem head_digits (hdigits : ∀ c ∈ digits, c.isDigit) (hrest : EndsValue rest) :
    ∃ c tail, digits ++ rest = c :: tail ∧ (c.isDigit ∨ c = ',' ∨ c = ']' ∨ c = '\n') := by
  cases digits with
  | nil =>
    obtain ⟨c, tail, rfl, hc⟩ := hrest
    exact ⟨c, tail, rfl, Or.inr hc⟩
  | cons c digits => exact ⟨c, digits ++ rest, rfl, Or.inl (hdigits c List.mem_cons_self)⟩

theorem EndsValue.head (h : EndsValue rest) :
    ∃ c tail, rest = c :: tail ∧ ¬ c.isDigit ∧ c ∉ ['_', '.', 'e', 'E', 'x', 'o', 'b'] := by
  obtain ⟨c, tail, rfl, hc⟩ := h
  refine ⟨c, tail, rfl, ?_⟩
  rcases hc with rfl | rfl | rfl <;> decide

theorem rest_of_fixed? {count : Nat} (hrest : EndsValue rest)
    (h : fixed? count (digits ++ rest) = some (n, rest')) : rest' = digits.drop count ++ rest := by
  rw [fixed?] at h
  obtain ⟨⟨hlength, hall⟩, hsome⟩ := (Option.ite_none_right_eq_some).mp h
  cases hsome
  -- If the text went beyond the digits, what ends the value would be one.
  have hcount : count ≤ digits.length := by
    by_contra hlt
    obtain ⟨c, tail, rfl, hc, -⟩ := hrest.head
    refine hc (List.all_eq_true.mp hall c ?_)
    rw [List.take_append, List.mem_append]
    obtain ⟨k, hk⟩ : ∃ k, count - digits.length = k + 1 := Nat.exists_eq_add_one.mpr (by omega)
    rw [hk, List.take_succ_cons]
    exact Or.inr List.mem_cons_self
  exact List.drop_append_of_le_length hcount

theorem skip?_after_fixed? {count : Nat} (hdigits : ∀ c ∈ digits, c.isDigit) (hrest : EndsValue rest)
    (h : fixed? count (digits ++ rest) = some (n, rest')) (hc : c = '-' ∨ c = ':') : skip? c rest' = none := by
  rw [rest_of_fixed? hrest h]
  obtain ⟨d, tail, heq, hd⟩ := head_digits (fun c hc => hdigits c (List.mem_of_mem_drop hc)) hrest
  rw [heq, skip?, if_neg]
  rintro rfl
  rcases hc with rfl | rfl <;> revert hd <;> decide

theorem fixed?_of_head {count : Nat} (hcount : 0 < count) (hc : ¬ c.isDigit) : fixed? count (c :: cs) = none := by
  obtain ⟨count, rfl⟩ := Nat.exists_eq_add_one.mpr hcount
  refine if_neg fun h => hc ?_
  rw [List.take_succ_cons, List.all_cons, Bool.and_eq_true] at h
  exact h.2.1

theorem date?_eq_none (hdigits : ∀ c ∈ digits, c.isDigit) (hrest : EndsValue rest) :
    date? (digits ++ rest) = none := by
  have hday : afterDay? (digits ++ rest) = none := by
    rw [afterDay?]
    cases hyear : fixed? 4 (digits ++ rest) with
    | none => rfl
    | some read =>
      have hskip := skip?_after_fixed? hdigits hrest hyear (Or.inl rfl)
      simp [hskip]
  have htime : afterTime? (digits ++ rest) = none := by
    rw [afterTime?, bounded?]
    cases hhour : fixed? 2 (digits ++ rest) with
    | none => rfl
    | some read =>
      have hskip := skip?_after_fixed? hdigits hrest hhour (Or.inr rfl)
      simp [hskip]
  rw [date?, hday, htime]
  rfl

theorem date?_signed (cs : List Char) : date? ('-' :: cs) = none := by
  rw [date?, afterDay?, afterTime?, bounded?, fixed?_of_head (by decide) (by decide),
    fixed?_of_head (by decide) (by decide)]
  rfl

theorem moreDigits_cons (hc : c ≠ '_') :
    moreDigits Char.isDigit (c :: cs) =
      if c.isDigit then (moreDigits Char.isDigit cs).map fun (digits, rest) => (c :: digits, rest)
      else some ([], c :: cs) := by
  rw [moreDigits, if_neg hc]
  exact fun _ _ h _ => hc h

theorem moreDigits_append (hdigits : ∀ c ∈ digits, c.isDigit) (hrest : EndsValue rest) :
    moreDigits Char.isDigit (digits ++ rest) = some (digits, rest) := by
  induction digits with
  | nil =>
    obtain ⟨c, tail, rfl, hc, hmark⟩ := hrest.head
    rw [List.nil_append, moreDigits_cons fun h => hmark (h ▸ List.mem_cons_self), if_neg hc]
  | cons c digits ih =>
    obtain ⟨hc, hdigits⟩ := List.forall_mem_cons.mp hdigits
    have hunderscore : c ≠ '_' := by
      rintro rfl
      exact absurd hc (by decide)
    rw [List.cons_append, moreDigits_cons hunderscore, if_pos hc, ih hdigits, Option.map_some]

theorem toDigits_eq_zero_or (n : Nat) :
    Nat.toDigits 10 n = ['0'] ∨ ∃ c digits, Nat.toDigits 10 n = c :: digits ∧ c ≠ '0' := by
  rcases Nat.eq_zero_or_pos n with rfl | hn
  · exact Or.inl (Nat.toDigits_zero 10)
  · obtain ⟨c, digits, heq, -⟩ := exists_toDigits n
    have hzero : (Nat.toDigits 10 n).head? ≠ some '0' := Address.head?_toDigits_ne_zero (by decide) hn
    rw [heq] at hzero
    exact Or.inr ⟨c, digits, heq, fun h => hzero (congrArg some h)⟩

theorem sign_toDigits (n : Int) (rest : List Char) :
    sign (signChars n ++ Nat.toDigits 10 n.natAbs ++ rest) =
      (decide (n < 0), Nat.toDigits 10 n.natAbs ++ rest) := by
  rw [signChars]
  split
  next hneg =>
    rw [decide_eq_true hneg]
    rfl
  next hneg =>
    obtain ⟨c, digits, heq, hc⟩ := exists_toDigits n.natAbs
    rw [decide_eq_false hneg, heq, List.nil_append, List.cons_append]
    delta sign
    split
    next h =>
      cases h
      exact absurd hc (by decide)
    next h =>
      cases h
      exact absurd hc (by decide)
    next => rfl

theorem decimal?_toDigits (n : Int) (hrest : EndsValue rest) :
    decimal? (signChars n ++ Nat.toDigits 10 n.natAbs ++ rest) =
      some ((decide (n < 0), Nat.toDigits 10 n.natAbs), rest) := by
  rw [decimal?, sign_toDigits]
  rcases toDigits_eq_zero_or n.natAbs with heq | ⟨c, digits, heq, hc⟩
  · rw [heq]
    rfl
  · have hdigits := isDigit_of_mem_toDigits (n := n.natAbs)
    rw [heq] at hdigits ⊢
    obtain ⟨hdigit, hdigits⟩ := List.forall_mem_cons.mp hdigits
    have hread : digits? Char.isDigit (c :: digits ++ rest) = some (c :: digits, rest) := by
      rw [List.cons_append, digits?, if_pos hdigit, moreDigits_append hdigits hrest, Option.map_some]
    dsimp only
    split
    next h => exact absurd (List.cons.inj h).1 hc
    next => rw [hread, Option.map_some]

theorem decimalReal?_eq_none (n : Int) (hrest : EndsValue rest) :
    decimalReal? (signChars n ++ Nat.toDigits 10 n.natAbs ++ rest) = none := by
  obtain ⟨c, tail, heq, -, hmark⟩ := hrest.head
  simp only [List.mem_cons, List.not_mem_nil, or_false, not_or] at hmark
  have hfraction : fraction? rest = some ([], rest) := by
    delta fraction?
    rw [heq]
    split
    next h => exact absurd (List.cons.inj h).1 hmark.2.1
    next => rfl
  have hexponent : exponent? rest = some (none, rest) := by
    rw [heq, exponent?, if_neg fun h => h.elim hmark.2.2.1 hmark.2.2.2.1]
  rw [decimalReal?, decimal?_toDigits n hrest]
  simp [hfraction, hexponent]

theorem specialReal?_eq_none (n : Int) (rest : List Char) :
    specialReal? (signChars n ++ Nat.toDigits 10 n.natAbs ++ rest) = none := by
  obtain ⟨c, digits, heq, hc⟩ := exists_toDigits n.natAbs
  rw [specialReal?, sign_toDigits, heq]
  split
  next h =>
    cases (List.cons.inj h).1
    exact absurd hc (by decide)
  next h =>
    cases (List.cons.inj h).1
    exact absurd hc (by decide)
  next => rfl

/-- Behind a leading zero the number ends, so it is in no other base. -/
theorem toDigits_ne_prefixed (n : Int) (hrest : EndsValue rest) (hc : c ∈ ['x', 'o', 'b']) (tail : List Char) :
    signChars n ++ Nat.toDigits 10 n.natAbs ++ rest ≠ '0' :: c :: tail := by
  rw [signChars]
  split
  next =>
    intro h
    cases h
  next =>
    rw [List.nil_append]
    rcases toDigits_eq_zero_or n.natAbs with heq | ⟨d, digits, heq, hd⟩
    · obtain ⟨d, tail, rfl, -, hmark⟩ := hrest.head
      rw [heq]
      intro h
      cases h
      revert hmark hc
      simp only [List.mem_cons, List.not_mem_nil, or_false]
      rintro (rfl | rfl | rfl) <;> decide
    · rw [heq]
      exact fun h => hd (List.cons.inj h).1

theorem integer?_toDigits {n : Int} (hmin : -0x8000000000000000 ≤ n) (hmax : n < 0x8000000000000000)
    (hrest : EndsValue rest) :
    integer? (signChars n ++ Nat.toDigits 10 n.natAbs ++ rest) = some (.int n, rest) := by
  have hvalue : (if n < 0 then -(n.natAbs : Int) else n.natAbs) = n := by
    omega
  delta integer?
  split
  next h => exact absurd h (toDigits_ne_prefixed n hrest (by decide) _)
  next h => exact absurd h (toDigits_ne_prefixed n hrest (by decide) _)
  next h => exact absurd h (toDigits_ne_prefixed n hrest (by decide) _)
  next =>
    rw [decimal?_toDigits n hrest]
    simp only [Option.bind_eq_bind, Option.bind_some, decide_eq_true_eq, ofDigits_toDigits, hvalue, word?]
    rw [if_pos ⟨hmin, hmax⟩]
    rfl

/-- An integer of 64 bits is read back from its digits. -/
theorem number?_toString {n : Int} (hmin : -0x8000000000000000 ≤ n) (hmax : n < 0x8000000000000000)
    (hrest : EndsValue rest) : number? ((toString n).toList ++ rest) = some (.int n, rest) := by
  have hdate : date? (signChars n ++ Nat.toDigits 10 n.natAbs ++ rest) = none := by
    rw [signChars]
    split
    next => exact date?_signed _
    next => exact date?_eq_none isDigit_of_mem_toDigits hrest
  rw [toList_toString, number?, hdate, decimalReal?_eq_none n hrest, specialReal?_eq_none,
    integer?_toDigits hmin hmax hrest]
  rfl

end PolicyAnalysis.Toml
