import PolicyAnalysis.Proofs.Toml.Number
import PolicyAnalysis.Proofs.Toml.Quoted
import PolicyAnalysis.Toml.Parser
import PolicyAnalysis.Toml.Printer

/-!
# TOML values are read back

A value that stands on one line is read up to the comma, the bracket or the line break behind it. The reader's fuel
only has to exceed the length of the value's text, for every item of a list takes a character at least.
-/

namespace PolicyAnalysis.Toml

variable {rest cs : List Char} {c : Char} {fuel depth d : Nat} {v : Toml} {items : List Toml}

/-- Strings, integers of 64 bits, booleans, and lists of such values, up to `d` lists in one another. -/
inductive Plain : Nat → Toml → Prop
  | str (d : Nat) (s : String) : Plain d (.str s)
  | int (d : Nat) {n : Int} (hmin : -0x8000000000000000 ≤ n) (hmax : n < 0x8000000000000000) : Plain d (.int n)
  | bool (d : Nat) (b : Bool) : Plain d (.bool b)
  | arr {d : Nat} {items : List Toml} (h : ∀ v ∈ items, Plain d v) : Plain (d + 1) (.arr items)

/-- Values that are not nested too deep to be read on one line. -/
def Inline (v : Toml) : Prop :=
  ∃ d < maxDepth, Plain d v

theorem Plain.not_isTable (h : Plain d v) : ¬ v.isTable := by
  cases h <;> exact Bool.false_ne_true

theorem Plain.sections_eq_nil (h : Plain d v) (path : List String) : sections path v = [] := by
  cases h <;> rfl

def valueChars (v : Toml) : List Char :=
  (inlineText v).toList

def itemsChars (items : List Toml) : List Char :=
  [',', ' '].intercalate (items.map valueChars)

theorem inlineItems_eq (items : List Toml) : inlineItems items = items.map inlineText := by
  induction items with
  | nil => rfl
  | cons v items ih => rw [inlineItems, ih, List.map_cons]

theorem valueChars_arr (items : List Toml) : valueChars (.arr items) = '[' :: (itemsChars items ++ [']']) := by
  rw [valueChars, inlineText, inlineItems_eq, String.toList_append, String.toList_append, String.toList_intercalate,
    List.map_map]
  rfl

theorem itemsChars_singleton (v : Toml) : itemsChars [v] = valueChars v := by
  simp [itemsChars]

theorem itemsChars_cons_cons (v w : Toml) (items : List Toml) :
    itemsChars (v :: w :: items) = valueChars v ++ ',' :: ' ' :: itemsChars (w :: items) := by
  simp [itemsChars, List.intercalate_cons_cons]

/-- The characters that stand between values or end a list. -/
def isFiller (c : Char) : Bool :=
  c ∈ [' ', '\t', '\n', '\r', '#', ']']

theorem exists_toList_toString (n : Int) :
    ∃ c tail, (toString n).toList = c :: tail ∧ (c.isDigit ∨ c = '-') := by
  rw [toList_toString, signChars]
  split
  next => exact ⟨_, _, rfl, Or.inr rfl⟩
  next =>
    obtain ⟨c, digits, heq, hc⟩ := exists_toDigits n.natAbs
    exact ⟨c, digits, heq, Or.inl hc⟩

theorem not_isFiller_of_isDigit (h : c.isDigit ∨ c = '-') : ¬ isFiller c := by
  simp only [isFiller, List.mem_cons, List.not_mem_nil, or_false, decide_eq_true_eq]
  rintro (rfl | rfl | rfl | rfl | rfl | rfl) <;> revert h <;> decide

theorem exists_valueChars (h : Plain d v) : ∃ c tail, valueChars v = c :: tail ∧ ¬ isFiller c := by
  cases h with
  | str d s =>
    obtain ⟨c, tail, heq, hc⟩ := exists_quoteChars s.toList
    refine ⟨c, tail, by rw [valueChars, inlineText, quote, String.toList_ofList, heq], ?_⟩
    rcases hc with rfl | rfl <;> decide
  | @int d n _ _ =>
    obtain ⟨c, tail, heq, hc⟩ := exists_toList_toString n
    exact ⟨c, tail, heq, not_isFiller_of_isDigit hc⟩
  | bool d b =>
    cases b
    · exact ⟨'f', ['a', 'l', 's', 'e'], rfl, by decide⟩
    · exact ⟨'t', ['r', 'u', 'e'], rfl, by decide⟩
  | @arr d items _ => exact ⟨'[', _, valueChars_arr items, by decide⟩

theorem skipAllFiller_space (cs : List Char) : skipAllFiller (' ' :: cs) = skipAllFiller cs :=
  rfl

theorem skipAllFiller_cons (h : c ∉ [' ', '\t', '\n', '\r', '#']) : skipAllFiller (c :: cs) = c :: cs := by
  simp only [List.mem_cons, List.not_mem_nil, or_false, not_or] at h
  obtain ⟨hspace, htab, hnewline, hreturn, hcomment⟩ := h
  delta skipAllFiller
  rw [List.length_cons, skipFiller]
  · exact fun _ heq => hcomment (List.cons.inj heq).1
  · exact fun _ heq => hspace (List.cons.inj heq).1
  · exact fun _ heq => htab (List.cons.inj heq).1
  · exact fun _ heq => hnewline (List.cons.inj heq).1
  · exact fun _ heq => hreturn (List.cons.inj heq).1

theorem skipAllFiller_valueChars (h : Plain d v) (rest : List Char) :
    skipAllFiller (valueChars v ++ rest) = valueChars v ++ rest := by
  obtain ⟨c, tail, heq, hc⟩ := exists_valueChars h
  rw [heq, List.cons_append, skipAllFiller_cons]
  simp only [isFiller, List.mem_cons, decide_eq_true_eq, not_or] at hc ⊢
  exact ⟨hc.1, hc.2.1, hc.2.2.1, hc.2.2.2.1, hc.2.2.2.2.1, List.not_mem_nil⟩

theorem valueChars_append_ne (h : Plain d v) (rest tail : List Char) : valueChars v ++ rest ≠ ']' :: tail := by
  obtain ⟨c, cs, heq, hc⟩ := exists_valueChars h
  rw [heq]
  intro h
  rw [(List.cons.inj h).1] at hc
  exact hc (by decide)

theorem endsValue_cons (h : c = ',' ∨ c = ']' ∨ c = '\n') : EndsValue (c :: rest) :=
  ⟨c, rest, rfl, h⟩

theorem items?_space (read : List Toml) (cs : List Char) :
    items? fuel depth read (' ' :: cs) = items? fuel depth read cs := by
  cases fuel with
  | zero => rw [items?, items?]
  | succ fuel => rw [items?, items?, skipAllFiller_space]

theorem items?_close (read : List Toml) (rest : List Char) :
    items? (fuel + 1) depth read (']' :: rest) = some (.arr read.reverse, rest) := by
  rw [items?]
  rfl

/-- The item of a list that is read next, with what stands behind it. -/
theorem items?_item (h : Plain d v) {read : List Toml} {tail : List Char}
    (hread : value? fuel depth (valueChars v ++ c :: tail) = some (v, c :: tail)) (hc : c = ',' ∨ c = ']') :
    items? (fuel + 1) depth read (valueChars v ++ c :: tail) =
      if c = ',' then items? fuel depth (v :: read) tail else some (.arr (v :: read).reverse, tail) := by
  rw [items?, skipAllFiller_valueChars h]
  split
  next heq => exact absurd heq (valueChars_append_ne h _ _)
  next =>
    rw [hread]
    rcases hc with rfl | rfl <;> rfl

/-- The items of a list are read one after the other, if each is where it stands. -/
theorem items?_itemsChars (hplain : ∀ v ∈ items, Plain d v)
    (hread : ∀ v ∈ items, ∀ (fuel : Nat) (rest : List Char), (valueChars v).length < fuel → EndsValue rest →
      value? fuel depth (valueChars v ++ rest) = some (v, rest))
    {read : List Toml} (hfuel : (itemsChars items).length < fuel) :
    items? (fuel + 1) depth read (itemsChars items ++ ']' :: rest) = some (.arr (read.reverse ++ items), rest) := by
  induction items generalizing fuel read with
  | nil =>
    rw [List.append_nil]
    exact items?_close read rest
  | cons v items ih =>
    obtain ⟨hv, hplain⟩ := List.forall_mem_cons.mp hplain
    obtain ⟨hvread, hread⟩ := List.forall_mem_cons.mp hread
    cases items with
    | nil =>
      rw [itemsChars_singleton] at hfuel ⊢
      rw [items?_item hv (hvread fuel _ (by omega) (endsValue_cons (Or.inr (Or.inl rfl)))) (Or.inr rfl),
        if_neg (by decide), List.reverse_cons]
    | cons w items =>
      rw [itemsChars_cons_cons, List.length_append, List.length_cons, List.length_cons] at hfuel
      obtain ⟨fuel, rfl⟩ : ∃ m, fuel = m + 1 := Nat.exists_eq_add_one.mpr (by omega)
      have hnext : items? (fuel + 1) depth (v :: read) (itemsChars (w :: items) ++ ']' :: rest) =
          some (.arr ((v :: read).reverse ++ w :: items), rest) :=
        ih hplain hread (by omega)
      rw [itemsChars_cons_cons, List.append_assoc, List.cons_append, List.cons_append,
        items?_item hv (hvread (fuel + 1) _ (by omega) (endsValue_cons (Or.inl rfl))) (Or.inl rfl), if_pos rfl,
        items?_space, hnext, List.reverse_cons, List.append_assoc, List.singleton_append]

theorem value?_quoteChars (hrest : NoQuote rest) (s : String) :
    value? (fuel + 1) depth (quoteChars s.toList ++ rest) = some (.str s, rest) := by
  have hread := string?_quoteChars hrest s.toList
  obtain ⟨c, tail, heq, hc⟩ := exists_quoteChars s.toList
  rw [heq, List.cons_append] at hread ⊢
  rcases hc with rfl | rfl
  · rw [value?, hread, String.ofList_toList]
    rfl
  · rw [value?, hread, String.ofList_toList]
    rfl

theorem value?_number (hc : c.isDigit ∨ c = '-') (cs : List Char) :
    value? (fuel + 1) depth (c :: cs) = number? (c :: cs) := by
  have hne {d : Char} (hd : ¬ (d.isDigit ∨ d = '-')) (tail : List Char) : c :: cs = d :: tail → False :=
    fun heq => hd ((List.cons.inj heq).1 ▸ hc)
  rw [value?]
  · exact hne (by decide)
  · exact hne (by decide)
  · exact hne (by decide)
  · exact hne (by decide)
  · exact hne (by decide)
  · exact hne (by decide)

theorem EndsValue.noQuote (h : EndsValue rest) : NoQuote rest := by
  obtain ⟨c, tail, rfl, hc⟩ := h
  constructor <;> rintro ⟨⟩ <;> revert hc <;> decide

/-- Values are read back from their text. -/
theorem value?_valueChars (h : Plain d v) (hdepth : depth + d < maxDepth) (hfuel : (valueChars v).length < fuel)
    (hrest : EndsValue rest) : value? fuel depth (valueChars v ++ rest) = some (v, rest) := by
  induction h generalizing fuel depth rest with
  | str d s =>
    obtain ⟨fuel, rfl⟩ := Nat.exists_eq_add_one.mpr (Nat.zero_lt_of_lt hfuel)
    rw [valueChars, inlineText, quote, String.toList_ofList]
    exact value?_quoteChars hrest.noQuote s
  | @int d n hmin hmax =>
    obtain ⟨fuel, rfl⟩ := Nat.exists_eq_add_one.mpr (Nat.zero_lt_of_lt hfuel)
    have hread := number?_toString hmin hmax hrest
    obtain ⟨c, tail, heq, hc⟩ := exists_toList_toString n
    rw [valueChars, inlineText, heq, List.cons_append, value?_number hc, ← List.cons_append, ← heq, hread]
  | bool d b =>
    obtain ⟨fuel, rfl⟩ := Nat.exists_eq_add_one.mpr (Nat.zero_lt_of_lt hfuel)
    cases b
    · rfl
    · rfl
  | @arr d items hplain ih =>
    rw [valueChars_arr, List.length_cons, List.length_append] at hfuel
    obtain ⟨fuel, rfl⟩ : ∃ m, fuel = m + 2 := ⟨fuel - 2, by omega⟩
    rw [valueChars_arr, List.cons_append, List.append_assoc]
    have hdepth' : depth + 1 + d < maxDepth := by omega
    have hitems : items? (fuel + 1) (depth + 1) [] (itemsChars items ++ ']' :: rest) = some (.arr items, rest) :=
      items?_itemsChars hplain (fun v hv _ _ hfuel hrest => ih v hv hdepth' hfuel hrest) (by
        rw [List.length_singleton] at hfuel
        omega)
    rw [value?, if_pos (by omega)]
    exact hitems

end PolicyAnalysis.Toml
