import Mathlib.Data.Finset.Card
import Mathlib.Data.Finset.Dedup
import PolicyAnalysis.Proofs.Condition.Evaluate

/-!
# Conditions as formulas

A formula is a condition as a tree. Written down, it has its operands before its operators, and a list of tokens
is written by one formula at most. The height of the stack tells the lists that are written by some formula from
all others, and what is left on the stack when a condition has been evaluated is the value of its formula.
-/

namespace PolicyAnalysis

open Condition

inductive Formula where
  | boolean (name : String)
  | not (f : Formula)
  | binary (op : Connective) (f g : Formula)
deriving DecidableEq

namespace Formula

/-- The tokens that write a formula down. -/
def tokens : Formula → List Token
  | boolean name => [.boolean name]
  | not f => f.tokens ++ [.not]
  | binary op f g => f.tokens ++ g.tokens ++ [.binary op]

def names : Formula → List String
  | boolean name => [name]
  | not f => f.names
  | binary _ f g => f.names ++ g.names

def value (assigned : String → Bool) : Formula → Bool
  | boolean name => assigned name
  | not f => !f.value assigned
  | binary op f g => op.apply (f.value assigned) (g.value assigned)

/-- The stack of formulas after a token; `none` if the token finds too few operands. -/
def push? : List Formula → Token → Option (List Formula)
  | stack, .boolean name => some (boolean name :: stack)
  | f :: stack, .not => some (not f :: stack)
  | g :: f :: stack, .binary op => some (binary op f g :: stack)
  | _, _ => none

variable {f : Formula} {stack stack' : List Formula} {token : Token}

theorem filterMap_name?_tokens (f : Formula) : f.tokens.filterMap Token.name? = f.names := by
  induction f with
  | boolean name => rfl
  | not f ih => simp [tokens, names, ih, Token.name?]
  | binary op f g ihf ihg => simp [tokens, names, ihf, ihg, Token.name?]

theorem length_push? (stack : List Formula) (token : Token) :
    (push? stack token).map List.length = token.heightAfter? stack.length := by
  cases token with
  | boolean name => rfl
  | not => cases stack <;> rfl
  | binary op =>
    match stack with
    | [] => rfl
    | [_] => rfl
    | _ :: _ :: _ => rfl

theorem tokens_push? (h : push? stack token = some stack') :
    stack'.reverse.flatMap tokens = stack.reverse.flatMap tokens ++ [token] := by
  cases token with
  | boolean name =>
    cases h
    simp [tokens]
  | not =>
    match stack with
    | [] => cases h
    | f :: stack =>
      cases h
      simp [tokens]
  | binary op =>
    match stack with
    | [] => cases h
    | [_] => cases h
    | g :: f :: stack =>
      cases h
      simp [tokens]

/-- The check of a condition counts the formulas on the stack. -/
theorem length_foldlM_push? (ts : List Token) (stack : List Formula) :
    (ts.foldlM push? stack).map List.length = ts.foldlM Token.heightAfter? stack.length := by
  induction ts generalizing stack with
  | nil => rfl
  | cons token ts ih =>
    rw [List.foldlM_cons, List.foldlM_cons, ← length_push?]
    cases push? stack token with
    | none => rfl
    | some stack' => exact ih stack'

/-- What is on the stack writes down the tokens so far. -/
theorem tokens_foldlM_push? {ts : List Token} (h : ts.foldlM push? stack = some stack') :
    stack'.reverse.flatMap tokens = stack.reverse.flatMap tokens ++ ts := by
  induction ts generalizing stack with
  | nil =>
    cases h
    exact (List.append_nil _).symm
  | cons token ts ih =>
    rw [List.foldlM_cons] at h
    obtain ⟨stack₁, hpush, h⟩ := Option.bind_eq_some_iff.mp h
    rw [ih h, tokens_push? hpush, List.append_assoc, List.singleton_append]

theorem foldlM_push?_tokens (f : Formula) (stack : List Formula) :
    f.tokens.foldlM push? stack = some (f :: stack) := by
  induction f generalizing stack with
  | boolean name => rfl
  | not f ih =>
    rw [tokens, List.foldlM_append, ih]
    rfl
  | binary op f g ihf ihg =>
    rw [tokens, List.foldlM_append, List.foldlM_append, ihf]
    simp only [Option.bind_eq_bind, Option.bind_some, ihg]
    rfl

/-- A list of tokens is written by one formula at most. -/
theorem tokens_injective : Function.Injective tokens := by
  intro f g h
  have hf := foldlM_push?_tokens f []
  rw [h, foldlM_push?_tokens g []] at hf
  cases hf
  rfl

theorem balanced_iff (ts : List Token) : Condition.Balanced ts ↔ ∃ f : Formula, f.tokens = ts := by
  rw [Condition.Balanced, ← @List.length_nil Formula, ← length_foldlM_push?]
  constructor
  · intro h
    obtain ⟨stack, hrun, hlength⟩ := Option.map_eq_some_iff.mp h
    obtain ⟨f, rfl⟩ := List.length_eq_one_iff.mp hlength
    refine ⟨f, ?_⟩
    have htokens := tokens_foldlM_push? hrun
    simpa using htokens
  · rintro ⟨f, rfl⟩
    rw [foldlM_push?_tokens]
    rfl

variable {c : Condition} {values : NameTable Bool} {assigned : String → Bool}

theorem foldlM_step_tokens (c : Condition) (h : ∀ name ∈ f.names, values[name]? = some (assigned name))
    (stack : List Bool) : f.tokens.foldlM (c.step values) stack = .ok (f.value assigned :: stack) := by
  induction f generalizing stack with
  | boolean name =>
    have hname := h name List.mem_cons_self
    rw [tokens, List.foldlM_cons, step, hname]
    rfl
  | not f ih =>
    rw [tokens, List.foldlM_append, ih h]
    rfl
  | binary op f g ihf ihg =>
    obtain ⟨hf, hg⟩ := List.forall_mem_append.mp h
    rw [tokens, List.foldlM_append, List.foldlM_append, ihf hf]
    change (do List.foldlM (c.step values) (← g.tokens.foldlM (c.step values) _) [.binary op]) = _
    rw [ihg hg]
    rfl

end Formula

theorem size_ofList (names : List String) : (Std.ExtTreeSet.ofList names : NameSet).size = names.toFinset.card := by
  have hsame : (Std.ExtTreeSet.ofList names : NameSet).toList.toFinset = names.toFinset := by
    ext name
    simp
  rw [← hsame, List.toFinset_card_of_nodup (nodup_toList _), Std.ExtTreeSet.length_toList]

namespace Condition

variable {c : Condition} {values : NameTable Bool} {tokens : List Token}

/-- The formula of a condition that has been checked. -/
theorem exists_formula (c : Condition) : ∃ f : Formula, f.tokens = c.tokens :=
  (Formula.balanced_iff c.tokens).mp c.balanced

theorem size_booleansOf_tokens (f : Formula) : (booleansOf f.tokens).size = f.names.toFinset.card := by
  rw [booleansOf, Formula.filterMap_name?_tokens, size_ofList]

theorem tokens_of_ofTokens (h : ofTokens tokens = .ok c) : c.tokens = tokens := by
  rw [ofTokens] at h
  split at h
  · split at h
    · cases h
      rfl
    · cases h
  · cases h

theorem exists_ofTokens (f : Formula) (hfew : f.names.toFinset.card ≤ maxBooleans) :
    ∃ c, ofTokens f.tokens = .ok c := by
  have hbalanced : Balanced f.tokens := (Formula.balanced_iff f.tokens).mpr ⟨f, rfl⟩
  rw [← size_booleansOf_tokens] at hfew
  exact ⟨⟨f.tokens, hbalanced, hfew⟩, by rw [ofTokens, dif_pos hbalanced, dif_pos hfew]⟩

theorem ofTokens_eq_tooManyBooleans (f : Formula) (hmany : maxBooleans < f.names.toFinset.card) :
    ofTokens f.tokens = .error (.tooManyBooleans f.names.toFinset.card maxBooleans) := by
  have hbalanced : Balanced f.tokens := (Formula.balanced_iff f.tokens).mpr ⟨f, rfl⟩
  rw [← size_booleansOf_tokens] at hmany ⊢
  rw [ofTokens, dif_pos hbalanced, dif_neg (Nat.not_le_of_lt hmany)]

theorem ofTokens_eq_badExpression (hnone : ∀ f : Formula, f.tokens ≠ tokens) :
    ofTokens tokens = .error (.badExpression (textOf tokens)) := by
  have hbalanced : ¬ Balanced tokens := by
    rw [Formula.balanced_iff]
    exact fun ⟨f, hf⟩ => hnone f hf
  rw [ofTokens, dif_neg hbalanced]

theorem evaluate_eq_error {e : PolicyError} (h : c.tokens.foldlM (c.step values) [] = .error e) :
    c.evaluate values = .error e := by
  rw [evaluate, h]
  rfl

theorem evaluate_eq_unknownBoolean {before after : List Token} {name : String}
    (hsplit : c.tokens = before ++ .boolean name :: after)
    (hbefore : ∀ n, .boolean n ∈ before → ∃ v, values[n]? = some v) (hname : values[name]? = none) :
    c.evaluate values = .error (.unknownBoolean name) := by
  have hbalanced := c.balanced
  rw [Balanced, hsplit, List.foldlM_append] at hbalanced
  obtain ⟨height, hheight, -⟩ := Option.bind_eq_some_iff.mp hbalanced
  obtain ⟨stack, hrun, -⟩ : ∃ stack, before.foldlM (c.step values) [] = .ok stack ∧ stack.length = height :=
    exists_foldlM_step c hheight hbefore
  have hstop : c.step values stack (.boolean name) = .error (.unknownBoolean name) := by
    rw [step, hname]
  refine evaluate_eq_error ?_
  rw [hsplit, List.foldlM_append, hrun]
  show List.foldlM (c.step values) stack (.boolean name :: after) = _
  rw [List.foldlM_cons, hstop]
  rfl

/-- Either all booleans of a list of tokens have values, or there is a first that has none. -/
theorem assigned_or_exists_first (tokens : List Token) (values : NameTable Bool) :
    (∀ n, .boolean n ∈ tokens → ∃ v, values[n]? = some v) ∨
      ∃ before name after, tokens = before ++ .boolean name :: after ∧
        (∀ n, .boolean n ∈ before → ∃ v, values[n]? = some v) ∧ values[name]? = none := by
  induction tokens with
  | nil => exact Or.inl nofun
  | cons token tokens ih =>
    by_cases htoken : ∀ n, token = .boolean n → ∃ v, values[n]? = some v
    · have hcons {l : List Token} (hl : ∀ n, .boolean n ∈ l → ∃ v, values[n]? = some v) :
          ∀ n, .boolean n ∈ token :: l → ∃ v, values[n]? = some v := by
        intro n hn
        rcases List.mem_cons.mp hn with hn | hn
        · exact htoken n hn.symm
        · exact hl n hn
      rcases ih with hall | ⟨before, name, after, rfl, hbefore, hname⟩
      · exact Or.inl (hcons hall)
      · exact Or.inr ⟨token :: before, name, after, rfl, hcons hbefore, hname⟩
    · push Not at htoken
      obtain ⟨name, rfl, hname⟩ := htoken
      exact Or.inr ⟨[], name, tokens, rfl, nofun, Option.eq_none_iff_forall_ne_some.mpr hname⟩

theorem evaluate_of_assigned {f : Formula} (hf : f.tokens = c.tokens) {assigned : String → Bool}
    (h : ∀ name ∈ f.names, values[name]? = some (assigned name)) :
    c.tokens.foldlM (c.step values) [] = .ok [f.value assigned] ∧ c.evaluate values = .ok (f.value assigned) := by
  have hrun := Formula.foldlM_step_tokens c h []
  rw [hf] at hrun
  refine ⟨hrun, ?_⟩
  rw [evaluate, hrun]
  rfl

theorem exists_evaluate_iff (c : Condition) : (∃ v, c.evaluate values = .ok v) ↔ Assigns values c.booleans := by
  refine ⟨fun ⟨v, hv⟩ => ?_, c.exists_evaluate⟩
  rcases assigned_or_exists_first c.tokens values with hall | ⟨before, name, after, hsplit, hbefore, hname⟩
  · exact fun name hname => hall name ((mem_booleans c name).mp hname)
  · rw [evaluate_eq_unknownBoolean hsplit hbefore hname] at hv
    cases hv

theorem evaluate_ne_badExpression (c : Condition) (values : NameTable Bool) (text : String) :
    c.evaluate values ≠ .error (.badExpression text) := by
  rcases assigned_or_exists_first c.tokens values with hall | ⟨before, name, after, hsplit, hbefore, hname⟩
  · obtain ⟨v, hv⟩ := c.exists_evaluate fun name hname => hall name ((mem_booleans c name).mp hname)
    rw [hv]
    exact nofun
  · rw [evaluate_eq_unknownBoolean hsplit hbefore hname]
    exact nofun

/-- A list of tokens is a condition exactly if a formula with few enough booleans writes it; no second formula does.
Whatever values there are, a condition has the value of its formula, which is all that is left on the stack, or it
has the error of its first boolean without a value. -/
theorem formula_exact :
    Function.Injective Formula.tokens ∧
    (∀ tokens,
      ((∃ c, ofTokens tokens = .ok c) ↔
        ∃ f : Formula, f.tokens = tokens ∧ f.names.toFinset.card ≤ maxBooleans) ∧
      (∀ count most, ofTokens tokens = .error (.tooManyBooleans count most) ↔ most = maxBooleans ∧
        ∃ f : Formula, f.tokens = tokens ∧ f.names.toFinset.card = count ∧ maxBooleans < count) ∧
      (∀ text, ofTokens tokens = .error (.badExpression text) ↔
        text = textOf tokens ∧ ∀ f : Formula, f.tokens ≠ tokens)) ∧
    (∀ tokens c, ofTokens tokens = .ok c → c.tokens = tokens) ∧
    ∀ c : Condition, ∃ f : Formula, f.tokens = c.tokens ∧ ∀ values : NameTable Bool,
      (∀ assigned, (∀ name ∈ f.names, values[name]? = some (assigned name)) →
        c.tokens.foldlM (c.step values) [] = .ok [f.value assigned] ∧
          c.evaluate values = .ok (f.value assigned)) ∧
      (∀ before name after, c.tokens = before ++ .boolean name :: after →
        (∀ n, .boolean n ∈ before → ∃ v, values[n]? = some v) → values[name]? = none →
        c.evaluate values = .error (.unknownBoolean name)) ∧
      ∀ text, c.evaluate values ≠ .error (.badExpression text) := by
  have hunique {f g : Formula} (h : g.tokens = f.tokens) : g = f := Formula.tokens_injective h
  refine ⟨Formula.tokens_injective, fun tokens => ?_, fun tokens c => tokens_of_ofTokens, fun c => ?_⟩
  · by_cases hformula : ∃ f : Formula, f.tokens = tokens
    · obtain ⟨f, rfl⟩ := hformula
      rcases Nat.lt_or_ge maxBooleans f.names.toFinset.card with hmany | hfew
      · rw [ofTokens_eq_tooManyBooleans f hmany]
        grind
      · obtain ⟨c, hc⟩ := exists_ofTokens f hfew
        rw [hc]
        grind
    · push Not at hformula
      rw [ofTokens_eq_badExpression hformula]
      grind
  · obtain ⟨f, hf⟩ := exists_formula c
    refine ⟨f, hf, fun values => ⟨fun assigned => evaluate_of_assigned hf, ?_, c.evaluate_ne_badExpression values⟩⟩
    intro before name after hsplit hbefore hname
    exact evaluate_eq_unknownBoolean hsplit hbefore hname

def nand : Condition where
  tokens := [.boolean "open", .boolean "staff", .binary .and, .not]
  balanced := rfl
  size_booleans_le := by decide +kernel

/-- With both values it is evaluated, and of two booleans without a value the first is reported. -/
theorem exists_formula_exact_nand :
    ∃ f : Formula, f.tokens = nand.tokens ∧ f = .not (.binary .and (.boolean "open") (.boolean "staff")) ∧
      nand.tokens.foldlM (nand.step (.ofList [("open", true), ("staff", false)])) [] = .ok [true] ∧
      nand.evaluate (.ofList [("open", true), ("staff", false)]) = .ok true ∧
      nand.evaluate (.ofList [("closed", true)]) = .error (.unknownBoolean "open") := by
  obtain ⟨injective, -, -, evaluates⟩ := formula_exact
  obtain ⟨f, hf, hvalues⟩ := evaluates nand
  obtain rfl : f = .not (.binary .and (.boolean "open") (.boolean "staff")) := injective hf
  obtain ⟨hrun, hvalue⟩ := (hvalues (.ofList [("open", true), ("staff", false)])).1 (· == "open") (by decide +kernel)
  obtain ⟨-, herror, -⟩ := hvalues (.ofList [("closed", true)])
  exact ⟨_, hf, rfl, hrun, hvalue, herror [] "open" _ rfl nofun (by decide +kernel)⟩

end Condition

end PolicyAnalysis
