import PolicyAnalysis.Proofs.Address.Text
import PolicyAnalysis.Toml.Quoted

/-!
# TOML strings are read back

Every text is read back from the form it is written in. Between quotes this goes by characters, each as it is or as
its escape. A string over several lines goes by runs of its delimiter, which the reader takes as a whole: none is
longer than two before the end, so the last is the closing one.
-/

namespace PolicyAnalysis.Toml

variable {c d : Char} {cs rest text : List Char} {fuel : Nat}

theorem isPlain_of_not_isControl (h : ¬ isControl c) (hc : c ≠ '\n') : isPlain c := by
  simp only [isControl, Bool.or_eq_true, Bool.and_eq_true, decide_eq_true_eq, bne_iff_ne, beq_iff_eq, not_or,
    not_and, not_not] at h
  simp only [isPlain, Bool.or_eq_true, Bool.and_eq_true, decide_eq_true_eq, beq_iff_eq]
  by_cases htab : c = '\t'
  · exact Or.inl (Or.inl htab)
  · have hlow : ¬ c.toNat < 0x20 := fun hlow => hc (h.1 ⟨hlow, htab⟩)
    have hdelete := h.2
    omega

theorem newline?_eq_none (h : isPlain c) : newline? (c :: rest) = none := by
  delta newline?
  split
  next heq =>
    cases heq
    exact absurd h (by decide)
  next heq =>
    cases heq
    exact absurd h (by decide)
  next => rfl

theorem length_of_mapM_eq_some {α β : Type} {f : α → Option β} {l : List α} {results : List β}
    (h : l.mapM f = some results) : results.length = l.length := by
  induction l generalizing results with
  | nil =>
    cases h
    rfl
  | cons a l ih =>
    rw [List.mapM_cons] at h
    simp only [Option.bind_eq_bind, Option.bind_eq_some_iff, Option.pure_def, Option.some.injEq] at h
    obtain ⟨_, -, results, hl, rfl⟩ := h
    rw [List.length_cons, List.length_cons, ih hl]

theorem numbered?_append {count : Nat} (h : numbered? count cs = some (c, rest)) :
    numbered? count (cs ++ text) = some (c, rest ++ text) := by
  simp only [numbered?, Option.bind_eq_bind, Option.bind_eq_some_iff, ite_eq_iff, reduceCtorEq, and_false, or_false,
    Option.pure_def, Option.some.injEq, Prod.mk.injEq] at h ⊢
  obtain ⟨digits, hdigits, ⟨hcount, hvalid⟩, hchar, hrest⟩ := h
  -- All the digits stand in the first text, so it is that long.
  have hlength : digits.length = (cs.take count).length := length_of_mapM_eq_some hdigits
  have hle : count ≤ cs.length := by
    rw [hcount, List.length_take] at hlength
    omega
  exact ⟨digits, by rwa [List.take_append_of_le_length hle], ⟨hcount, hvalid⟩, hchar,
    by rw [List.drop_append_of_le_length hle, hrest]⟩

theorem escape?_append (h : escape? cs = some (c, rest)) : escape? (cs ++ text) = some (c, rest ++ text) := by
  delta escape? at h
  split at h
  case h_8 | h_9 => exact numbered?_append h
  all_goals cases h
  all_goals rfl

/-- What is written for an escaped character: a backslash, and what stands for the character after it. -/
theorem exists_escape (h : c.toNat < 0x80) :
    ∃ d body, escape c = '\\' :: d :: body ∧ (d :: body).all isPlain ∧ d ≠ ' ' ∧ d ≠ '\t' ∧
      escape? (d :: body) = some (c, []) := by
  have hall : ∀ n < 0x80, (escape (Char.ofNat n)).head? = some '\\' ∧ (escape (Char.ofNat n)).tail.all isPlain ∧
      (escape (Char.ofNat n)).tail.head? ∉ [none, some ' ', some '\t'] ∧
      escape? (escape (Char.ofNat n)).tail = some (Char.ofNat n, []) := by
    decide +kernel
  have hc := hall c.toNat h
  rw [Char.ofNat_toNat] at hc
  match hescape : escape c with
  | [] => simp [hescape] at hc
  | [d] => simp [hescape] at hc
  | e :: d :: body =>
    simp only [hescape, List.head?_cons, List.tail_cons, Option.some.injEq] at hc
    obtain ⟨rfl, hplain, hhead, hread⟩ := hc
    simp only [List.mem_cons, reduceCtorEq, Option.some.injEq, List.not_mem_nil, or_false, false_or, not_or] at hhead
    exact ⟨d, body, rfl, hplain, hhead.1, hhead.2, hread⟩

theorem toNat_lt_of_isEscaped (h : isEscaped c) : c.toNat < 0x80 := by
  simp only [isEscaped, isControl, Bool.or_eq_true, Bool.and_eq_true, beq_iff_eq, decide_eq_true_eq] at h
  rcases h with ((rfl | rfl) | rfl) | ⟨⟨hlow, -⟩, -⟩ | hdelete
  · decide
  · decide
  · decide
  · omega
  · omega

/-- How the next character of a string in quotes is written: a quote as it is if that is allowed, as an escape, or as it
is. -/
theorem escaped_cons (long : Bool) (quotes : Nat) (c : Char) (cs : List Char) :
    (c = '"' ∧ long ∧ quotes < 2 ∧ escaped long quotes (c :: cs) = '"' :: escaped long (quotes + 1) cs) ∨
      (c.toNat < 0x80 ∧ escaped long quotes (c :: cs) = escape c ++ escaped long 0 cs) ∨
      (c ≠ '"' ∧ c ≠ '\\' ∧ (isPlain c ∨ long ∧ c = '\n') ∧
        escaped long quotes (c :: cs) = c :: escaped long 0 cs) := by
  rw [escaped]
  by_cases hquote : c = '"'
  · rw [if_pos hquote, hquote]
    by_cases hlast : long ∧ quotes < 2
    · exact Or.inl ⟨rfl, hlast.1, hlast.2, if_pos hlast⟩
    · exact Or.inr (Or.inl ⟨by decide, if_neg hlast⟩)
  · rw [if_neg hquote]
    by_cases hc : isEscaped c ∧ ¬ (long ∧ c = '\n')
    · exact Or.inr (Or.inl ⟨toNat_lt_of_isEscaped hc.1, if_pos hc⟩)
    · refine Or.inr (Or.inr ⟨hquote, ?_, ?_, if_neg hc⟩)
      · rintro rfl
        exact hc ⟨by decide, fun h => absurd h.2 (by decide)⟩
      · by_cases hnewline : long ∧ c = '\n'
        · exact Or.inr hnewline
        · have hescaped : ¬ isEscaped c := fun h => hc ⟨h, hnewline⟩
          simp only [isEscaped, Bool.or_eq_true, beq_iff_eq, not_or] at hescaped
          exact Or.inl (isPlain_of_not_isControl hescaped.2 hescaped.1.1.2)

theorem quotedBody_escape (h : c.toNat < 0x80) (read : List Char) :
    quotedBody (fuel + 1) read (escape c ++ rest) = quotedBody fuel (c :: read) rest := by
  obtain ⟨d, body, hescape, -, -, -, hread⟩ := exists_escape h
  rw [hescape, List.cons_append, quotedBody, if_neg (by decide), if_pos rfl, escape?_append hread]
  rfl

theorem quotedBody_plain (h : isPlain c) (hquote : c ≠ '"') (hbackslash : c ≠ '\\') (read : List Char) :
    quotedBody (fuel + 1) read (c :: rest) = quotedBody fuel (c :: read) rest := by
  rw [quotedBody, if_neg hquote, if_neg hbackslash, if_pos h]

theorem quotedBody_escaped {read : List Char} (hfuel : (escaped false 0 cs).length < fuel) :
    quotedBody fuel read (escaped false 0 cs ++ '"' :: rest) = some (String.ofList (read.reverse ++ cs), rest) := by
  induction cs generalizing fuel read with
  | nil =>
    obtain ⟨fuel, rfl⟩ := Nat.exists_eq_add_one.mpr (Nat.zero_lt_of_lt hfuel)
    rw [escaped, List.nil_append, quotedBody, if_pos rfl, List.append_nil]
  | cons c cs ih =>
    obtain ⟨fuel, rfl⟩ := Nat.exists_eq_add_one.mpr (Nat.zero_lt_of_lt hfuel)
    have hread : (c :: read).reverse ++ cs = read.reverse ++ c :: cs := by
      rw [List.reverse_cons, List.append_assoc, List.singleton_append]
    rcases escaped_cons false 0 c cs with ⟨-, hlong, -⟩ | ⟨hlow, heq⟩ | ⟨hquote, hbackslash, hplain, heq⟩
    · exact absurd hlong Bool.false_ne_true
    · obtain ⟨d, body, hbody, -⟩ := exists_escape hlow
      have hlt : (escaped false 0 cs).length < fuel := by
        rw [heq, hbody, List.length_append, List.length_cons] at hfuel
        omega
      rw [heq, List.append_assoc, quotedBody_escape hlow, ih hlt, hread]
    · have hplain : isPlain c := hplain.resolve_right fun h => Bool.false_ne_true h.1
      rw [heq, List.length_cons] at hfuel
      rw [heq, List.cons_append, quotedBody_plain hplain hquote hbackslash, ih (Nat.lt_of_succ_lt_succ hfuel), hread]

theorem shortString?_escaped (cs rest : List Char) :
    shortString? ('"' :: (escaped false 0 cs ++ '"' :: rest)) = some (String.ofList cs, rest) := by
  refine quotedBody_escaped ?_
  rw [List.length_append, List.length_cons]
  omega

theorem literalBody_plain {read : List Char} (h : ∀ c ∈ cs, isPlain c ∧ c ≠ '\'') :
    literalBody read (cs ++ '\'' :: rest) = some (String.ofList (read.reverse ++ cs), rest) := by
  induction cs generalizing read with
  | nil => rw [List.nil_append, literalBody, if_pos rfl, List.append_nil]
  | cons c cs ih =>
    obtain ⟨⟨hplain, hquote⟩, hcs⟩ := List.forall_mem_cons.mp h
    rw [List.cons_append, literalBody, if_neg hquote, if_pos hplain, ih hcs, List.reverse_cons, List.append_assoc,
      List.singleton_append]

theorem shortString?_literal (h : ∀ c ∈ cs, isPlain c ∧ c ≠ '\'') (rest : List Char) :
    shortString? ('\'' :: (cs ++ '\'' :: rest)) = some (String.ofList cs, rest) :=
  literalBody_plain h

/-- The character that a string over several lines starts and ends with, three times. -/
def delimiter (escapes : Bool) : Char :=
  if escapes then '"' else '\''

/-- In a string over several lines, `piece` stands for the character `c`. -/
structure StandsFor (escapes : Bool) (piece : List Char) (c : Char) : Prop where
  head : ∃ d tail, piece = d :: tail ∧ d ≠ delimiter escapes
  step (fuel : Nat) (read rest : List Char) :
    longBody escapes (fuel + 1) read (piece ++ rest) = longBody escapes fuel (c :: read) rest

/-- The inside of a string over several lines with what it stands for: pieces with at most two delimiters before each
and after the last. -/
inductive LongText (escapes : Bool) : List Char → List Char → Prop
  | last {k : Nat} (hk : k ≤ 2) :
    LongText escapes (List.replicate k (delimiter escapes)) (List.replicate k (delimiter escapes))
  | piece {k : Nat} (hk : k ≤ 2) {piece text cs : List Char} {c : Char} (hpiece : StandsFor escapes piece c)
    (h : LongText escapes text cs) :
    LongText escapes (List.replicate k (delimiter escapes) ++ (piece ++ text))
      (List.replicate k (delimiter escapes) ++ c :: cs)

theorem standsFor_plain {escapes : Bool} (h : isPlain c) (hdelimiter : c ≠ delimiter escapes)
    (hbackslash : escapes → c ≠ '\\') : StandsFor escapes [c] c where
  head := ⟨c, [], rfl, hdelimiter⟩
  step fuel read rest := by
    have hescape : ¬ (escapes && decide (c = '\\')) = true := by
      rw [Bool.and_eq_true, decide_eq_true_eq]
      exact fun ⟨hescapes, hc⟩ => hbackslash hescapes hc
    rw [List.singleton_append, longBody]
    exact (if_neg hdelimiter).trans ((if_neg hescape).trans (if_pos h))

theorem standsFor_newline (escapes : Bool) : StandsFor escapes ['\n'] '\n' where
  head := ⟨'\n', [], rfl, by cases escapes <;> decide⟩
  step fuel read rest := by
    cases escapes <;> rfl

theorem standsFor_escape (h : c.toNat < 0x80) : StandsFor true (escape c) c where
  head := by
    obtain ⟨d, body, hescape, -⟩ := exists_escape h
    exact ⟨'\\', d :: body, hescape, by decide⟩
  step fuel read rest := by
    obtain ⟨d, body, hescape, hplain, hspace, htab, hread⟩ := exists_escape h
    have hjoin : lineJoin? (d :: body ++ rest) = none := by
      rw [lineJoin?, skipSpace, List.cons_append, List.dropWhile_cons_of_neg (by simp [isSpace, hspace, htab]),
        newline?_eq_none (List.all_eq_true.mp hplain d List.mem_cons_self), Option.map_none]
    rw [hescape, List.cons_append, longBody]
    refine (if_neg (by decide)).trans ((if_pos rfl).trans ?_)
    rw [hjoin, escape?_append hread]
    rfl

theorem takeWhile_run (k : Nat) (h : rest.head? ≠ some d) :
    (List.replicate k d ++ rest).takeWhile (· == d) = List.replicate k d ∧
      (List.replicate k d ++ rest).dropWhile (· == d) = rest :=
  takeWhile_dropWhile_append (fun _ hc => beq_iff_eq.mpr (List.eq_of_mem_replicate hc))
    fun _ hc heq => h (hc.trans (congrArg some (beq_iff_eq.mp heq)))

/-- A run of delimiters is read as a whole. -/
theorem longBody_run {escapes : Bool} {k : Nat} (hrest : rest.head? ≠ some (delimiter escapes)) (read : List Char) :
    longBody escapes (fuel + 1) read (List.replicate (k + 1) (delimiter escapes) ++ rest) =
      (closing? (k + 1)).bind fun (kept, closed) =>
        let read := List.replicate kept (delimiter escapes) ++ read
        if closed then some (String.ofList read.reverse, rest) else longBody escapes fuel read rest := by
  obtain ⟨htake, hdrop⟩ := takeWhile_run (k + 1) hrest
  rw [List.replicate_succ, List.cons_append] at htake hdrop ⊢
  rw [longBody]
  refine (if_pos rfl).trans ?_
  rw [← delimiter, htake, hdrop]
  simp only [List.length_cons, List.length_replicate]
  rfl

/-- At most two delimiters before another character belong to the string. -/
theorem longBody_inner {escapes : Bool} {k : Nat} (hk : k ≤ 2) (hrest : rest.head? ≠ some (delimiter escapes))
    (hfuel : k ≤ fuel) (read : List Char) :
    ∃ fuel', fuel ≤ k + fuel' ∧
      longBody escapes fuel read (List.replicate k (delimiter escapes) ++ rest) =
        longBody escapes fuel' (List.replicate k (delimiter escapes) ++ read) rest := by
  cases k with
  | zero => exact ⟨fuel, by omega, rfl⟩
  | succ k =>
    obtain ⟨fuel, rfl⟩ : ∃ m, fuel = m + 1 := Nat.exists_eq_add_one.mpr (by omega)
    refine ⟨fuel, by omega, ?_⟩
    rw [longBody_run hrest, show closing? (k + 1) = some (k + 1, false) from if_pos hk]
    rfl

/-- With up to two delimiters before it, the closing one is found. -/
theorem longBody_closing {escapes : Bool} {k : Nat} (hk : k ≤ 2) (hrest : rest.head? ≠ some (delimiter escapes))
    (read : List Char) :
    longBody escapes (fuel + 1) read (List.replicate (k + 3) (delimiter escapes) ++ rest) =
      some (String.ofList (read.reverse ++ List.replicate k (delimiter escapes)), rest) := by
  have hclosing : closing? (k + 3) = some (k, true) := by
    rw [closing?, if_neg (by omega), if_pos (by omega), Nat.add_sub_cancel]
  rw [longBody_run hrest, hclosing]
  show some _ = some _
  rw [List.reverse_append, List.reverse_replicate]

/-- What is written over several lines is read up to its closing delimiter. -/
theorem LongText.read {escapes : Bool} (h : LongText escapes text cs)
    (hrest : rest.head? ≠ some (delimiter escapes)) {read : List Char}
    (hfuel : text.length + 3 ≤ fuel) :
    longBody escapes fuel read (text ++ (longDelimiter (delimiter escapes) ++ rest)) =
      some (String.ofList (read.reverse ++ cs), rest) := by
  induction h generalizing fuel read with
  | @last k hk =>
    obtain ⟨fuel, rfl⟩ : ∃ m, fuel = m + 1 := Nat.exists_eq_add_one.mpr (by omega)
    have hrun : List.replicate k (delimiter escapes) ++ (longDelimiter (delimiter escapes) ++ rest) =
        List.replicate (k + 3) (delimiter escapes) ++ rest := by
      rw [List.replicate_add, List.append_assoc]
      rfl
    rw [hrun, longBody_closing hk hrest]
  | @piece k hk piece text cs c hpiece h ih =>
    obtain ⟨d, tail, hhead, hd⟩ := hpiece.head
    have hinner : (piece ++ (text ++ (longDelimiter (delimiter escapes) ++ rest))).head? ≠
        some (delimiter escapes) := by
      rw [hhead]
      exact fun heq => hd (Option.some.inj heq)
    have hpos : 0 < piece.length := by
      rw [hhead]
      exact Nat.zero_lt_succ _
    rw [List.length_append, List.length_append, List.length_replicate] at hfuel
    obtain ⟨fuel', hfuel', hrun⟩ := longBody_inner hk hinner (by omega : k ≤ fuel) read
    obtain ⟨fuel', rfl⟩ : ∃ m, fuel' = m + 1 := Nat.exists_eq_add_one.mpr (by omega)
    rw [List.append_assoc, List.append_assoc, hrun, hpiece.step, ih (by omega)]
    simp

/-- Of three quotes in a row the third is escaped; `q` of them have been written already. -/
theorem longText_escaped {q : Nat} (hq : q ≤ 2) :
    LongText true (List.replicate q '"' ++ escaped true q cs) (List.replicate q '"' ++ cs) := by
  induction cs generalizing q with
  | nil =>
    rw [escaped, List.append_nil]
    exact .last hq
  | cons c cs ih =>
    rcases escaped_cons true q c cs with ⟨rfl, -, hlast, heq⟩ | ⟨hlow, heq⟩ | ⟨hquote, hbackslash, hc, heq⟩
    · have hnext := ih (q := q + 1) hlast
      rw [List.replicate_succ', List.append_assoc, List.append_assoc, List.singleton_append,
        List.singleton_append] at hnext
      rw [heq]
      exact hnext
    · rw [heq]
      exact .piece hq (standsFor_escape hlow) (ih (Nat.zero_le 2))
    · rw [heq]
      refine .piece hq (show StandsFor true [c] c from ?_) (ih (Nat.zero_le 2))
      rcases hc with hplain | ⟨-, rfl⟩
      · exact standsFor_plain hplain hquote fun _ => hbackslash
      · exact standsFor_newline true

theorem hasRunOver_of_append {most : Nat} (h : ¬ hasRunOver most d (text ++ cs)) : ¬ hasRunOver most d cs := by
  induction text with
  | nil => exact h
  | cons c text ih =>
    rw [List.cons_append, hasRunOver, Bool.or_eq_true, not_or] at h
    exact ih h.2

theorem le_of_not_hasRunOver {most q : Nat} (h : ¬ hasRunOver most d (List.replicate q d ++ cs)) : q ≤ most := by
  cases q with
  | zero => exact Nat.zero_le most
  | succ q =>
    rw [List.replicate_succ, List.cons_append, hasRunOver, Bool.or_eq_true, not_or, decide_eq_true_eq,
      ← List.cons_append, ← List.replicate_succ, List.takeWhile_append_of_pos, List.length_append,
      List.length_replicate] at h
    · omega
    · exact fun c hc => beq_iff_eq.mpr (List.eq_of_mem_replicate hc)

/-- Without a run of three apostrophes a text stands for itself; `q` of them have been written already. -/
theorem longText_literal {q : Nat} (hrun : ¬ hasRunOver 2 '\'' (List.replicate q '\'' ++ cs))
    (hcontrol : ∀ c ∈ cs, ¬ isControl c) :
    LongText false (List.replicate q '\'' ++ cs) (List.replicate q '\'' ++ cs) := by
  induction cs generalizing q with
  | nil =>
    rw [List.append_nil]
    exact .last (le_of_not_hasRunOver hrun)
  | cons c cs ih =>
    obtain ⟨hc, hcs⟩ := List.forall_mem_cons.mp hcontrol
    by_cases hquote : c = '\''
    · have heq : List.replicate q '\'' ++ c :: cs = List.replicate (q + 1) '\'' ++ cs := by
        rw [hquote, List.replicate_succ', List.append_assoc, List.singleton_append]
      rw [heq] at hrun ⊢
      exact ih hrun hcs
    · refine .piece (le_of_not_hasRunOver hrun) (show StandsFor false [c] c from ?_) (ih (q := 0) ?_ hcs)
      · by_cases hnewline : c = '\n'
        · rw [hnewline]
          exact standsFor_newline false
        · exact standsFor_plain (isPlain_of_not_isControl hc hnewline) hquote nofun
      · rw [List.append_cons] at hrun
        exact hasRunOver_of_append hrun

/-- The line break after the opening delimiter is dropped, and no other. -/
theorem skipNewline_opened {hasNewline : Bool} (h : ¬ hasNewline → newline? text = none) :
    skipNewline ((if hasNewline then ['\n'] else []) ++ text) = text := by
  cases hasNewline with
  | true => rfl
  | false => exact congrArg (Option.getD · text) (h Bool.false_ne_true)

theorem string?_long (escapes : Bool) {hasNewline : Bool} (h : LongText escapes text cs)
    (hnewline : ¬ hasNewline → newline? (text ++ longDelimiter (delimiter escapes) ++ rest) = none)
    (hrest : rest.head? ≠ some (delimiter escapes)) :
    string? (longQuote (delimiter escapes) hasNewline text ++ rest) = some (String.ofList cs, rest) := by
  have hopen := skipNewline_opened hnewline
  have hread : longBody escapes
      (((if hasNewline then ['\n'] else []) ++ (text ++ longDelimiter (delimiter escapes) ++ rest)).length + 1) []
      (skipNewline ((if hasNewline then ['\n'] else []) ++ (text ++ longDelimiter (delimiter escapes) ++ rest))) =
        some (String.ofList cs, rest) := by
    rw [hopen, List.append_assoc]
    refine h.read hrest ?_
    simp only [longDelimiter, List.length_append, List.length_cons]
    omega
  have htext : longQuote (delimiter escapes) hasNewline text ++ rest =
      longDelimiter (delimiter escapes) ++
        ((if hasNewline then ['\n'] else []) ++ (text ++ longDelimiter (delimiter escapes) ++ rest)) := by
    simp only [longQuote, List.append_assoc]
  rw [htext]
  cases escapes
  · exact hread
  · exact hread

theorem newline?_escaped (h : '\n' ∉ cs) : newline? (escaped true 0 cs ++ '"' :: rest) = none := by
  cases cs with
  | nil => rfl
  | cons c cs =>
    rcases escaped_cons true 0 c cs with ⟨-, -, -, heq⟩ | ⟨hlow, heq⟩ | ⟨-, -, hc, heq⟩
    · rw [heq]
      rfl
    · obtain ⟨d, body, hescape, -⟩ := exists_escape hlow
      rw [heq, hescape]
      rfl
    · have hplain : isPlain c := hc.resolve_right fun hnewline => h (hnewline.2 ▸ List.mem_cons_self)
      rw [heq]
      exact newline?_eq_none hplain

def NoQuote (rest : List Char) : Prop :=
  rest.head? ≠ some '"' ∧ rest.head? ≠ some '\''

theorem NoQuote.head_ne (h : NoQuote rest) (escapes : Bool) : rest.head? ≠ some (delimiter escapes) := by
  cases escapes
  · exact h.2
  · exact h.1

/-- A string starts with three delimiters only if it goes on over several lines. -/
theorem string?_short (escapes : Bool) (h : ∀ tail, text ≠ delimiter escapes :: delimiter escapes :: tail) :
    string? (delimiter escapes :: text) = shortString? (delimiter escapes :: text) := by
  delta string?
  cases escapes <;> split
  next heq => cases heq
  next heq =>
    cases heq
    exact absurd rfl (h _)
  next => rfl
  next heq =>
    cases heq
    exact absurd rfl (h _)
  next heq => cases heq
  next => rfl

theorem string?_escaped (hrest : NoQuote rest) (cs : List Char) :
    string? ('"' :: (escaped false 0 cs ++ '"' :: rest)) = some (String.ofList cs, rest) := by
  refine (string?_short true fun tail htext => ?_).trans (shortString?_escaped cs rest)
  cases cs with
  | nil =>
    cases htext
    exact hrest.1 rfl
  | cons c cs =>
    -- A quote in the text stands behind a backslash.
    rcases escaped_cons false 0 c cs with ⟨-, hlong, -⟩ | ⟨hlow, heq⟩ | ⟨hquote, -, -, heq⟩
    · exact absurd hlong Bool.false_ne_true
    · obtain ⟨d, body, hescape, -⟩ := exists_escape hlow
      rw [heq, hescape] at htext
      cases htext
    · rw [heq] at htext
      exact hquote (List.cons.inj htext).1

theorem string?_literal (hrest : NoQuote rest) (h : ∀ c ∈ cs, isPlain c ∧ c ≠ '\'') :
    string? ('\'' :: (cs ++ '\'' :: rest)) = some (String.ofList cs, rest) := by
  refine (string?_short false fun tail heq => ?_).trans (shortString?_literal h rest)
  cases cs with
  | nil =>
    cases heq
    exact hrest.2 rfl
  | cons c cs => exact (h c List.mem_cons_self).2 (List.cons.inj heq).1

theorem string?_longQuoted (hrest : NoQuote rest) (cs : List Char) :
    string? (longQuote '"' (cs.contains '\n') (escaped true 0 cs) ++ rest) = some (String.ofList cs, rest) := by
  refine string?_long true (longText_escaped (q := 0) (Nat.zero_le 2)) (fun h => ?_) (hrest.head_ne true)
  rw [List.contains_iff_mem] at h
  rw [List.append_assoc]
  exact newline?_escaped h

theorem string?_longLiteral (hrest : NoQuote rest) (hcontrol : ∀ c ∈ cs, ¬ isControl c)
    (hrun : ¬ hasRunOver 2 '\'' cs) :
    string? (longQuote '\'' (cs.contains '\n') cs ++ rest) = some (String.ofList cs, rest) := by
  refine string?_long false (longText_literal (q := 0) hrun hcontrol) (fun h => ?_) (hrest.head_ne false)
  rw [List.contains_iff_mem] at h
  cases cs with
  | nil => rfl
  | cons c cs =>
    have hne : c ≠ '\n' := fun heq => h (heq ▸ List.mem_cons_self)
    exact newline?_eq_none (isPlain_of_not_isControl (hcontrol c List.mem_cons_self) hne)

theorem isPlain_of_any_isControl (hcontrol : ¬ cs.any isControl) (hnewline : ¬ cs.contains '\n')
    (hquote : ¬ cs.contains '\'') : ∀ c ∈ cs, isPlain c ∧ c ≠ '\'' := by
  rw [List.contains_iff_mem] at hnewline hquote
  intro c hc
  exact ⟨isPlain_of_not_isControl (fun h => hcontrol (List.any_eq_true.mpr ⟨c, hc, h⟩)) fun h => hnewline (h ▸ hc),
    fun h => hquote (h ▸ hc)⟩

/-- The forms that a text is written in. -/
theorem quoteChars_eq (cs : List Char) :
    quoteChars cs = '"' :: (escaped false 0 cs ++ ['"']) ∨
      ((∀ c ∈ cs, isPlain c ∧ c ≠ '\'') ∧ quoteChars cs = '\'' :: (cs ++ ['\''])) ∨
      quoteChars cs = longQuote '"' (cs.contains '\n') (escaped true 0 cs) ∨
      ((∀ c ∈ cs, ¬ isControl c) ∧ ¬ hasRunOver 2 '\'' cs ∧ quoteChars cs = longQuote '\'' (cs.contains '\n') cs) := by
  rw [quoteChars]
  split
  next => exact Or.inl rfl
  next =>
    split
    next hplain =>
      simp only [Bool.and_eq_true, Bool.not_eq_true', ← Bool.not_eq_true] at hplain
      exact Or.inr (Or.inl ⟨isPlain_of_any_isControl hplain.1.1 hplain.1.2 hplain.2, rfl⟩)
    next =>
      split
      next => exact Or.inr (Or.inr (Or.inl rfl))
      next =>
        split
        next hliteral =>
          simp only [Bool.and_eq_true, Bool.not_eq_true', ← Bool.not_eq_true, List.any_eq_true, not_exists,
            not_and] at hliteral
          exact Or.inr (Or.inr (Or.inr ⟨hliteral.1, hliteral.2, rfl⟩))
        next =>
          split
          next => exact Or.inr (Or.inr (Or.inl rfl))
          next => exact Or.inl rfl

theorem exists_quoteChars (cs : List Char) :
    ∃ c tail, quoteChars cs = c :: tail ∧ (c = '"' ∨ c = '\'') := by
  rcases quoteChars_eq cs with heq | ⟨-, heq⟩ | heq | ⟨-, -, heq⟩
  · exact ⟨_, _, heq, Or.inl rfl⟩
  · exact ⟨_, _, heq, Or.inr rfl⟩
  · exact ⟨_, _, heq, Or.inl rfl⟩
  · exact ⟨_, _, heq, Or.inr rfl⟩

/-- Every text is read back from what is written for it. -/
theorem string?_quoteChars (hrest : NoQuote rest) (cs : List Char) :
    string? (quoteChars cs ++ rest) = some (String.ofList cs, rest) := by
  rcases quoteChars_eq cs with heq | ⟨hplain, heq⟩ | heq | ⟨hcontrol, hrun, heq⟩
  · rw [heq, List.cons_append, List.append_assoc]
    exact string?_escaped hrest cs
  · rw [heq, List.cons_append, List.append_assoc]
    exact string?_literal hrest hplain
  · rw [heq]
    exact string?_longQuoted hrest cs
  · rw [heq]
    exact string?_longLiteral hrest hcontrol hrun

def pathChars (path : List String) : List Char :=
  ['.'].intercalate (path.map fun key => keyChars key.toList)

theorem pathChars_singleton (key : String) : pathChars [key] = keyChars key.toList := by
  simp [pathChars]

theorem pathChars_cons_cons (key next : String) (path : List String) :
    pathChars (key :: next :: path) = keyChars key.toList ++ '.' :: pathChars (next :: path) := by
  simp [pathChars, List.intercalate_cons_cons]

theorem keyChars_eq (cs : List Char) :
    (cs ≠ [] ∧ (∀ c ∈ cs, isBare c) ∧ keyChars cs = cs) ∨
      keyChars cs = '"' :: (escaped false 0 cs ++ ['"']) ∨
      (∀ c ∈ cs, isPlain c ∧ c ≠ '\'') ∧ keyChars cs = '\'' :: (cs ++ ['\'']) := by
  rw [keyChars]
  split
  next hbare =>
    simp only [Bool.and_eq_true, Bool.not_eq_true', List.isEmpty_eq_false_iff, List.all_eq_true] at hbare
    exact Or.inl ⟨hbare.1, hbare.2, rfl⟩
  next =>
    split
    next => exact Or.inr (Or.inl rfl)
    next =>
      split
      next hliteral =>
        simp only [Bool.and_eq_true, Bool.not_eq_true', ← Bool.not_eq_true, Bool.or_eq_true, not_or] at hliteral
        exact Or.inr (Or.inr ⟨isPlain_of_any_isControl hliteral.1.2 hliteral.1.1 hliteral.2, rfl⟩)
      next => exact Or.inr (Or.inl rfl)

/-- A key starts with a quote, an apostrophe or a character of its own. -/
theorem exists_keyChars (cs : List Char) :
    ∃ c tail, keyChars cs = c :: tail ∧ (isBare c ∨ c = '"' ∨ c = '\'') := by
  rcases keyChars_eq cs with ⟨hne, hbare, heq⟩ | heq | ⟨-, heq⟩
  · obtain ⟨c, cs, rfl⟩ := List.exists_cons_of_ne_nil hne
    exact ⟨c, cs, heq, Or.inl (hbare c List.mem_cons_self)⟩
  · exact ⟨_, _, heq, Or.inr (Or.inl rfl)⟩
  · exact ⟨_, _, heq, Or.inr (Or.inr rfl)⟩

theorem simpleKey?_keyChars (hrest : ∀ c ∈ rest.head?, ¬ isBare c) (cs : List Char) :
    simpleKey? (keyChars cs ++ rest) = some (String.ofList cs, rest) := by
  rcases keyChars_eq cs with ⟨hne, hbare, heq⟩ | heq | ⟨hplain, heq⟩
  · obtain ⟨htake, hdrop⟩ := takeWhile_dropWhile_append hbare hrest
    obtain ⟨c, cs, rfl⟩ := List.exists_cons_of_ne_nil hne
    have hc : isBare c := hbare c List.mem_cons_self
    delta simpleKey?
    rw [heq]
    split
    next h =>
      cases h
      exact absurd hc (by decide)
    next h =>
      cases h
      exact absurd hc (by decide)
    next =>
      rw [htake, hdrop]
      rfl
  · rw [heq, List.cons_append, List.append_assoc]
    exact shortString?_escaped cs rest
  · rw [heq, List.cons_append, List.append_assoc]
    exact shortString?_literal hplain rest

theorem not_isBare_of_isSpace (h : isSpace c) : ¬ isBare c := by
  simp only [isSpace, Bool.or_eq_true, beq_iff_eq] at h
  rcases h with rfl | rfl <;> decide

theorem skipSpace_keyChars (cs rest : List Char) : skipSpace (keyChars cs ++ rest) = keyChars cs ++ rest := by
  obtain ⟨c, tail, heq, hc⟩ := exists_keyChars cs
  have hspace : ¬ isSpace c := by
    rcases hc with hc | rfl | rfl
    · exact fun h => not_isBare_of_isSpace h hc
    · decide
    · decide
  rw [heq, skipSpace, List.cons_append, List.dropWhile_cons_of_neg hspace]

/-- What may follow a key: no more of it, and no dot after blanks. -/
structure EndsKey (rest : List Char) : Prop where
  head : ∀ c ∈ rest.head?, ¬ isBare c
  noDot : ∀ tail, skipSpace rest ≠ '.' :: tail

theorem keyParts_pathChars (hrest : EndsKey rest) {path : List String} (hpath : path ≠ [])
    (hfuel : path.length ≤ fuel) :
    keyParts fuel (pathChars path ++ rest) = some (path, skipSpace rest) := by
  induction path generalizing fuel with
  | nil => exact absurd rfl hpath
  | cons key path ih =>
    obtain ⟨fuel, rfl⟩ : ∃ m, fuel = m + 1 := Nat.exists_eq_add_one.mpr (Nat.zero_lt_of_lt hfuel)
    cases path with
    | nil =>
      rw [keyParts, pathChars_singleton, skipSpace_keyChars, simpleKey?_keyChars hrest.head, String.ofList_toList]
      simp only [Option.bind_eq_bind, Option.bind_some]
      split
      next heq => exact absurd heq (hrest.noDot _)
      next => rfl
    | cons next path =>
      have hdot : ∀ c ∈ ('.' :: (pathChars (next :: path) ++ rest)).head?, ¬ isBare c := by
        intro c hc
        cases hc
        decide
      rw [keyParts, pathChars_cons_cons, List.append_assoc, List.cons_append, skipSpace_keyChars,
        simpleKey?_keyChars hdot, String.ofList_toList]
      show (keyParts fuel (pathChars (next :: path) ++ rest)).bind _ = _
      rw [ih (List.cons_ne_nil _ _) (Nat.le_of_succ_le_succ hfuel)]
      rfl

theorem exists_pathChars {path : List String} (hpath : path ≠ []) :
    ∃ c tail, pathChars path = c :: tail ∧ (isBare c ∨ c = '"' ∨ c = '\'') := by
  obtain ⟨key, path, rfl⟩ := List.exists_cons_of_ne_nil hpath
  obtain ⟨c, tail, heq, hc⟩ := exists_keyChars key.toList
  cases path with
  | nil => exact ⟨c, tail, by rw [pathChars_singleton, heq], hc⟩
  | cons next path => exact ⟨c, _, by rw [pathChars_cons_cons, heq, List.cons_append], hc⟩

theorem length_le_pathChars (path : List String) : path.length ≤ (pathChars path).length := by
  induction path with
  | nil => exact Nat.zero_le _
  | cons key path ih =>
    obtain ⟨c, tail, heq, -⟩ := exists_keyChars key.toList
    cases path with
    | nil =>
      rw [pathChars_singleton, heq]
      exact Nat.succ_le_succ (Nat.zero_le _)
    | cons next path =>
      rw [pathChars_cons_cons, List.length_append, List.length_cons, List.length_cons (a := '.')]
      omega

/-- The dotted keys of paths that are short enough are read back. -/
theorem key?_pathChars (hrest : EndsKey rest) {path : List String} (hpath : path ≠ [])
    (hlength : path.length < maxDepth) :
    key? (pathChars path ++ rest) = some (path, skipSpace rest) := by
  have hfuel : path.length ≤ (pathChars path ++ rest).length + 1 := by
    have hle := length_le_pathChars path
    rw [List.length_append]
    omega
  rw [key?, keyParts_pathChars hrest hpath hfuel]
  exact if_pos hlength

end PolicyAnalysis.Toml
