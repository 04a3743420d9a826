import Mathlib.Algebra.Group.Nat.Defs
import Mathlib.Data.List.Basic
import Mathlib.Data.List.Induction
import PolicyAnalysis.Address.Text

/-!
# Addresses are read back from their text

A reader takes off the start of a text what has been written there, if what follows cannot be more of it. Numbers
end where no digit follows, and the groups of an address where the text or a double colon does.
-/

namespace PolicyAnalysis

/-- What a reader takes off, if it goes by a test that what follows fails. -/
theorem takeWhile_dropWhile_append {α : Type} {test : α → Bool} {l rest : List α} (h : ∀ a ∈ l, test a)
    (hrest : ∀ a ∈ rest.head?, ¬ test a) :
    (l ++ rest).takeWhile test = l ∧ (l ++ rest).dropWhile test = rest := by
  rw [List.takeWhile_append_of_pos h, List.dropWhile_append_of_pos h]
  cases rest with
  | nil => exact ⟨List.append_nil l, rfl⟩
  | cons a rest =>
    have ha := hrest a rfl
    rw [List.takeWhile_cons_of_neg ha, List.dropWhile_cons_of_neg ha]
    exact ⟨List.append_nil l, rfl⟩

namespace Address

variable {base n : Nat} {c : Char} {cs rest : List Char}

theorem digit?_digitChar (h : n < 16) : digit? n.digitChar = some n := by
  revert n
  decide

theorem isDigitIn_digitChar (hbase : base ≤ 16) (h : n < base) : isDigitIn base n.digitChar := by
  rw [isDigitIn, digit?_digitChar (Nat.lt_of_lt_of_le h hbase)]
  exact decide_eq_true h

/-- What holds of all digits in a base holds of those of a number. -/
theorem forall_mem_toDigits {P : Char → Prop} (hb : 1 < base) (h : ∀ digit < base, P digit.digitChar) :
    ∀ c ∈ Nat.toDigits base n, P c := by
  induction n using Nat.base_induction base hb with
  | single m hm =>
    rw [Nat.toDigits_of_lt_base hm, List.forall_mem_singleton]
    exact h m hm
  | digit m k hk hm ih =>
    rw [← Nat.toDigits_append_toDigits hb hm hk, Nat.toDigits_of_lt_base hk, List.forall_mem_append,
      List.forall_mem_singleton]
    exact ⟨ih, h k hk⟩

theorem isDigitIn_of_mem_toDigits (hb : 1 < base) (hbase : base ≤ 16) :
    ∀ c ∈ Nat.toDigits base n, isDigitIn base c :=
  forall_mem_toDigits hb fun _ => isDigitIn_digitChar hbase

theorem ofGroups_concat (base : Nat) (groups : List Nat) (group : Nat) :
    ofGroups base (groups ++ [group]) = ofGroups base groups * base + group := by
  rw [ofGroups, List.foldl_append, List.foldl_cons, List.foldl_nil, ofGroups]

theorem ofGroups_cons (base group : Nat) (groups : List Nat) :
    ofGroups base (group :: groups) = group * base ^ groups.length + ofGroups base groups := by
  induction groups using List.reverseRecOn with
  | nil => simp [ofGroups]
  | append_singleton groups last ih =>
    rw [← List.cons_append, ofGroups_concat, ofGroups_concat, ih, List.length_append, List.length_singleton,
      Nat.pow_succ, Nat.add_mul, Nat.mul_assoc, Nat.add_assoc]

/-- The lowest groups of a number, each of some bits. -/
theorem ofGroups_shiftRight (n width count : Nat) :
    ofGroups (2 ^ width) ((List.range count).reverse.map fun i => (n >>> (i * width)) % 2 ^ width) =
      n % 2 ^ (count * width) := by
  induction count with
  | zero => simp [ofGroups, Nat.mod_one]
  | succ count ih =>
    rw [List.range_succ, List.reverse_append, List.reverse_singleton, List.singleton_append, List.map_cons,
      ofGroups_cons, ih, List.length_map, List.length_reverse, List.length_range, ← Nat.pow_mul, Nat.succ_mul,
      Nat.pow_add, Nat.mod_mul, Nat.shiftRight_eq_div_pow, Nat.mul_comm width count, Nat.mul_comm, Nat.add_comm]

theorem ofGroups_toDigits (hb : 1 < base) (hbase : base ≤ 16) :
    ofGroups base ((Nat.toDigits base n).filterMap digit?) = n := by
  have single {m : Nat} (hm : m < base) : (Nat.toDigits base m).filterMap digit? = [m] := by
    rw [Nat.toDigits_of_lt_base hm, List.filterMap_cons_some (digit?_digitChar (Nat.lt_of_lt_of_le hm hbase)),
      List.filterMap_nil]
  induction n using Nat.base_induction base hb with
  | single m hm => rw [single hm, ofGroups, List.foldl_cons, List.foldl_nil, Nat.zero_mul, Nat.zero_add]
  | digit m k hk hm ih =>
    rw [← Nat.toDigits_append_toDigits hb hm hk, List.filterMap_append, single hk, ofGroups_concat, ih, Nat.mul_comm]

theorem head?_toDigits_ne_zero (hb : 1 < base) (h : 0 < n) : (Nat.toDigits base n).head? ≠ some '0' := by
  induction n using Nat.base_induction base hb with
  | single m hm =>
    rw [Nat.toDigits_of_lt_base hm, List.head?_cons, ne_eq, Option.some.injEq, Nat.digitChar_eq_zero]
    exact Nat.ne_of_gt h
  | digit m k hk hm ih =>
    rw [← Nat.toDigits_append_toDigits hb hm hk, List.head?_append_of_ne_nil _ Nat.toDigits_ne_nil]
    exact ih hm

def NoDigit (base : Nat) (rest : List Char) : Prop :=
  ∀ c ∈ rest.head?, ¬ isDigitIn base c

theorem noDigit_nil : NoDigit base [] :=
  nofun

theorem noDigit_cons (h : digit? c = none) : NoDigit base (c :: rest) := by
  intro d hd
  cases hd
  rw [isDigitIn, h]
  exact Bool.false_ne_true

theorem readNumber_toDigits {maxDigits bound : Nat} (leadingZero : Bool) (hb : 1 < base) (hbase : base ≤ 16)
    (hmax : 0 < maxDigits) (hdigits : n < base ^ maxDigits) (hn : n < bound) (hrest : NoDigit base rest) :
    readNumber base maxDigits bound leadingZero (Nat.toDigits base n ++ rest) = some (n, rest) := by
  obtain ⟨htake, hdrop⟩ := takeWhile_dropWhile_append (isDigitIn_of_mem_toDigits (n := n) hb hbase) hrest
  have hlength : ¬ maxDigits < (Nat.toDigits base n).length :=
    Nat.not_lt.mpr ((Nat.length_toDigits_le_iff hb hmax).mpr hdigits)
  -- Zero is one digit, and other numbers start with another digit.
  have hzero : 1 < (Nat.toDigits base n).length → (Nat.toDigits base n).head? ≠ some '0' := by
    intro hlong
    refine head?_toDigits_ne_zero hb (Nat.pos_of_ne_zero ?_)
    rintro rfl
    rw [Nat.toDigits_zero] at hlong
    exact absurd hlong (by decide)
  rw [readNumber, htake, hdrop, ofGroups_toDigits hb hbase, if_neg]
  simp only [Bool.or_eq_true, List.isEmpty_iff, Nat.toDigits_ne_nil, decide_eq_true_eq, hlength, Nat.not_le.mpr hn,
    Bool.and_eq_true, beq_iff_eq, false_or]
  exact fun h => hzero h.1.2 h.2

theorem readNumber_eq_none {maxDigits bound : Nat} (leadingZero : Bool) (h : NoDigit base cs) :
    readNumber base maxDigits bound leadingZero cs = none := by
  obtain ⟨htake, -⟩ := takeWhile_dropWhile_append (List.forall_mem_nil _) h
  rw [List.nil_append] at htake
  rw [readNumber, htake]
  rfl

theorem rest_of_readNumber {maxDigits bound : Nat} {leadingZero : Bool}
    (h : readNumber base maxDigits bound leadingZero cs = some (n, rest)) : rest = cs.dropWhile (isDigitIn base) := by
  rw [readNumber] at h
  split at h
  · cases h
  · cases h
    rfl

theorem joined_cons (separator : Char) (part : List Char) (parts : List (List Char)) :
    joined separator (part :: parts) = part ++ parts.flatMap (separator :: ·) := by
  induction parts generalizing part with
  | nil => simp [joined]
  | cons part' parts ih =>
    rw [joined, List.intercalate_cons_cons, ← joined, ih, List.flatMap_cons, List.append_assoc]
    rfl

theorem readByte_toDigits (hn : n < 0x100) (hrest : NoDigit 10 rest) :
    readByte (Nat.toDigits 10 n ++ rest) = some (n, rest) :=
  readNumber_toDigits false (by decide) (by decide) (by decide) (Nat.lt_trans hn (by decide)) hn hrest

theorem readChar_self (c : Char) (rest : List Char) : readChar c (c :: rest) = some ((), rest) :=
  if_pos rfl

theorem readChar_eq_none (h : cs.head? ≠ some c) : readChar c cs = none := by
  cases cs with
  | nil => rfl
  | cons d rest => exact if_neg fun heq => h (congrArg some heq.symm)

theorem ofGroups_bytes (bits : BitVec 32) : BitVec.ofNat 32 (ofGroups 0x100 (bytes bits)) = bits := by
  have hvalue : ofGroups 0x100 (bytes bits) = bits.toNat % 2 ^ 32 := ofGroups_shiftRight bits.toNat 8 4
  rw [hvalue, Nat.mod_eq_of_lt bits.isLt, BitVec.ofNat_toNat, BitVec.setWidth_eq]

theorem readDotted_dotted (bits : BitVec 32) (hrest : NoDigit 10 rest) :
    readDotted (dotted bits ++ rest) = some (bits, rest) := by
  have hbyte (shift : Nat) : (bits.toNat >>> shift) % 0x100 < 0x100 :=
    Nat.mod_lt _ (by decide)
  have hdot (rest : List Char) : NoDigit 10 ('.' :: rest) :=
    noDigit_cons (by decide)
  have htext : dotted bits ++ rest =
      Nat.toDigits 10 (bits.toNat >>> 24 % 0x100) ++ '.' :: (Nat.toDigits 10 (bits.toNat >>> 16 % 0x100) ++
        '.' :: (Nat.toDigits 10 (bits.toNat >>> 8 % 0x100) ++ '.' :: (Nat.toDigits 10 (bits.toNat >>> 0 % 0x100) ++
          rest))) := by
    simp [dotted, bytes, joined_cons]
  rw [htext, readDotted]
  simp only [readByte_toDigits (hbyte _) (hdot _), readByte_toDigits (hbyte _) hrest, readChar_self,
    Option.bind_eq_bind, Option.bind_some]
  exact congrArg some (congrArg (·, rest) (ofGroups_bytes bits))

def Delimited (rest : List Char) : Prop :=
  ∀ c ∈ rest.head?, c = ':'

theorem delimited_nil : Delimited [] :=
  nofun

theorem delimited_colon (rest : List Char) : Delimited (':' :: rest) := by
  intro c hc
  cases hc
  rfl

theorem Delimited.noDigit (h : Delimited rest) : NoDigit base rest := by
  intro c hc
  rw [h c hc, isDigitIn, show digit? ':' = none by decide]
  exact Bool.false_ne_true

/-- No dot stands where the decimal digits of a group end. -/
theorem readDotted_group (hcs : ∀ c ∈ cs, isDigitIn 16 c) (hrest : Delimited rest) :
    readDotted (cs ++ rest) = none := by
  have hhead : ((cs ++ rest).dropWhile (isDigitIn 10)).head? ≠ some '.' := by
    induction cs with
    | nil =>
      rw [List.nil_append]
      cases rest with
      | nil => exact nofun
      | cons c rest =>
        cases hrest c rfl
        rw [List.dropWhile_cons_of_neg (by decide), List.head?_cons]
        decide
    | cons c cs ih =>
      obtain ⟨hc, hcs⟩ := List.forall_mem_cons.mp hcs
      rw [List.cons_append, List.dropWhile_cons]
      split
      · exact ih hcs
      · rintro ⟨⟩
        exact absurd hc (by decide)
  rw [readDotted]
  cases hread : readByte (cs ++ rest) with
  | none => rfl
  | some read =>
    obtain ⟨n, rest'⟩ := read
    rw [← rest_of_readNumber hread] at hhead
    simp [readChar_eq_none hhead]

def separator (first : Bool) : List Char :=
  if first then [] else [':']

theorem readSeparator_separator (first : Bool) (rest : List Char) :
    readSeparator first (separator first ++ rest) = some ((), rest) := by
  cases first <;> rfl

theorem readGroups_group {group : Nat} (limit : Nat) (first : Bool) (hgroup : group < 0x10000)
    (hrest : Delimited rest) :
    readGroups (limit + 1) first (separator first ++ (Nat.toDigits 16 group ++ rest)) =
      ((group :: (readGroups limit false rest).1.1, (readGroups limit false rest).1.2),
        (readGroups limit false rest).2) := by
  have hdotted : readDotted (Nat.toDigits 16 group ++ rest) = none :=
    readDotted_group (isDigitIn_of_mem_toDigits (by decide) (by decide)) hrest
  have hnumber : readNumber 16 4 0x10000 true (Nat.toDigits 16 group ++ rest) = some (group, rest) :=
    readNumber_toDigits true (by decide) (by decide) (by decide) hgroup hgroup hrest.noDigit
  rw [readGroups]
  -- The dotted form is tried unless this is the last group.
  by_cases hlimit : limit = 0
  · simp [hlimit, readSeparator_separator, hnumber]
  · simp [hlimit, readSeparator_separator, hdotted, hnumber]

def Ends (rest : List Char) : Prop :=
  rest = [] ∨ ∃ cs, rest = ':' :: ':' :: cs

theorem ends_nil : Ends [] :=
  Or.inl rfl

theorem ends_double (cs : List Char) : Ends (':' :: ':' :: cs) :=
  Or.inr ⟨cs, rfl⟩

theorem Ends.delimited (h : Ends rest) : Delimited rest := by
  rcases h with rfl | ⟨cs, rfl⟩
  · exact delimited_nil
  · exact delimited_colon _

theorem readGroups_of_ends (limit : Nat) (first : Bool) (h : Ends rest) :
    readGroups limit first rest = (([], false), rest) := by
  have hstop : readSeparator first rest = none ∨
      ∃ cs, readSeparator first rest = some ((), cs) ∧ Delimited cs := by
    cases first with
    | true => exact Or.inr ⟨rest, rfl, h.delimited⟩
    | false =>
      rcases h with rfl | ⟨cs, rfl⟩
      · exact Or.inl rfl
      · exact Or.inr ⟨':' :: cs, rfl, delimited_colon cs⟩
  cases limit with
  | zero => rfl
  | succ limit =>
    rw [readGroups]
    rcases hstop with hsep | ⟨cs, hsep, hcs⟩
    · simp [hsep]
    · have hdotted : readDotted cs = none := readDotted_group (List.forall_mem_nil _) hcs
      simp [hsep, hdotted, readNumber_eq_none true hcs.noDigit]

def further (groups : List Nat) : List Char :=
  groups.flatMap fun group => ':' :: Nat.toDigits 16 group

theorem coloned_cons (group : Nat) (groups : List Nat) :
    coloned (group :: groups) = Nat.toDigits 16 group ++ further groups := by
  rw [coloned, List.map_cons, joined_cons, further, List.flatMap_map]

theorem delimited_further (groups : List Nat) (hrest : Delimited rest) : Delimited (further groups ++ rest) := by
  cases groups with
  | nil => exact hrest
  | cons group groups => exact delimited_colon _

theorem readGroups_further {groups : List Nat} {limit : Nat} (hgroups : ∀ group ∈ groups, group < 0x10000)
    (hlimit : groups.length ≤ limit) (hrest : Ends rest) :
    readGroups limit false (further groups ++ rest) = ((groups, false), rest) := by
  induction groups generalizing limit with
  | nil => exact readGroups_of_ends limit false hrest
  | cons group groups ih =>
    obtain ⟨hgroup, hgroups⟩ := List.forall_mem_cons.mp hgroups
    obtain ⟨limit, rfl⟩ : ∃ k, limit = k + 1 := Nat.exists_eq_add_one.mpr (Nat.zero_lt_of_lt hlimit)
    have htext : further (group :: groups) ++ rest =
        separator false ++ (Nat.toDigits 16 group ++ (further groups ++ rest)) := by
      simp [further, separator]
    rw [htext, readGroups_group limit false hgroup (delimited_further groups hrest.delimited),
      ih hgroups (Nat.le_of_succ_le_succ hlimit)]

theorem readGroups_coloned {groups : List Nat} {limit : Nat} (hgroups : ∀ group ∈ groups, group < 0x10000)
    (hlimit : groups.length ≤ limit) (hrest : Ends rest) :
    readGroups limit true (coloned groups ++ rest) = ((groups, false), rest) := by
  cases groups with
  | nil => exact readGroups_of_ends limit true hrest
  | cons group groups =>
    obtain ⟨hgroup, hgroups⟩ := List.forall_mem_cons.mp hgroups
    obtain ⟨limit, rfl⟩ : ∃ k, limit = k + 1 := Nat.exists_eq_add_one.mpr (Nat.zero_lt_of_lt hlimit)
    have htext : coloned (group :: groups) ++ rest =
        separator true ++ (Nat.toDigits 16 group ++ (further groups ++ rest)) := by
      simp [coloned_cons, separator]
    rw [htext, readGroups_group limit true hgroup (delimited_further groups hrest.delimited),
      readGroups_further hgroups (Nat.le_of_succ_le_succ hlimit) hrest]

theorem readDotted_coloned (groups : List Nat) (hrest : Delimited rest) :
    readDotted (coloned groups ++ rest) = none := by
  cases groups with
  | nil => exact readDotted_group (List.forall_mem_nil _) hrest
  | cons group groups =>
    rw [coloned_cons, List.append_assoc]
    exact readDotted_group (isDigitIn_of_mem_toDigits (by decide) (by decide)) (delimited_further groups hrest)

theorem longestZeros_cons (group : Nat) (groups : List Nat) :
    longestZeros (group :: groups) =
      if (longestZeros groups).2 ≤ zerosAtStart (group :: groups) then (0, zerosAtStart (group :: groups))
      else ((longestZeros groups).1 + 1, (longestZeros groups).2) :=
  rfl

theorem replicate_zerosAtStart (groups : List Nat) :
    List.replicate (zerosAtStart groups) 0 ++ groups.drop (zerosAtStart groups) = groups := by
  induction groups with
  | nil => rfl
  | cons group groups ih =>
    rw [zerosAtStart, List.takeWhile_cons]
    split
    next hzero =>
      rw [List.length_cons, ← zerosAtStart, List.replicate_succ, List.drop_succ_cons, List.cons_append, ih,
        beq_iff_eq.mp hzero]
    next => rfl

theorem take_longestZeros (groups : List Nat) :
    groups.take (longestZeros groups).1 ++ List.replicate (longestZeros groups).2 0 ++
      groups.drop ((longestZeros groups).1 + (longestZeros groups).2) = groups := by
  induction groups with
  | nil => rfl
  | cons group groups ih =>
    rw [longestZeros_cons]
    split
    next => simpa using replicate_zerosAtStart (group :: groups)
    next =>
      simp only [List.take_succ_cons, Nat.add_right_comm _ 1, List.drop_succ_cons, List.cons_append]
      rw [ih]

theorem length_groups (bits : BitVec 128) : (groups bits).length = 8 :=
  rfl

theorem lt_of_mem_groups (bits : BitVec 128) : ∀ group ∈ groups bits, group < 0x10000 := by
  rw [groups, List.forall_mem_map]
  exact fun shift _ => Nat.mod_lt _ (by decide)

theorem ofGroups_groups (bits : BitVec 128) : BitVec.ofNat 128 (ofGroups 0x10000 (groups bits)) = bits := by
  have hvalue : ofGroups 0x10000 (groups bits) = bits.toNat % 2 ^ 128 := ofGroups_shiftRight bits.toNat 16 8
  rw [hvalue, Nat.mod_eq_of_lt bits.isLt, BitVec.ofNat_toNat, BitVec.setWidth_eq]

theorem readColoned_coloned {groups : List Nat} (hgroups : ∀ group ∈ groups, group < 0x10000)
    (hlength : groups.length = 8) :
    readColoned (coloned groups) = some (BitVec.ofNat 128 (ofGroups 0x10000 groups), []) := by
  have hread := readGroups_coloned hgroups (Nat.le_of_eq hlength) ends_nil
  rw [List.append_nil] at hread
  rw [readColoned, hread]
  exact if_pos hlength

/-- Zeros stand for a double colon. -/
theorem readColoned_double {head tail : List Nat} {endsDotted : Bool} (hhead : ∀ group ∈ head, group < 0x10000)
    (hlength : head.length < 8) (htail : readGroups (7 - head.length) true cs = ((tail, endsDotted), [])) :
    readColoned (coloned head ++ ':' :: ':' :: cs) =
      some (BitVec.ofNat 128 (ofGroups 0x10000
        (head ++ List.replicate (8 - head.length - tail.length) 0 ++ tail)), []) := by
  have hread := readGroups_coloned hhead (Nat.le_of_lt hlength) (ends_double cs)
  rw [readColoned, hread]
  simp [Nat.ne_of_lt hlength, readChar_self, htail]

theorem readGroups_dotted (limit : Nat) (first : Bool) (bits : BitVec 32) :
    readGroups (limit + 2) first (separator first ++ dotted bits) =
      (([bits.toNat >>> 16, bits.toNat % 0x10000], true), []) := by
  have hdotted := readDotted_dotted bits noDigit_nil
  rw [List.append_nil] at hdotted
  rw [readGroups, readSeparator_separator]
  simp [hdotted]

theorem readColoned_mapped {bits : BitVec 128} {low : BitVec 32} (h : mapped? bits = some low) :
    readColoned ("::ffff:".toList ++ dotted low) = some (bits, []) := by
  obtain ⟨hhigh, rfl⟩ : bits.toNat >>> 32 = 0xFFFF ∧ bits.setWidth 32 = low := by
    rw [mapped?] at h
    split at h
    next hhigh => exact ⟨hhigh, Option.some.inj h⟩
    next => cases h
  have hlow : (bits.setWidth 32).toNat = bits.toNat % 2 ^ 32 := BitVec.toNat_setWidth 32 bits
  generalize bits.setWidth 32 = low at hlow
  have hdotted : readGroups 6 false (':' :: dotted low) =
      (([low.toNat >>> 16, low.toNat % 0x10000], true), []) :=
    readGroups_dotted 4 false low
  have hread : readGroups (7 - ([] : List Nat).length) true
      (separator true ++ (Nat.toDigits 16 0xFFFF ++ ':' :: dotted low)) =
      (([0xFFFF, low.toNat >>> 16, low.toNat % 0x10000], true), []) := by
    rw [List.length_nil, readGroups_group 6 true (by decide) (delimited_colon _), hdotted]
  have htext : "::ffff:".toList ++ dotted low =
      coloned [] ++ ':' :: ':' :: (separator true ++ (Nat.toDigits 16 0xFFFF ++ ':' :: dotted low)) := by
    rfl
  rw [htext, readColoned_double (List.forall_mem_nil _) (by decide) hread]
  refine congrArg some (congrArg (·, []) (BitVec.eq_of_toNat_eq ?_))
  have hlt : bits.toNat < 2 ^ 128 := bits.isLt
  rw [Nat.shiftRight_eq_div_pow] at hhigh
  simp only [ofGroups, List.nil_append, List.length_nil, List.length_cons, List.foldl_append, List.foldl_cons,
    List.foldl_nil, BitVec.toNat_ofNat, Nat.shiftRight_eq_div_pow, List.replicate, Nat.reduceAdd, Nat.reduceSub]
  omega

theorem chars_of_mapped?_eq_none {bits : BitVec 128} (h : mapped? bits = none) :
    (v6 bits).chars =
      if (longestZeros (groups bits)).2 ≤ 1 then coloned (groups bits)
      else coloned ((groups bits).take (longestZeros (groups bits)).1) ++ [':', ':'] ++
        coloned ((groups bits).drop ((longestZeros (groups bits)).1 + (longestZeros (groups bits)).2)) := by
  rw [chars, h]

theorem chars_v6 (bits : BitVec 128) :
    (∃ low, mapped? bits = some low ∧ (v6 bits).chars = "::ffff:".toList ++ dotted low) ∨
      (v6 bits).chars = coloned (groups bits) ∨
      ∃ head length tail, 1 < length ∧ head ++ List.replicate length 0 ++ tail = groups bits ∧
        (v6 bits).chars = coloned head ++ ':' :: ':' :: coloned tail := by
  cases hmapped : mapped? bits with
  | some low =>
    refine Or.inl ⟨low, rfl, ?_⟩
    rw [chars, hmapped]
  | none =>
    rw [chars_of_mapped?_eq_none hmapped]
    split
    next => exact Or.inr (Or.inl rfl)
    next hlong =>
      refine Or.inr (Or.inr ⟨_, _, _, Nat.lt_of_not_le hlong, take_longestZeros (groups bits), ?_⟩)
      rw [List.append_assoc, List.cons_append, List.singleton_append]

theorem readColoned_chars (bits : BitVec 128) : readColoned (v6 bits).chars = some (bits, []) := by
  have hlt := lt_of_mem_groups bits
  rcases chars_v6 bits with ⟨low, hlow, htext⟩ | htext | ⟨head, length, tail, hlong, hsplit, htext⟩
  · rw [htext]
    exact readColoned_mapped hlow
  · rw [htext, readColoned_coloned hlt (length_groups bits), ofGroups_groups]
  · have hlength := congrArg List.length hsplit
    rw [length_groups, List.length_append, List.length_append, List.length_replicate] at hlength
    rw [← hsplit, List.forall_mem_append, List.forall_mem_append] at hlt
    have htail : readGroups (7 - head.length) true (coloned tail ++ []) = ((tail, false), []) :=
      readGroups_coloned hlt.2 (by omega) ends_nil
    rw [List.append_nil] at htail
    have hzeros : 8 - head.length - tail.length = length := by omega
    rw [htext, readColoned_double hlt.1.1 (by omega) htail, hzeros, hsplit, ofGroups_groups]

theorem readDotted_chars (bits : BitVec 128) : readDotted (v6 bits).chars = none := by
  rcases chars_v6 bits with ⟨low, -, htext⟩ | htext | ⟨head, length, tail, -, -, htext⟩
  · rw [htext]
    exact readDotted_coloned [] (delimited_colon _)
  · rw [htext, ← List.append_nil (coloned _)]
    exact readDotted_coloned (groups bits) delimited_nil
  · rw [htext]
    exact readDotted_coloned head (delimited_colon _)

/-- Addresses are read back from their text. -/
theorem ofText?_text (a : Address) : ofText? a.text = some a := by
  cases a with
  | v4 bits =>
    have hread := readDotted_dotted bits noDigit_nil
    rw [List.append_nil] at hread
    delta ofText?
    rw [text, String.toList_ofList, chars, hread]
  | v6 bits =>
    delta ofText? v6OfText?
    rw [text, String.toList_ofList, readDotted_chars, readColoned_chars]
    rfl

end Address

end PolicyAnalysis
