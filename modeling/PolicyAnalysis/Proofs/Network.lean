import Mathlib.Data.List.TakeWhile
import PolicyAnalysis.Network.Words
import PolicyAnalysis.Proofs.Address.Text

/-!
# Networks and their text

A network is made just of an address and a number of bits of it that leave no host bit set, and nothing overflows when
this is told by words. What has been made is read back from its text, whatever blanks stand around the two parts of the
text, and nothing else is read.
-/

namespace PolicyAnalysis

/-- A bit of an address, counted from the last. -/
def Address.bit (a : Address) (i : Nat) : Bool :=
  a.toNat.testBit i

namespace Network

variable {address : Address} {bits : UInt8} {n : Network}

theorem mod_two_pow_eq_zero_iff (n count : Nat) : n % 2 ^ count = 0 ↔ ∀ i < count, n.testBit i = false := by
  constructor
  · intro h i hi
    have hbit := Nat.testBit_mod_two_pow n count i
    rw [h, Nat.zero_testBit] at hbit
    simpa [hi] using hbit.symm
  · intro h
    refine Nat.eq_of_testBit_eq fun i => ?_
    rw [Nat.testBit_mod_two_pow, Nat.zero_testBit]
    by_cases hi : i < count
    · rw [h i hi, Bool.and_false]
    · simp [hi]

theorem hostBitsClear_iff : n.HostBitsClear ↔ ∀ i < n.address.width - n.bits.toNat, n.address.bit i = false := by
  rw [HostBitsClear, Nat.one_shiftLeft, mod_two_pow_eq_zero_iff]
  rfl

/-- The host bits of an address are no more than it has, and all of them are clear. -/
def Admits (address : Address) (bits : UInt8) : Prop :=
  bits.toNat ≤ address.width ∧ ∀ i < address.width - bits.toNat, address.bit i = false

theorem of_eq_ok : Network.of address bits = .ok n ↔ Admits address bits ∧ n = ⟨address, bits⟩ := by
  have hclear := hostBitsClear_iff (n := ⟨address, bits⟩)
  rw [Network.of, Admits, ← hclear]
  split
  next h => simp [h, eq_comm]
  next h => simp [h]

theorem toNat_hostMask {count : Nat} (h : count ≤ 128) :
    ∃ mask, hostMask? count = some mask ∧ mask.toNat = 2 ^ count - 1 := by
  rw [hostMask?]
  by_cases hall : 128 ≤ count
  · rw [if_pos hall, Nat.le_antisymm h hall]
    exact ⟨_, rfl, BitVec.toNat_allOnes⟩
  · have hlt : count < 128 := Nat.lt_of_not_le hall
    have hpow : 2 ^ count < 2 ^ 128 := Nat.pow_lt_pow_right (by decide) hlt
    have hpos : 0 < 2 ^ count := Nat.two_pow_pos count
    have hone : ((1 : BitVec 128) <<< count).toNat = 2 ^ count := by
      rw [BitVec.toNat_shiftLeft, Nat.shiftLeft_eq]
      simpa using Nat.mod_eq_of_lt hpow
    have hle : (1 : BitVec 128) ≤ (1 : BitVec 128) <<< count := by
      rw [BitVec.le_def, hone]
      exact hpos
    refine ⟨_, by rw [if_neg hall, shiftLeft?, if_pos hlt]; exact if_pos hle, ?_⟩
    rw [BitVec.toNat_sub_of_le hle, hone]
    rfl

theorem toNat_word (address : Address) : address.word.toNat = address.toNat := by
  cases address with
  | v4 bits =>
    have hlt : bits.toNat < 2 ^ 128 := Nat.lt_trans bits.isLt (by decide)
    rw [Address.word, BitVec.toNat_setWidth, Nat.mod_eq_of_lt hlt, Address.toNat]
  | v6 bits => rfl

theorem width_le (address : Address) : address.width ≤ 128 := by
  cases address <;> simp [Address.width]

/-- No step on words overflows. -/
theorem ofWords?_eq (address : Address) (bits : UInt8) : ofWords? address bits = some (Network.of address bits) := by
  have hmost : (UInt8.ofNat address.width).toNat = address.width := by cases address <;> rfl
  rw [ofWords?, Network.of]
  simp only [UInt8.lt_iff_toNat_lt, hmost]
  by_cases hbits : address.width < bits.toNat
  · rw [if_pos hbits, if_neg fun h => Nat.not_lt.mpr h.1 hbits]
  · have hle : bits.toNat ≤ address.width := Nat.le_of_not_lt hbits
    have hle' : bits.toBitVec ≤ (UInt8.ofNat address.width).toBitVec := by
      show bits.toNat ≤ (UInt8.ofNat address.width).toNat
      rwa [hmost]
    have hsub : ((UInt8.ofNat address.width).toBitVec - bits.toBitVec).toNat = address.width - bits.toNat := by
      rw [BitVec.toNat_sub_of_le hle']
      exact congrArg (· - bits.toNat) hmost
    obtain ⟨mask, hmask, hvalue⟩ :=
      toNat_hostMask (Nat.le_trans (Nat.sub_le address.width bits.toNat) (width_le address))
    have hclear : address.word &&& mask = 0 ↔ (Network.mk address bits).HostBitsClear := by
      rw [← BitVec.toNat_inj, BitVec.toNat_and, hvalue, toNat_word, Nat.and_two_pow_sub_one_eq_mod, HostBitsClear,
        Nat.one_shiftLeft]
      rfl
    rw [if_neg hbits, sub?, if_pos hle', Option.bind_eq_bind, Option.bind_some, hsub, hmask, Option.bind_eq_bind,
      Option.bind_some, if_congr hclear rfl rfl, if_congr (and_iff_right hle) rfl rfl]
    rfl

end Network

def Address.isPlain (c : Char) : Bool :=
  c != '/' && !Text.isBlank c

namespace Address

theorem isPlain_digitChar {digit : Nat} (h : digit < 16) : isPlain digit.digitChar := by
  revert digit
  decide +kernel

theorem forall_mem_joined {P : Char → Prop} {separator : Char} {parts : List (List Char)} (hseparator : P separator)
    (hparts : ∀ part ∈ parts, ∀ c ∈ part, P c) : ∀ c ∈ joined separator parts, P c := by
  cases parts with
  | nil => exact nofun
  | cons part parts =>
    obtain ⟨hpart, hparts⟩ := List.forall_mem_cons.mp hparts
    rw [joined_cons, List.forall_mem_append]
    refine ⟨hpart, fun c hc => ?_⟩
    obtain ⟨part', hpart', hc⟩ := List.mem_flatMap.mp hc
    rcases List.mem_cons.mp hc with rfl | hc
    · exact hseparator
    · exact hparts part' hpart' c hc

theorem isPlain_of_mem_dotted (bits : BitVec 32) : ∀ c ∈ dotted bits, isPlain c := by
  refine forall_mem_joined (by decide +kernel) (List.forall_mem_map.mpr fun byte _ => ?_)
  exact forall_mem_toDigits (by decide) fun digit hdigit => isPlain_digitChar (Nat.lt_trans hdigit (by decide))

theorem isPlain_of_mem_coloned (groups : List Nat) : ∀ c ∈ coloned groups, isPlain c := by
  refine forall_mem_joined (by decide +kernel) (List.forall_mem_map.mpr fun group _ => ?_)
  exact forall_mem_toDigits (by decide) fun _ => isPlain_digitChar

theorem isPlain_of_mem_chars (a : Address) : ∀ c ∈ a.chars, isPlain c := by
  cases a with
  | v4 bits => exact isPlain_of_mem_dotted bits
  | v6 bits =>
    rcases chars_v6 bits with ⟨low, -, htext⟩ | htext | ⟨head, length, tail, -, -, htext⟩
    · have hprefix : "::ffff:".toList.all isPlain := by decide +kernel
      rw [htext, List.forall_mem_append]
      exact ⟨List.all_eq_true.mp hprefix, isPlain_of_mem_dotted low⟩
    · rw [htext]
      exact isPlain_of_mem_coloned (groups bits)
    · rw [htext, List.forall_mem_append, List.forall_mem_cons, List.forall_mem_cons]
      exact ⟨isPlain_of_mem_coloned head, by decide +kernel, by decide +kernel, isPlain_of_mem_coloned tail⟩

end Address

namespace Text

variable {before cs after : List Char}

theorem dropWhile_isBlank_append (hcs : ∀ c ∈ cs, isBlank c = false) (hne : cs ≠ []) (rest : List Char) :
    (cs ++ rest).dropWhile isBlank = cs ++ rest := by
  obtain ⟨c, cs, rfl⟩ := List.exists_cons_of_ne_nil hne
  refine List.dropWhile_cons_of_neg ?_
  rw [hcs c List.mem_cons_self]
  exact Bool.false_ne_true

/-- Blanks at both ends are dropped, and nothing else. -/
theorem trimChars_append (hbefore : ∀ c ∈ before, isBlank c) (hcs : ∀ c ∈ cs, isBlank c = false) (hne : cs ≠ [])
    (hafter : ∀ c ∈ after, isBlank c) : trimChars (before ++ cs ++ after) = cs := by
  have hreverse : (cs.reverse ++ []).dropWhile isBlank = cs.reverse ++ [] :=
    dropWhile_isBlank_append (by simpa using hcs) (by simpa using hne) []
  rw [List.append_nil] at hreverse
  rw [trimChars, List.append_assoc, List.dropWhile_append_of_pos hbefore, dropWhile_isBlank_append hcs hne,
    List.reverse_append, List.dropWhile_append_of_pos (by simpa using hafter), hreverse, List.reverse_reverse]

end Text

namespace Network

variable {address : Address} {bits : UInt8} {n : Network} {s : String} {before after : List Char}

theorem byteOfText?_toDigits (bits : UInt8) :
    byteOfText? (String.ofList (Nat.toDigits 10 bits.toNat)) = some bits := by
  have hdigit : ∀ c ∈ Nat.toDigits 10 bits.toNat, c.isDigit := fun c hc =>
    Nat.isDigit_of_mem_toDigits (by decide) (by decide) hc
  have hlt : bits.toNat < 256 := bits.toNat_lt
  delta byteOfText?
  simp only [String.toList_ofList]
  split
  next digits hplus =>
    -- A number is not written with a sign.
    rw [hplus] at hdigit
    exact absurd (hdigit '+' List.mem_cons_self) (by decide)
  next =>
    rw [Nat.ofDigitChars_ten_toDigits, if_neg, if_pos hlt, UInt8.ofNat_toNat]
    simpa [Nat.toDigits_ne_nil] using hdigit

theorem ofText_of_toList_eq (hs : s.toList = before ++ '/' :: after) (hbefore : '/' ∉ before) :
    Network.ofText s =
      match Address.ofText? (String.ofList (Text.trimChars before)),
        byteOfText? (String.ofList (Text.trimChars after)) with
      | some address, some bits => Network.of address bits
      | _, _ => .error (.badNetwork s) := by
  have hne : ∀ c ∈ before, (c != '/') := fun c hc => bne_iff_ne.mpr fun heq => hbefore (heq ▸ hc)
  have htake : (before ++ '/' :: after).takeWhile (· != '/') = before := by
    rw [List.takeWhile_append_of_pos hne]
    exact List.append_nil before
  have hdrop : (before ++ '/' :: after).dropWhile (· != '/') = '/' :: after := by
    rw [List.dropWhile_append_of_pos hne]
    rfl
  delta Network.ofText
  rewrite [hs, htake, hdrop]
  rfl

theorem ofText_of_not_mem (hs : '/' ∉ s.toList) : Network.ofText s = .error (.badNetwork s) := by
  have hne : ∀ c ∈ s.toList, (c != '/') := fun c hc => bne_iff_ne.mpr fun heq => hs (heq ▸ hc)
  delta Network.ofText
  rw [List.dropWhile_eq_nil_iff.mpr hne]

/-- What a text must have for a network to be read from it. -/
structure Spells (s : String) (n : Network) (before after : List Char) : Prop where
  toList_eq : s.toList = before ++ '/' :: after
  first : '/' ∉ before
  address : Address.ofText? (String.ofList (Text.trimChars before)) = some n.address
  bits : byteOfText? (String.ofList (Text.trimChars after)) = some n.bits

theorem ofText_eq_ok : Network.ofText s = .ok n ↔
    (∃ before after, Spells s n before after) ∧ Network.of n.address n.bits = .ok n := by
  constructor
  · intro h
    by_cases hslash : '/' ∈ s.toList
    · obtain ⟨before, after, hs, hbefore⟩ := List.eq_append_cons_of_mem hslash
      rw [ofText_of_toList_eq hs hbefore] at h
      split at h
      next address bits haddress hbits =>
        obtain ⟨hadmits, rfl⟩ := of_eq_ok.mp h
        exact ⟨⟨before, after, hs, hbefore, haddress, hbits⟩, h⟩
      next => cases h
    · rw [ofText_of_not_mem hslash] at h
      cases h
  · rintro ⟨⟨before, after, h⟩, hn⟩
    rw [ofText_of_toList_eq h.toList_eq h.first, h.address, h.bits]
    exact hn

/-- The text of a network with other texts around its two parts. -/
def padded (n : Network) (p q r t : String) : String :=
  p ++ n.address.text ++ q ++ "/" ++ r ++ toString n.bits.toNat ++ t

theorem padded_empty (n : Network) : n.padded "" "" "" "" = n.text := by
  simp [padded, text]

theorem spells_padded {p q r t : String} (hp : Text.isBlankText p) (hq : Text.isBlankText q)
    (hr : Text.isBlankText r) (ht : Text.isBlankText t) (n : Network) :
    Spells (n.padded p q r t) n (p.toList ++ n.address.chars ++ q.toList)
      (r.toList ++ Nat.toDigits 10 n.bits.toNat ++ t.toList) := by
  rw [Text.isBlankText, List.all_eq_true] at hp hq hr ht
  have haddress := Address.isPlain_of_mem_chars n.address
  have hbits : ∀ c ∈ Nat.toDigits 10 n.bits.toNat, Address.isPlain c :=
    Address.forall_mem_toDigits (by decide) fun digit hdigit =>
      Address.isPlain_digitChar (Nat.lt_trans hdigit (by decide))
  simp only [Address.isPlain, Bool.and_eq_true, bne_iff_ne, Bool.not_eq_true'] at haddress hbits
  have hread := Address.ofText?_text n.address
  have hne : n.address.chars ≠ [] := by
    intro hnil
    rw [Address.text, hnil] at hread
    cases hread
  have hslash : Text.isBlank '/' = false := by decide
  constructor
  · simp [padded, Address.text, Nat.toString_eq_repr]
  · simp only [List.mem_append, not_or]
    refine ⟨⟨fun h => ?_, fun h => (haddress '/' h).1 rfl⟩, fun h => ?_⟩
    · exact absurd (hp '/' h) (Bool.eq_false_iff.mp hslash)
    · exact absurd (hq '/' h) (Bool.eq_false_iff.mp hslash)
  · rw [Text.trimChars_append hp (fun c hc => (haddress c hc).2) hne hq]
    exact hread
  · rw [Text.trimChars_append hr (fun c hc => (hbits c hc).2) Nat.toDigits_ne_nil ht]
    exact byteOfText?_toDigits n.bits

/-- A network is made just of what has clear host bits, on words as well, where no step overflows. What has been made
is read back from its text, also with blanks around the two parts. A text is read just if it spells, with a slash and
blanks, an address and a number of bits of which a network can be made. -/
theorem networks_exact :
    (∀ address bits, ofWords? address bits = some (Network.of address bits)) ∧
    (∀ address bits, (∃ n, Network.of address bits = .ok n) ↔
      bits.toNat ≤ address.width ∧ ∀ i < address.width - bits.toNat, address.bit i = false) ∧
    (∀ address bits n, Network.of address bits = .ok n → n = ⟨address, bits⟩ ∧ Network.ofText n.text = .ok n ∧
      ∀ p q r t : String, Text.isBlankText p → Text.isBlankText q → Text.isBlankText r → Text.isBlankText t →
        Network.ofText (n.padded p q r t) = .ok n) ∧
    ∀ s n, Network.ofText s = .ok n ↔
      (∃ before after, Spells s n before after) ∧ Network.of n.address n.bits = .ok n := by
  refine ⟨ofWords?_eq, fun address bits => ?_, fun address bits n hn => ?_, fun s n => ofText_eq_ok⟩
  · simp only [of_eq_ok, exists_and_left, exists_eq, and_true]
    rfl
  · obtain ⟨-, rfl⟩ := of_eq_ok.mp hn
    have hpadded (p q r t : String) (hp : Text.isBlankText p) (hq : Text.isBlankText q) (hr : Text.isBlankText r)
        (ht : Text.isBlankText t) : Network.ofText (padded ⟨address, bits⟩ p q r t) = .ok ⟨address, bits⟩ :=
      ofText_eq_ok.mpr ⟨⟨_, _, spells_padded hp hq hr ht _⟩, hn⟩
    refine ⟨rfl, ?_, hpadded⟩
    rw [← padded_empty]
    exact hpadded "" "" "" "" (by decide) (by decide) (by decide) (by decide)

def linkLocal : Network :=
  ⟨.v6 0xFE800000000000000000000000000000, 64⟩

/-- Blanks are not only those of ASCII. -/
theorem networks_exact_linkLocal :
    Network.of linkLocal.address linkLocal.bits = .ok linkLocal ∧ linkLocal.text = "fe80::/64" ∧
      Network.ofText "fe80::/64" = .ok linkLocal ∧
      Network.ofText (linkLocal.padded "\u3000" "\t\u2003" "\n" "\u00A0") = .ok linkLocal := by
  have hn : Network.of linkLocal.address linkLocal.bits = .ok linkLocal := by decide +kernel
  have htext : linkLocal.text = "fe80::/64" := by decide +kernel
  obtain ⟨-, hread, hpadded⟩ := networks_exact.2.2.1 _ _ _ hn
  rw [htext] at hread
  exact ⟨hn, htext, hread, hpadded _ _ _ _ (by decide) (by decide) (by decide) (by decide)⟩

end Network

end PolicyAnalysis
