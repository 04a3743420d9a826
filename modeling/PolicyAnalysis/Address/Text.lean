import PolicyAnalysis.Address.Basic

/-!
# The text of an internet address

Addresses are written in their canonical form: the longest run of at least two zero groups, the first of
several equally long ones, becomes a double colon, and an address that embeds one of version 4 ends in
its dotted form. They are read in any of their forms, but with no leading zero in a dotted number and
nothing before or after.
-/

namespace PolicyAnalysis.Address

def joined (separator : Char) (parts : List (List Char)) : List Char :=
  [separator].intercalate parts

def dotted (bits : BitVec 32) : List Char :=
  joined '.' ((bytes bits).map (Nat.toDigits 10))

def coloned (groups : List Nat) : List Char :=
  joined ':' (groups.map (Nat.toDigits 16))

def zerosAtStart (groups : List Nat) : Nat :=
  (groups.takeWhile (· == 0)).length

/-- The start and length of the longest run of zero groups, the first such run if there are several. -/
def longestZeros : List Nat → Nat × Nat
  | [] => (0, 0)
  | group :: groups =>
    let here := zerosAtStart (group :: groups)
    let (start, length) := longestZeros groups
    if length ≤ here then (0, here) else (start + 1, length)

/-- The version 4 address that an address of version 6 embeds, if its first eighty bits are zero and the
next sixteen one. -/
def mapped? (bits : BitVec 128) : Option (BitVec 32) :=
  if bits.toNat >>> 32 = 0xFFFF then some (bits.setWidth 32) else none

def chars : Address → List Char
  | v4 bits => dotted bits
  | v6 bits =>
    match mapped? bits with
    | some low => "::ffff:".toList ++ dotted low
    | none =>
      let groups := groups bits
      let (start, length) := longestZeros groups
      if length ≤ 1 then coloned groups
      else coloned (groups.take start) ++ [':', ':'] ++ coloned (groups.drop (start + length))

def text (a : Address) : String :=
  String.ofList a.chars

/-- A reader returns what it has read and the rest. -/
abbrev Reader (α : Type) := List Char → Option (α × List Char)

def digit? (c : Char) : Option Nat :=
  if '0' ≤ c && c ≤ '9' then some (c.toNat - '0'.toNat)
  else if 'a' ≤ c && c ≤ 'f' then some (c.toNat - 'a'.toNat + 10)
  else if 'A' ≤ c && c ≤ 'F' then some (c.toNat - 'A'.toNat + 10)
  else none

def isDigitIn (base : Nat) (c : Char) : Bool :=
  match digit? c with
  | some d => d < base
  | none => false

/-- A number of one to `maxDigits` digits, below `bound`; all digits that stand there belong to it. -/
def readNumber (base maxDigits bound : Nat) (leadingZero : Bool) : Reader Nat := fun cs =>
  let digits := cs.takeWhile (isDigitIn base)
  let value := ofGroups base (digits.filterMap digit?)
  if digits.isEmpty || maxDigits < digits.length || bound ≤ value ||
      (!leadingZero && 1 < digits.length && digits.head? == some '0') then none
  else some (value, cs.dropWhile (isDigitIn base))

def readChar (c : Char) : Reader Unit
  | d :: rest => if c = d then some ((), rest) else none
  | [] => none

def readByte : Reader Nat :=
  readNumber 10 3 0x100 false

def readDotted : Reader (BitVec 32) := fun cs => do
  let (a, cs) ← readByte cs
  let ((), cs) ← readChar '.' cs
  let (b, cs) ← readByte cs
  let ((), cs) ← readChar '.' cs
  let (c, cs) ← readByte cs
  let ((), cs) ← readChar '.' cs
  let (d, cs) ← readByte cs
  return (BitVec.ofNat 32 (ofGroups 0x100 [a, b, c, d]), cs)

def readSeparator (first : Bool) : Reader Unit := fun cs =>
  if first then some ((), cs) else readChar ':' cs

/-- At most `limit` groups with colons between them, as many as stand there, and whether the last two came
from a dotted form. That form is tried first wherever two groups still fit. -/
def readGroups (limit : Nat) (first : Bool) (cs : List Char) : (List Nat × Bool) × List Char :=
  match limit with
  | 0 => (([], false), cs)
  | limit + 1 =>
    let embedded := do
      if limit = 0 then none
      let ((), cs) ← readSeparator first cs
      readDotted cs
    match embedded with
    | some (bits, cs) => (([bits.toNat >>> 16, bits.toNat % 0x10000], true), cs)
    | none =>
      let group := do
        let ((), cs) ← readSeparator first cs
        readNumber 16 4 0x10000 true cs
      match group with
      | none => (([], false), cs)
      | some (group, cs) =>
        let ((groups, dotted), cs) := readGroups limit false cs
        ((group :: groups, dotted), cs)

/-- An address of version 6: eight groups, or at most seven in all around a double colon. -/
def readColoned : Reader (BitVec 128) := fun cs =>
  match readGroups 8 true cs with
  | ((head, dotted), cs) =>
    if head.length = 8 then some (BitVec.ofNat 128 (ofGroups 0x10000 head), cs)
    else if dotted then none
    else do
      let ((), cs) ← readChar ':' cs
      let ((), cs) ← readChar ':' cs
      let ((tail, _), cs) := readGroups (7 - head.length) true cs
      let zeros := List.replicate (8 - head.length - tail.length) 0
      return (BitVec.ofNat 128 (ofGroups 0x10000 (head ++ zeros ++ tail)), cs)

def v6OfText? (s : String) : Option (BitVec 128) :=
  match readColoned s.toList with
  | some (bits, []) => some bits
  | _ => none

def ofText? (s : String) : Option Address :=
  match readDotted s.toList with
  | some (bits, []) => some (v4 bits)
  | some _ => none
  | none => (v6OfText? s).map v6

end PolicyAnalysis.Address
