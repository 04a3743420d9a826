import PolicyAnalysis.Toml.Basic

/-!
# TOML numbers and dates

Integers have 64 bits. Digits may be set apart by single underscores. Dates are those of the calendar, and a
minute may have a leap second.
-/

namespace PolicyAnalysis.Toml

def moreDigits (isDigit : Char → Bool) : Reader (List Char)
  | '_' :: c :: rest =>
    if isDigit c then (moreDigits isDigit rest).map fun (digits, rest) => (c :: digits, rest) else none
  | c :: rest =>
    if isDigit c then (moreDigits isDigit rest).map fun (digits, rest) => (c :: digits, rest)
    else if c = '_' then none
    else some ([], c :: rest)
  | [] => some ([], [])

def digits? (isDigit : Char → Bool) : Reader (List Char)
  | c :: rest =>
    if isDigit c then (moreDigits isDigit rest).map fun (digits, rest) => (c :: digits, rest) else none
  | [] => none

def sign : List Char → Bool × List Char
  | '+' :: rest => (false, rest)
  | '-' :: rest => (true, rest)
  | cs => (false, cs)

/-- A decimal integer: its sign and digits. A zero stands alone. -/
def decimal? (cs : List Char) : Option ((Bool × List Char) × List Char) :=
  let (negative, cs) := sign cs
  match cs with
  | '0' :: rest => some ((negative, ['0']), rest)
  | cs => (digits? Char.isDigit cs).map fun (digits, rest) => ((negative, digits), rest)

def isHexDigit (c : Char) : Bool :=
  c.isDigit || ('a' ≤ c && c ≤ 'f') || ('A' ≤ c && c ≤ 'F')

def digitValue (c : Char) : Nat :=
  if c.isDigit then c.toNat - '0'.toNat
  else if 'a' ≤ c then c.toNat - 'a'.toNat + 10
  else c.toNat - 'A'.toNat + 10

def ofDigits (base : Nat) (digits : List Char) : Nat :=
  digits.foldl (fun n digit => n * base + digitValue digit) 0

def word? (n : Int) : Option Toml :=
  if -0x8000000000000000 ≤ n ∧ n < 0x8000000000000000 then some (.int n) else none

def based? (base : Nat) (isDigit : Char → Bool) (cs : List Char) : Option (Toml × List Char) := do
  let (digits, rest) ← digits? isDigit cs
  return (← word? (ofDigits base digits), rest)

def integer? (cs : List Char) : Option (Toml × List Char) :=
  match cs with
  | '0' :: 'x' :: rest => based? 16 isHexDigit rest
  | '0' :: 'o' :: rest => based? 8 (fun c => '0' ≤ c && c ≤ '7') rest
  | '0' :: 'b' :: rest => based? 2 (fun c => c == '0' || c == '1') rest
  | cs => do
    let ((negative, digits), rest) ← decimal? cs
    let magnitude : Int := ofDigits 10 digits
    return (← word? (if negative then -magnitude else magnitude), rest)

def fraction? : Reader (List Char)
  | '.' :: rest => digits? Char.isDigit rest
  | cs => some ([], cs)

def exponent? : Reader (Option (Bool × List Char))
  | c :: rest =>
    if c = 'e' ∨ c = 'E' then do
      let (negative, rest) := sign rest
      let (digits, rest) ← digits? Char.isDigit rest
      return (some (negative, digits), rest)
    else some (none, c :: rest)
  | [] => some (none, [])

/-- The least number that has no nearest double below infinity. -/
def overflow : Nat :=
  (1 <<< 1024) - (1 <<< 970)

/-- Whether digits times ten to a power reach a bound; a number of far more or far fewer digits than the
bound is not multiplied out. -/
def reaches (bound : Nat) (mantissa : Nat) (exponent : Int) : Bool :=
  let size := (Nat.toDigits 10 mantissa).length + exponent
  if mantissa = 0 then false
  else if 400 < size then true
  else if size < 200 then false
  else if 0 ≤ exponent then bound ≤ mantissa * Nat.pow 10 exponent.toNat
  else bound * Nat.pow 10 (-exponent).toNat ≤ mantissa

/-- A number with a fraction or an exponent; one that is too great is no number. -/
def decimalReal? (cs : List Char) : Option (Toml × List Char) := do
  let ((negative, whole), rest) ← decimal? cs
  let (fraction, rest) ← fraction? rest
  let (exponent, rest) ← exponent? rest
  if fraction.isEmpty && exponent.isNone then none
  let power : Int := match exponent with
    | some (true, digits) => -(ofDigits 10 digits)
    | some (false, digits) => ofDigits 10 digits
    | none => 0
  let mantissa := ofDigits 10 (whole ++ fraction)
  if !negative && reaches overflow mantissa (power - fraction.length) then none
  return (.real (String.ofList (cs.take (cs.length - rest.length))), rest)

/-- Infinity and what is not a number, with or without a sign. -/
def specialReal? (cs : List Char) : Option (Toml × List Char) :=
  match (sign cs).2 with
  | 'i' :: 'n' :: 'f' :: rest | 'n' :: 'a' :: 'n' :: rest =>
    some (.real (String.ofList (cs.take (cs.length - rest.length))), rest)
  | _ => none

def fixed? (count : Nat) (cs : List Char) : Option (Nat × List Char) :=
  let digits := cs.take count
  if digits.length = count ∧ digits.all Char.isDigit then some (ofDigits 10 digits, cs.drop count)
  else none

def bounded? (low high : Nat) (cs : List Char) : Option (Nat × List Char) := do
  let (n, rest) ← fixed? 2 cs
  if low ≤ n ∧ n ≤ high then return (n, rest) else none

def skip? (c : Char) : List Char → Option (List Char)
  | d :: rest => if d = c then some rest else none
  | [] => none

def isLeap (year : Nat) : Bool :=
  year % 4 = 0 && (year % 100 ≠ 0 || year % 400 = 0)

def daysOf (year month : Nat) : Nat :=
  if month = 2 then if isLeap year then 29 else 28
  else if month ∈ [4, 6, 9, 11] then 30
  else 31

def afterDay? (cs : List Char) : Option (List Char) := do
  let (year, rest) ← fixed? 4 cs
  let (month, rest) ← bounded? 1 12 (← skip? '-' rest)
  let (_, rest) ← bounded? 1 (daysOf year month) (← skip? '-' rest)
  return rest

def skipFraction (cs : List Char) : List Char :=
  match cs with
  | '.' :: rest =>
    if (rest.takeWhile Char.isDigit).isEmpty then cs else rest.dropWhile Char.isDigit
  | _ => cs

def afterTime? (cs : List Char) : Option (List Char) := do
  let (_, rest) ← bounded? 0 23 cs
  let (_, rest) ← bounded? 0 59 (← skip? ':' rest)
  let (_, rest) ← bounded? 0 60 (← skip? ':' rest)
  return skipFraction rest

def afterOffset? (cs : List Char) : Option (List Char) :=
  match cs with
  | 'Z' :: rest | 'z' :: rest => some rest
  | '+' :: rest | '-' :: rest => do
    let (_, rest) ← bounded? 0 23 rest
    let (_, rest) ← bounded? 0 59 (← skip? ':' rest)
    return rest
  | _ => none

/-- The text after a time that follows a day, with or without an offset. -/
def afterTimeOfDay? (cs : List Char) : Option (List Char) :=
  match cs with
  | 'T' :: rest | 't' :: rest | ' ' :: rest =>
    (afterTime? rest).map fun rest => (afterOffset? rest).getD rest
  | _ => none

def date? (cs : List Char) : Option (Toml × List Char) :=
  let after := match afterDay? cs with
    | some rest => some ((afterTimeOfDay? rest).getD rest)
    | none => afterTime? cs
  after.map fun rest => (.date (String.ofList (cs.take (cs.length - rest.length))), rest)

def number? (cs : List Char) : Option (Toml × List Char) :=
  date? cs <|> decimalReal? cs <|> specialReal? cs <|> integer? cs

end PolicyAnalysis.Toml
