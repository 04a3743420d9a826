import PolicyAnalysis.Toml.Basic

/-!
# TOML strings

A string stands between quotes, with escapes, or between apostrophes, as it is; three quotes or apostrophes
at each end let it go on over several lines. A text is written in the first of these forms that needs no
escape, and else between quotes.
-/

namespace PolicyAnalysis.Toml

def hexDigit? (c : Char) : Option Nat :=
  if '0' ≤ c && c ≤ '9' then some (c.toNat - '0'.toNat)
  else if 'a' ≤ c && c ≤ 'f' then some (c.toNat - 'a'.toNat + 10)
  else if 'A' ≤ c && c ≤ 'F' then some (c.toNat - 'A'.toNat + 10)
  else none

/-- The character whose number is written by the next digits, of which there must be `count`. -/
def numbered? (count : Nat) (cs : List Char) : Option (Char × List Char) := do
  let digits ← (cs.take count).mapM hexDigit?
  let n := digits.foldl (fun n digit => n * 16 + digit) 0
  if digits.length = count ∧ n.isValidChar then return (Char.ofNat n, cs.drop count) else none

def escape? : Reader Char
  | 'b' :: rest => some ('\x08', rest)
  | 't' :: rest => some ('\t', rest)
  | 'n' :: rest => some ('\n', rest)
  | 'f' :: rest => some ('\x0c', rest)
  | 'r' :: rest => some ('\r', rest)
  | '"' :: rest => some ('"', rest)
  | '\\' :: rest => some ('\\', rest)
  | 'u' :: rest => numbered? 4 rest
  | 'U' :: rest => numbered? 8 rest
  | _ => none

def skipBlankLines : List Char → List Char
  | ' ' :: rest => skipBlankLines rest
  | '\t' :: rest => skipBlankLines rest
  | '\n' :: rest => skipBlankLines rest
  | '\r' :: '\n' :: rest => skipBlankLines rest
  | cs => cs

/-- The text after a backslash at the end of a line, up to what stands on a later line. -/
def lineJoin? (cs : List Char) : Option (List Char) :=
  (newline? (skipSpace cs)).map skipBlankLines

/-- The rest of a string in quotes; `read` holds what was read, last character first. -/
def quotedBody (fuel : Nat) (read : List Char) (cs : List Char) : Option (String × List Char) :=
  match fuel, cs with
  | fuel + 1, c :: rest =>
    if c = '"' then some (String.ofList read.reverse, rest)
    else if c = '\\' then do
      let (c, rest) ← escape? rest
      quotedBody fuel (c :: read) rest
    else if isPlain c then quotedBody fuel (c :: read) rest
    else none
  | _, _ => none

def literalBody (read : List Char) : Reader String
  | [] => none
  | c :: rest =>
    if c = '\'' then some (String.ofList read.reverse, rest)
    else if isPlain c then literalBody (c :: read) rest
    else none

/-- What a run of delimiters inside a string over several lines comes to: up to two are part of the string,
three close it, and up to two more before these still belong to it. -/
def closing? (run : Nat) : Option (Nat × Bool) :=
  if run ≤ 2 then some (run, false)
  else if run ≤ 5 then some (run - 3, true)
  else none

/-- The rest of a string over several lines, in quotes if `escapes`, else in apostrophes. -/
def longBody (escapes : Bool) (fuel : Nat) (read : List Char) (cs : List Char) :
    Option (String × List Char) :=
  let delimiter := if escapes then '"' else '\''
  match fuel, cs with
  | fuel + 1, c :: rest =>
    if c = delimiter then do
      let run := cs.takeWhile (· == delimiter)
      let rest := cs.dropWhile (· == delimiter)
      let (kept, closed) ← closing? run.length
      let read := List.replicate kept delimiter ++ read
      if closed then return (String.ofList read.reverse, rest)
      else longBody escapes fuel read rest
    else if escapes && c = '\\' then
      match lineJoin? rest with
      | some rest => longBody escapes fuel read rest
      | none => do
        let (c, rest) ← escape? rest
        longBody escapes fuel (c :: read) rest
    else if isPlain c then longBody escapes fuel (c :: read) rest
    else do
      let rest ← newline? cs
      longBody escapes fuel ('\n' :: read) rest
  | _, _ => none

/-- A line break right after the opening delimiter is not part of the string. -/
def skipNewline (cs : List Char) : List Char :=
  (newline? cs).getD cs

def shortString? : Reader String
  | '"' :: rest => quotedBody rest.length [] rest
  | '\'' :: rest => literalBody [] rest
  | _ => none

def string? : Reader String
  | '"' :: '"' :: '"' :: rest => longBody true (rest.length + 1) [] (skipNewline rest)
  | '\'' :: '\'' :: '\'' :: rest => longBody false (rest.length + 1) [] (skipNewline rest)
  | cs => shortString? cs

def isControl (c : Char) : Bool :=
  (c.toNat < 0x20 && c != '\t' && c != '\n') || c.toNat == 0x7F

def hasRunOver (most : Nat) (c : Char) : List Char → Bool
  | [] => false
  | d :: cs => most < ((d :: cs).takeWhile (· == c)).length || hasRunOver most c cs

def escape (c : Char) : List Char :=
  match c with
  | '\x08' => ['\\', 'b']
  | '\t' => ['\\', 't']
  | '\n' => ['\\', 'n']
  | '\x0c' => ['\\', 'f']
  | '\r' => ['\\', 'r']
  | '"' => ['\\', '"']
  | '\\' => ['\\', '\\']
  | c =>
    let digits := (Nat.toDigits 16 c.toNat).map Char.toUpper
    '\\' :: 'u' :: (List.replicate (4 - digits.length) '0' ++ digits)

def isEscaped (c : Char) : Bool :=
  c == '\t' || c == '\n' || c == '\\' || isControl c

/-- The inside of a string in quotes. Over several lines, line breaks stay and of three quotes in a row only
the third is escaped; `quotes` counts those that stand before. -/
def escaped (long : Bool) (quotes : Nat) : List Char → List Char
  | [] => []
  | c :: rest =>
    if c = '"' then
      if long ∧ quotes < 2 then c :: escaped long (quotes + 1) rest
      else escape c ++ escaped long 0 rest
    else if isEscaped c ∧ ¬ (long ∧ c = '\n') then escape c ++ escaped long 0 rest
    else c :: escaped long 0 rest

def longDelimiter (c : Char) : List Char :=
  [c, c, c]

/-- A string over several lines; its first line starts on a line of its own. -/
def longQuote (delimiter : Char) (hasNewline : Bool) (body : List Char) : List Char :=
  longDelimiter delimiter ++ (if hasNewline then ['\n'] else []) ++ body ++ longDelimiter delimiter

def quoteChars (cs : List Char) : List Char :=
  let newline := cs.contains '\n'
  let control := cs.any isControl
  let backslash := cs.contains '\\'
  if !backslash && !control && !newline && !cs.contains '"' then '"' :: escaped false 0 cs ++ ['"']
  else if !control && !newline && !cs.contains '\'' then '\'' :: cs ++ ['\'']
  else if !backslash && !control && !hasRunOver 2 '"' cs then
    longQuote '"' newline (escaped true 0 cs)
  else if !control && !hasRunOver 2 '\'' cs then longQuote '\'' newline cs
  else if newline then longQuote '"' newline (escaped true 0 cs)
  else '"' :: escaped false 0 cs ++ ['"']

def quote (s : String) : String :=
  String.ofList (quoteChars s.toList)

def isBare (c : Char) : Bool :=
  c.isAlphanum || c == '_' || c == '-'

def keyChars (cs : List Char) : List Char :=
  let control := cs.contains '\n' || cs.any isControl
  if !cs.isEmpty && cs.all isBare then cs
  else if !cs.contains '\\' && !control && !cs.contains '"' then '"' :: escaped false 0 cs ++ ['"']
  else if !control && !cs.contains '\'' then '\'' :: cs ++ ['\'']
  else '"' :: escaped false 0 cs ++ ['"']

def simpleKey? (cs : List Char) : Option (String × List Char) :=
  match cs with
  | '"' :: _ => shortString? cs
  | '\'' :: _ => shortString? cs
  | _ =>
    let key := cs.takeWhile isBare
    if key.isEmpty then none else some (String.ofList key, cs.dropWhile isBare)

/-- Nothing is nested this deep. -/
def maxDepth : Nat :=
  80

def keyParts (fuel : Nat) (cs : List Char) : Option (List String × List Char) :=
  match fuel with
  | 0 => none
  | fuel + 1 => do
    let (key, rest) ← simpleKey? (skipSpace cs)
    match skipSpace rest with
    | '.' :: rest => do
      let (keys, rest) ← keyParts fuel rest
      return (key :: keys, rest)
    | rest => return ([key], rest)

def key? (cs : List Char) : Option (List String × List Char) := do
  let (keys, rest) ← keyParts (cs.length + 1) cs
  if keys.length < maxDepth then return (keys, rest) else none

end PolicyAnalysis.Toml
