import PolicyAnalysis.Toml.Draft
import PolicyAnalysis.Toml.Number
import PolicyAnalysis.Toml.Quoted

/-!
# Reading TOML

A document is a list of lines. A header line opens a table, and the lines with keys that follow fill it.
-/

namespace PolicyAnalysis.Toml

/-- Blanks, line breaks and comments between the items of a list are dropped. -/
def skipFiller (fuel : Nat) (cs : List Char) : List Char :=
  match fuel with
  | 0 => cs
  | fuel + 1 =>
    match cs with
    | '#' :: _ => skipFiller fuel (skipComment cs)
    | ' ' :: rest | '\t' :: rest | '\n' :: rest => skipFiller fuel rest
    | '\r' :: '\n' :: rest => skipFiller fuel rest
    | _ => cs

def skipAllFiller (cs : List Char) : List Char :=
  skipFiller cs.length cs

def literal? (word : String) (v : Toml) (cs : List Char) : Option (Toml × List Char) :=
  if word.toList.isPrefixOf cs then some (v, cs.drop word.length) else none

mutual

/-- Reads a value that stands inside `depth` lists and tables. -/
def value? (fuel depth : Nat) (cs : List Char) : Option (Toml × List Char) :=
  match fuel with
  | 0 => none
  | fuel + 1 =>
    match cs with
    | '"' :: _ | '\'' :: _ => (string? cs).map fun (s, rest) => (.str s, rest)
    | '[' :: rest => if depth + 1 < maxDepth then items? fuel (depth + 1) [] rest else none
    | '\x7b' :: rest =>
      if depth + 1 < maxDepth then
        match skipSpace rest with
        | '\x7d' :: rest => some (.table [], rest)
        | rest => pairs? fuel (depth + 1) [] rest
      else none
    | 't' :: _ => literal? "true" (.bool true) cs
    | 'f' :: _ => literal? "false" (.bool false) cs
    | _ => number? cs

/-- The items of a list up to its bracket; `read` holds those before, last item first. -/
def items? (fuel depth : Nat) (read : List Toml) (cs : List Char) : Option (Toml × List Char) :=
  match fuel with
  | 0 => none
  | fuel + 1 =>
    match skipAllFiller cs with
    | ']' :: rest => some (.arr read.reverse, rest)
    | cs => do
      let (v, rest) ← value? fuel depth cs
      match skipAllFiller rest with
      | ',' :: rest => items? fuel depth (v :: read) rest
      | ']' :: rest => return (.arr (v :: read).reverse, rest)
      | _ => none

def pairs? (fuel depth : Nat) (read : Node.Entries) (cs : List Char) : Option (Toml × List Char) :=
  match fuel with
  | 0 => none
  | fuel + 1 => do
    let (keys, rest) ← key? cs
    let (v, rest) ← value? fuel depth (skipSpace (← skip? '=' rest))
    let read ← Node.assign? (← keys.getLast?) (.value v) keys.dropLast true read
    match skipSpace rest with
    | ',' :: rest => pairs? fuel depth read rest
    | '\x7d' :: rest => return (.table (Node.tomlEntries read), rest)
    | _ => none

end

structure Draft where
  entries : Node.Entries
  /-- The header of the table that is being filled. -/
  header : List String

namespace Draft

def empty : Draft :=
  ⟨[], []⟩

/-- Opens the table of a header, one of several if the header says so. -/
def openHeader? (d : Draft) (further : Bool) (keys : List String) : Option Draft := do
  let key ← keys.getLast?
  let change := if further then Node.openFurther? key else Node.openTable? key
  return ⟨← Node.descend? change keys.dropLast d.entries, keys⟩

def assign? (d : Draft) (keys : List String) (v : Toml) : Option Draft := do
  let key ← keys.getLast?
  let entries ← Node.descend? (Node.assign? key (.value v) keys.dropLast true) d.header d.entries
  return { d with entries }

end Draft

def headerLine? (d : Draft) (cs : List Char) : Option (Draft × List Char) :=
  match cs with
  | '[' :: '[' :: rest => do
    let (keys, rest) ← key? rest
    let rest ← skip? ']' (← skip? ']' rest)
    return (← d.openHeader? true keys, ← endLine? rest)
  | '[' :: rest => do
    let (keys, rest) ← key? rest
    let rest ← skip? ']' rest
    return (← d.openHeader? false keys, ← endLine? rest)
  | _ => none

def pairLine? (d : Draft) (cs : List Char) : Option (Draft × List Char) := do
  let (keys, rest) ← key? cs
  let rest := skipSpace (← skip? '=' rest)
  let (v, rest) ← value? (2 * rest.length + 2) 0 rest
  let rest ← endLine? rest
  return (← d.assign? keys v, rest)

/-- The lines of a document. Each takes a character, so the text's length bounds their number. -/
def lines? (fuel : Nat) (d : Draft) (cs : List Char) : Option Draft :=
  match fuel, skipSpace cs with
  | _, [] => some d
  | 0, _ => none
  | fuel + 1, '#' :: rest => do lines? fuel d (← endLine? ('#' :: rest))
  | fuel + 1, '[' :: rest => do
    let (d, rest) ← headerLine? d ('[' :: rest)
    lines? fuel d rest
  | fuel + 1, c :: rest =>
    if c = '\n' ∨ c = '\r' then do lines? fuel d (← newline? (c :: rest))
    else do
      let (d, rest) ← pairLine? d (c :: rest)
      lines? fuel d rest

/-- The table that a text holds. A byte order mark at its start does not count. -/
def parse? (text : String) : Option (List (String × Toml)) :=
  let cs := match text.toList with
    | '\uFEFF' :: cs => cs
    | cs => cs
  (lines? cs.length .empty cs).map fun d => Node.tomlEntries d.entries

end PolicyAnalysis.Toml
