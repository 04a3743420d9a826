/-!
# TOML values

A document is a table. Real numbers and dates are kept as they are written.
-/

namespace PolicyAnalysis

inductive Toml where
  | str (s : String)
  | int (n : Int)
  | real (text : String)
  | bool (b : Bool)
  | date (text : String)
  | arr (items : List Toml)
  | table (entries : List (String × Toml))

/-- A reader returns what it has read and the rest. -/
abbrev Toml.Reader (α : Type) := List Char → Option (α × List Char)

namespace Toml

def isSpace (c : Char) : Bool :=
  c == ' ' || c == '\t'

def skipSpace (cs : List Char) : List Char :=
  cs.dropWhile isSpace

def isPlain (c : Char) : Bool :=
  c == '\t' || (0x20 ≤ c.toNat && c.toNat ≤ 0x7E) || 0x80 ≤ c.toNat

/-- The text after a line break, which is a line feed with or without a carriage return. -/
def newline? : List Char → Option (List Char)
  | '\n' :: rest => some rest
  | '\r' :: '\n' :: rest => some rest
  | _ => none

def skipComment : List Char → List Char
  | '#' :: rest => rest.dropWhile isPlain
  | cs => cs

/-- Ends a line: blanks, a comment, and a line break or the end of the text. -/
def endLine? (cs : List Char) : Option (List Char) :=
  match skipComment (skipSpace cs) with
  | [] => some []
  | rest => newline? rest

end Toml

end PolicyAnalysis
