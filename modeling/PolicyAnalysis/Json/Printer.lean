import PolicyAnalysis.Json.Basic

/-!
# JSON text

Two layouts of a value: on one line without spaces, and indented by two spaces per depth with an empty
list or object kept on its line. Characters beyond ASCII are written as they are.
-/

namespace PolicyAnalysis.Json

/-- A quote, a backslash and the control characters are escaped, the latter in their short form if they
have one. -/
def escape (c : Char) : String :=
  match c with
  | '"' => "\\\""
  | '\\' => "\\\\"
  | '\n' => "\\n"
  | '\r' => "\\r"
  | '\t' => "\\t"
  | '\x08' => "\\b"
  | '\x0c' => "\\f"
  | c =>
    if c.toNat < 0x20 then
      let hex := Nat.toDigits 16 c.toNat
      "\\u" ++ String.ofList (List.replicate (4 - hex.length) '0' ++ hex)
    else c.toString

def quote (s : String) : String :=
  s.foldl (fun text c => text ++ escape c) "\"" ++ "\""

mutual

def compact : Json → String
  | null => "null"
  | bool b => if b then "true" else "false"
  | int n => toString n
  | real text => text
  | str s => quote s
  | arr items => "[" ++ ",".intercalate (compactItems items) ++ "]"
  | obj fields => "\x7b" ++ ",".intercalate (compactFields fields) ++ "\x7d"

def compactItems : List Json → List String
  | [] => []
  | item :: items => compact item :: compactItems items

def compactFields : List (String × Json) → List String
  | [] => []
  | (name, value) :: fields => (quote name ++ ":" ++ compact value) :: compactFields fields

end

def lineAt (depth : Nat) : String :=
  "\n" ++ String.ofList (List.replicate (2 * depth) ' ')

/-- Parts on lines of their own, one deeper than their brackets. -/
def block (depth : Nat) (opening closing : String) (parts : List String) : String :=
  if parts.isEmpty then opening ++ closing
  else
    opening ++ lineAt (depth + 1) ++ ("," ++ lineAt (depth + 1)).intercalate parts ++
      lineAt depth ++ closing

mutual

/-- The indented text of a value whose first line stands at a depth. -/
def indented (depth : Nat) : Json → String
  | arr items => block depth "[" "]" (indentedItems (depth + 1) items)
  | obj fields => block depth "\x7b" "\x7d" (indentedFields (depth + 1) fields)
  | null => compact null
  | bool b => compact (bool b)
  | int n => compact (int n)
  | real text => compact (real text)
  | str s => compact (str s)

def indentedItems (depth : Nat) : List Json → List String
  | [] => []
  | item :: items => indented depth item :: indentedItems depth items

def indentedFields (depth : Nat) : List (String × Json) → List String
  | [] => []
  | (name, value) :: fields =>
    (quote name ++ ": " ++ indented depth value) :: indentedFields depth fields

end

def pretty (j : Json) : String :=
  indented 0 j

end PolicyAnalysis.Json
