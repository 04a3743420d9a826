import PolicyAnalysis.Toml.Quoted

/-!
# Writing TOML

The values of a table come first, each on its line, and then the tables in it, each under its header and after
an empty line. A table that holds nothing but tables has no header.
-/

namespace PolicyAnalysis.Toml

mutual

def inlineText : Toml → String
  | str s => quote s
  | int n => toString n
  | real text => text
  | bool b => if b then "true" else "false"
  | date text => text
  | arr items => "[" ++ ", ".intercalate (inlineItems items) ++ "]"
  | table entries => "\x7b " ++ ", ".intercalate (inlineEntries entries) ++ " \x7d"

def inlineItems : List Toml → List String
  | [] => []
  | item :: items => inlineText item :: inlineItems items

def inlineEntries : List (String × Toml) → List String
  | [] => []
  | (key, v) :: entries =>
    (String.ofList (keyChars key.toList) ++ " = " ++ inlineText v) :: inlineEntries entries

end

def isTable : Toml → Bool
  | table _ => true
  | _ => false

def headerText (path : List String) : String :=
  "[" ++ ".".intercalate (path.map fun key => String.ofList (keyChars key.toList)) ++ "]\n"

/-- The header and the lines of a table, without the tables in it. -/
def section? (path : List String) (entries : List (String × Toml)) : Option String :=
  let values := entries.filter fun entry => !entry.2.isTable
  if values.isEmpty ∧ (path.isEmpty ∨ ¬ entries.isEmpty) then none
  else
    let header := if path.isEmpty then "" else headerText path
    some (header ++ String.join ((inlineEntries values).map (· ++ "\n")))

mutual

def sections (path : List String) : Toml → List String
  | table entries => (section? path entries).toList ++ innerSections path entries
  | _ => []

def innerSections (path : List String) : List (String × Toml) → List String
  | [] => []
  | (key, v) :: entries => sections (path ++ [key]) v ++ innerSections path entries

end

def print (entries : List (String × Toml)) : String :=
  "\n".intercalate (sections [] (.table entries))

end PolicyAnalysis.Toml
