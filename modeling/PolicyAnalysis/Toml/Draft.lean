import PolicyAnalysis.Toml.Basic

/-!
# Tables in the making

While a document is read, a table knows how it came up, for this decides what may still be added to it: a
table with a header of its own takes no dotted keys, one from a dotted key takes no header, and one that has
only been named on the way to another may get its header later.
-/

namespace PolicyAnalysis.Toml

/-- How a table came up. -/
inductive Origin where
  /-- By its header, or written out as a value. -/
  | written
  /-- On the way to the table of a header. -/
  | passed
  /-- On the way to the value of a dotted key. -/
  | dotted
deriving DecidableEq

inductive Node where
  | value (v : Toml)
  | table (origin : Origin) (entries : List (String × Node))
  /-- Tables with one header, the first first. -/
  | tables (items : List (List (String × Node)))

namespace Node

abbrev Entries := List (String × Node)

def replace (entries : Entries) (key : String) (node : Node) : Entries :=
  entries.map fun entry => if entry.1 = key then (key, node) else entry

def add? (entries : Entries) (key : String) (node : Node) : Option Entries :=
  if (entries.lookup key).isNone then some (entries ++ [(key, node)]) else none

/-- Gives the dotted key `path.key` a value in a table. The table that the path leads to must be the table
itself or come from a dotted key, which `open` says of the table reached so far. -/
def assign? (key : String) (v : Node) : List String → Bool → Entries → Option Entries
  | [], isOpen, entries => if isOpen then add? entries key v else none
  | step :: path, _, entries =>
    match entries.lookup step with
    | none => (assign? key v path true []).map fun child => entries ++ [(step, .table .dotted child)]
    | some (.table .written _) => none
    | some (.table origin child) =>
      (assign? key v path (origin = .dotted) child).map fun child =>
        replace entries step (.table origin child)
    | some (.tables items) =>
      match items.getLast? with
      | some child =>
        (assign? key v path false child).map fun child =>
          replace entries step (.tables (items.dropLast ++ [child]))
      | none => none
    | some (.value _) => none

/-- Changes the table that headers lead to: of several tables with one header, the last. -/
def descend? (change : Entries → Option Entries) : List String → Entries → Option Entries
  | [], entries => change entries
  | step :: path, entries =>
    match entries.lookup step with
    | none => (descend? change path []).map fun child => entries ++ [(step, .table .passed child)]
    | some (.table origin child) =>
      (descend? change path child).map fun child => replace entries step (.table origin child)
    | some (.tables items) =>
      match items.getLast? with
      | some child =>
        (descend? change path child).map fun child =>
          replace entries step (.tables (items.dropLast ++ [child]))
      | none => none
    | some (.value _) => none

def openTable? (key : String) (entries : Entries) : Option Entries :=
  match entries.lookup key with
  | none => some (entries ++ [(key, .table .written [])])
  | some (.table .passed child) => some (replace entries key (.table .written child))
  | some _ => none

/-- Opens a further table of a header that stands for several. -/
def openFurther? (key : String) (entries : Entries) : Option Entries :=
  match entries.lookup key with
  | none => some (entries ++ [(key, .tables [[]])])
  | some (.tables items) => some (replace entries key (.tables (items ++ [[]])))
  | some _ => none

mutual

def toToml : Node → Toml
  | value v => v
  | table _ entries => .table (tomlEntries entries)
  | tables items => .arr (tomlTables items)

def tomlEntries : List (String × Node) → List (String × Toml)
  | [] => []
  | (key, node) :: entries => (key, toToml node) :: tomlEntries entries

def tomlTables : List (List (String × Node)) → List Toml
  | [] => []
  | entries :: items => .table (tomlEntries entries) :: tomlTables items

end

end Node

end PolicyAnalysis.Toml
