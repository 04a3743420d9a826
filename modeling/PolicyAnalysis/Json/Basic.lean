/-!
# JSON values

A whole number keeps its value; a number written with a fraction or an exponent keeps only its text,
since no record of this library holds one.
-/

namespace PolicyAnalysis

inductive Json where
  | null
  | bool (b : Bool)
  /-- A number written as an integer that fits 64 bits, signed or unsigned. -/
  | int (n : Int)
  /-- Any other number, by its text. -/
  | real (text : String)
  | str (s : String)
  | arr (items : List Json)
  | obj (fields : List (String × Json))

namespace Json

/-- The value of the first field of that name. -/
def field? (name : String) : Json → Option Json
  | obj fields => fields.lookup name
  | _ => none

def isWhole (n : Int) : Bool :=
  -0x8000000000000000 ≤ n && n < 0x10000000000000000

/-- Gives a field its value; a field of that name that was there before is dropped. -/
def setField (fields : List (String × Json)) (name : String) (value : Json) :
    List (String × Json) :=
  fields.filter (·.1 != name) ++ [(name, value)]

end Json

end PolicyAnalysis
