import PolicyAnalysis.Difference.Labels
import PolicyAnalysis.Difference.Symbols
import PolicyAnalysis.Json.Printer

/-!
# Comparing two policies

A comparison lists what differs between two policies in their properties and, aspect by aspect, in what they
declare and rule.
-/

namespace PolicyAnalysis

/-- A property of the whole policy that differs, with its texts on both sides. -/
structure PropertyChange where
  property : String
  change : ValueChange String
deriving DecidableEq

instance : ToJson PropertyChange where
  toJson c := .obj [
    ("property", toJson c.property),
    ("added", toJson c.change.added),
    ("removed", toJson c.change.removed)]

def Properties.texts (p : Properties) : List (String × String) :=
  [("handle_unknown", Named.name p.unknownUse), ("MLS", toString p.multiLevel),
    ("version", toString p.version)]

def Properties.changes (left right : Properties) : List PropertyChange :=
  (left.texts.zip right.texts).filterMap fun (l, r) =>
    (ValueChange.between? l.2 r.2).map (PropertyChange.mk l.1)

/-- All aspects, in the order in which they are reported. -/
def Aspect.all : List Aspect :=
  ofSymbols ++ ofRules ++ ofLabels

structure AspectDifference where
  aspect : Aspect
  difference : Difference aspect.Item aspect.Change

namespace AspectDifference

def size (d : AspectDifference) : DifferenceSize :=
  d.difference.size

def isEmpty (d : AspectDifference) : Bool :=
  d.difference.isEmpty

def form (d : AspectDifference) : Json :=
  .obj [
    ("added", toJson d.difference.added),
    ("removed", toJson d.difference.removed),
    ("modified", .arr (d.difference.modified.map fun m => .obj (d.aspect.changeForm m.item m.change)))]

end AspectDifference

structure Comparison where
  properties : List PropertyChange
  aspects : List AspectDifference

namespace Comparison

def between (left right : Policy) : Except Error Comparison :=
  let aspects := Aspect.all.mapM fun a =>
    (a.difference left right).map fun d => AspectDifference.mk a d
  (aspects.map fun found => Comparison.mk (left.properties.changes right.properties) found).mapError .policy

def sizes (c : Comparison) : List (String × DifferenceSize) :=
  c.aspects.map fun d => (d.aspect.name, d.size)

def isEmpty (c : Comparison) : Bool :=
  c.properties.isEmpty && c.aspects.all AspectDifference.isEmpty

/-- The JSON form of the comparison: the properties, then all aspects in their order. -/
def form (c : Comparison) : Json :=
  .obj (("properties", toJson c.properties) :: c.aspects.map fun d => (d.aspect.name, d.form))

def report (c : Comparison) : String :=
  c.form.pretty

end Comparison

end PolicyAnalysis
