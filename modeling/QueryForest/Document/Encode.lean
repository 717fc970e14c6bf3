import QueryForest.Document.Basic
import QueryForest.Json.Writer
import QueryForest.Number.Layout

/-!
# Writing documents

A node is written as an object that begins with its variant; its other fields
follow in the order in which they are declared.  Only a field that is absent,
a flag that is false and a child that is missing are left out.
-/

namespace QueryForest.Document

open Number (Single)

/-- A number in the layout of data; one that is not finite is written as
null. -/
def ofSingle (single : Single) : Json :=
  if single.isFinite then .number (single.numeral .data) else .null

def ofInt (value : Int) : Json :=
  .number (.ofInt value)

/-- A member, unless its value is absent. -/
def ofOption (key : String) : Option Json → List (String × Json)
  | none => []
  | some value => [(key, value)]

def ofTerm (term : Term) : List (String × Json) :=
  ofOption "field" (term.field.map .string)
    ++ [("text", .string term.text), ("begin", ofInt term.start.toNat),
      ("end", ofInt term.stop.toNat),
      ("position_increment", ofInt term.position.toNat)]
    ++ if term.ignoreField then [("ignore_field", .bool true)] else []

def ofLeaf : Leaf Single → List (String × Json)
  | .field term | .quotedField term => ofTerm term
  | .fuzzy term similarity exactStart =>
      [("term", .object (ofTerm term)), ("similarity", ofSingle similarity),
        ("prefix_length", ofInt exactStart.toNat)]
  | .matchAll | .matchNone => []

def ofWrapper : Wrapper → List (String × Json)
  | .group => []
  | .modifier modifier => [("modifier", .string modifier.name)]
  | .boost factor => [("value", ofSingle factor)]
  | .slop slop => [("value", ofInt slop.toNat)]

def ofComposite : Composite ProximityRecord → List (String × Json)
  | .junction _ | .tokenizedPhrase | .multiPhrase => []
  | .proximity near =>
      ofOption "field" (near.field.map .string)
        ++ [("proximity_type", .string near.unit.name),
          ("distance", ofInt near.distance.toInt), ("in_order", .bool near.inOrder)]

/-- An object that begins with a variant. -/
def tagged (variant : Variant) (members : List (String × Json)) : Json :=
  .object (("type", .string variant.name) :: members)

mutual

def encode : Document → Json
  | .leaf bottom => tagged bottom.variant (ofLeaf bottom)
  | .wrapper around child =>
      tagged around.variant
        (ofWrapper around ++ ofOption "child" (encodeChild child))
  | .composite above children =>
      tagged above.variant
        (ofComposite above ++ [("children", .array (encodeChildren children))])
termination_by structural document => document

def encodeChild : Option Document → Option Json
  | none => none
  | some child => some child.encode
termination_by structural child => child

def encodeChildren : List Document → List Json
  | [] => []
  | head :: tail => head.encode :: encodeChildren tail
termination_by structural children => children

end

def compact (document : Document) : String :=
  document.encode.compact

def pretty (document : Document) : String :=
  document.encode.pretty

end QueryForest.Document
