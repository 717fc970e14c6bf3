import QueryForest.Forest.Branch
import QueryForest.Number.Layout
import QueryForest.Text

namespace QueryForest

/-- The name of an element and its attributes in order. -/
structure Element where
  name : String
  attributes : List (String × String) := []
  deriving DecidableEq, Repr

namespace Element

def optional (key : String) : Option String → List (String × String)
  | none => []
  | some value => [(key, value)]

/-- The attributes of a term; a position of one is not shown. -/
def ofTerm (name : String) (term : Term) : Element where
  name := name
  attributes :=
    [("start", toString term.start.toNat), ("end", toString term.stop.toNat)]
      ++ optional "field" term.field
      ++ [("text", term.text)]
      ++ if term.position = 1 then [] else [("pos", toString term.position.toNat)]

def ofLeaf : Leaf Similarity → Element
  | .field term => ofTerm "field" term
  | .quotedField term => ofTerm "quotedfield" term
  | .fuzzy term similarity _ =>
      { name := "fuzzy"
        attributes :=
          optional "field" term.field
            ++ [("similarity", similarity.value.text), ("term", term.text)] }
  | .matchAll =>
      { name := "matchalldocs", attributes := [("field", "*"), ("term", "*")] }
  | .matchNone => { name := "matchnodocs" }

def ofWrapper : Wrapper → Element
  | .group => { name := "group" }
  | .modifier modifier =>
      { name := "modifier", attributes := [("operation", modifier.capitals)] }
  | .boost factor => { name := "boost", attributes := [("value", factor.text)] }
  | .slop slop =>
      { name := "slop", attributes := [("value", toString slop.toNat)] }

def ofComposite : Composite Proximity → Element
  | .junction operator =>
      { name := "boolean", attributes := [("operation", operator.label)] }
  | .tokenizedPhrase => { name := "tokenizedphrase" }
  | .multiPhrase => { name := "multiphrase" }
  | .proximity near =>
      { name := "proximity"
        attributes :=
          optional "field" near.field
            ++ [("inorder", Text.truthWord near.inOrder),
              ("type", near.reach.unit.capitals)]
            ++ optional "distance"
              (near.reach.distance?.map fun words => toString words.toNat) }

def ofKind : Kind → Element
  | .leaf bottom => ofLeaf bottom
  | .wrapper around => ofWrapper around
  | .composite above => ofComposite above
  | .extension custom =>
      { name := custom.element, attributes := custom.attributes }

def attributeText (element : Element) : String :=
  String.join
    (element.attributes.map fun (key, value) => " " ++ key ++ "='" ++ value ++ "'")

end Element

namespace Branch

/-- The tag that opens the element of a node, without its end, behind the name
of the node if names are shown. -/
def openingTag (showNames : Bool) (id : NodeId) (element : Element) : String :=
  (if showNames then nodeName id ++ " " else "")
    ++ "<" ++ element.name ++ element.attributeText

mutual

def outlineAt (showNames : Bool) (depth : Nat) : Branch → String
  | .node id kind _ children =>
      let element := Element.ofKind kind
      let opening := openingTag showNames id element
      match children with
      | [] => Text.line depth (opening ++ "/>")
      | _ :: _ =>
          Text.line depth (opening ++ ">")
            ++ outlineAll showNames (depth + 1) children
            ++ Text.line depth ("</" ++ element.name ++ ">")
termination_by structural branch => branch

def outlineAll (showNames : Bool) (depth : Nat) : List Branch → String
  | [] => ""
  | head :: tail =>
      head.outlineAt showNames depth ++ outlineAll showNames depth tail
termination_by structural branches => branches

end

def outline (branch : Branch) (showNames : Bool := false) : String :=
  branch.outlineAt showNames 0

end Branch

end QueryForest
