import QueryForest.Node.Kind

namespace QueryForest

open Number (Single)

/-- The nearness of a proximity node as it is written down. -/
structure ProximityRecord where
  field : Option String
  unit : ProximityUnit
  distance : Int32
  inOrder : Bool
  deriving DecidableEq, Repr

inductive Document where
  | leaf (leaf : Leaf Single)
  | wrapper (wrapper : Wrapper) (child : Option Document)
  | composite (composite : Composite ProximityRecord) (children : List Document)

namespace Document

/-- The distance that stands for none. -/
def noDistance : Int32 := -1

def variant : Document → Variant
  | .leaf bottom => bottom.variant
  | .wrapper around _ => around.variant
  | .composite above _ => above.variant

/-- The variants that a document can name, in the order in which messages list
them. -/
def variants : List Variant :=
  [.field, .quotedField, .fuzzy, .matchAll, .matchNone, .boolean, .conjunction,
    .disjunction, .group, .modifier, .boost, .slop, .tokenizedPhrase,
    .multiPhrase, .proximity]

end Document

end QueryForest
