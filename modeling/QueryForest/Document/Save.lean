import QueryForest.Document.Basic
import QueryForest.Forest.Branch
import QueryForest.Node.Error

namespace QueryForest

open Number (Single)

/-- A leaf with its similarity as a plain number. -/
def Leaf.release : Leaf Similarity → Leaf Single
  | .field term => .field term
  | .quotedField term => .quotedField term
  | .fuzzy term similarity exactStart => .fuzzy term similarity.value exactStart
  | .matchAll => .matchAll
  | .matchNone => .matchNone

/-- The distance that is written down for a reach. -/
def Reach.savedDistance (reach : Reach) : Int32 :=
  match reach.distance? with
  | some distance => distance.toInt32
  | none => Document.noDistance

def Proximity.release (near : Proximity) : ProximityRecord where
  field := near.field
  unit := near.reach.unit
  distance := near.reach.savedDistance
  inOrder := near.inOrder

def Composite.release : Composite Proximity → Composite ProximityRecord
  | .junction operator => .junction operator
  | .tokenizedPhrase => .tokenizedPhrase
  | .multiPhrase => .multiPhrase
  | .proximity near => .proximity near.release

namespace Branch

mutual

def save : Branch → Except NodeError Document
  | .node _ kind _ children =>
      match kind with
      | .leaf bottom => .ok (.leaf bottom.release)
      | .wrapper around => return .wrapper around (← saveFirst children)
      | .composite above => return .composite above.release (← saveAll children)
      | .extension custom => .error (.actionNotSupported custom.variant .save)
termination_by structural branch => branch

/-- The document of the first of several branches. -/
def saveFirst : List Branch → Except NodeError (Option Document)
  | [] => .ok none
  | head :: _ => return some (← head.save)
termination_by structural branches => branches

def saveAll : List Branch → Except NodeError (List Document)
  | [] => .ok []
  | head :: tail => return (← head.save) :: (← saveAll tail)
termination_by structural branches => branches

end

end Branch

end QueryForest
