import QueryForest.Number.Single

namespace QueryForest

/-- A text to search for and where it stood in the query. -/
structure Term where
  /-- No field means the default field, whichever that is. -/
  field : Option String := none
  text : String
  start : UInt64 := 0
  stop : UInt64 := 0
  /-- Inside a phrase, the position of the term. -/
  position : UInt32 := 1
  /-- An enclosing node writes the field once for all its terms. -/
  ignoreField : Bool := false
  deriving DecidableEq, Repr

/-- The field name that is written like no field at all. -/
def plainField : String := "_plain"

open Number (Single)

namespace Number.Single

/-- A number that can serve as a similarity: a proportion below one, or a
whole number from one on. -/
def isSimilarity (single : Single) : Bool :=
  single.isProportion || (single.isNonNegative && single.isWhole)

end Number.Single

/-- How similar a match of a fuzzy leaf has to be. -/
structure Similarity where
  value : Single
  accepted : value.isSimilarity = true
  deriving DecidableEq

def Similarity.ofSingle? (value : Single) : Option Similarity :=
  if accepted : value.isSimilarity = true then some ⟨value, accepted⟩ else none

end QueryForest
