namespace QueryForest

inductive ProximityUnit where
  | paragraph
  | sentence
  | number
  deriving DecidableEq, Repr

namespace ProximityUnit

def all : List ProximityUnit :=
  [.paragraph, .sentence, .number]

def name : ProximityUnit → String
  | .paragraph => "paragraph"
  | .sentence => "sentence"
  | .number => "number"

def capitals : ProximityUnit → String
  | .paragraph => "PARAGRAPH"
  | .sentence => "SENTENCE"
  | .number => "NUMBER"

/-- The words that open the nearness of a group in the query syntax. -/
def keyword : ProximityUnit → String
  | .paragraph => "WITHIN PARAGRAPH"
  | .sentence => "WITHIN SENTENCE"
  | .number => "WITHIN"

end ProximityUnit

/-- A positive number of words below `2 ^ 31`. -/
structure Distance where
  value : UInt32
  positive : 0 < value.toNat
  bounded : value.toNat < 0x80000000
  deriving DecidableEq

def Distance.ofInt32? (value : Int32) : Option Distance :=
  let words := UInt32.ofNat value.toInt.toNat
  if inRange : 0 < words.toNat ∧ words.toNat < 0x80000000 then
    some ⟨words, inRange.1, inRange.2⟩
  else
    none

/-- How near the clauses of a proximity node have to match. -/
inductive Reach where
  | paragraph
  | sentence
  | words (distance : Distance)
  deriving DecidableEq

namespace Reach

def unit : Reach → ProximityUnit
  | .paragraph => .paragraph
  | .sentence => .sentence
  | .words _ => .number

/-- Only a number of words is a distance. -/
def distance? : Reach → Option UInt32
  | .words distance => some distance.value
  | .paragraph | .sentence => none

end Reach

/-- The nearness that a node asks of its clauses, and the field that it writes
for all of them. -/
structure Proximity where
  field : Option String := none
  reach : Reach
  inOrder : Bool
  deriving DecidableEq

end QueryForest
