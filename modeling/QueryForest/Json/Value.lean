import QueryForest.Number.Numeral

namespace QueryForest

inductive Json where
  | null
  | bool (value : Bool)
  | number (numeral : Number.Numeral)
  | string (text : String)
  | array (items : List Json)
  | object (members : List (String × Json))
  deriving Inhabited

namespace Json

mutual

/-- How many containers the deepest part of a value stands in, itself
included. -/
def nesting : Json → Nat
  | .array items => nestingOfItems items + 1
  | .object members => nestingOfMembers members + 1
  | .null | .bool _ | .number _ | .string _ => 0
termination_by structural value => value

def nestingOfItems : List Json → Nat
  | [] => 0
  | head :: tail => max head.nesting (nestingOfItems tail)
termination_by structural items => items

def nestingOfMembers : List (String × Json) → Nat
  | [] => 0
  | head :: tail => max (nestingOfMember head) (nestingOfMembers tail)
termination_by structural members => members

def nestingOfMember : String × Json → Nat
  | (_, value) => value.nesting
termination_by structural member => member

end

end Json

end QueryForest
