import QueryForest.Forest.Branch
import QueryForest.Node.Grouping
import QueryForest.Number.Layout

/-!
# Query syntax

A branch is written in the syntax that users type.  Field names and words go
through an escaper.  A field that is absent, plain or the default field is not
written.  Junctions stand in parentheses unless they are at the top or directly
inside a group, which has parentheses of its own.
-/

namespace QueryForest

/-- How query syntax is written: the escaping, and the field that needs no
mention. -/
structure QueryStyle where
  escaper : Escaper
  defaultField : Option String := none

namespace QueryStyle

/-- Whether a field is written, and how. -/
def writtenField (style : QueryStyle) : Option String → Option String
  | none => none
  | some field =>
      if field = plainField || style.defaultField = some field then none
      else some (style.escaper.escape field)

def inField (style : QueryStyle) (field : Option String) (body : String) :
    String :=
  match style.writtenField field with
  | none => body
  | some written => written ++ ":" ++ body

def quoted (style : QueryStyle) (text : String) : String :=
  "\"" ++ style.escaper.escapeQuoted text ++ "\""

/-- A body in the field of a term, unless the field is written elsewhere. -/
def inFieldOf (style : QueryStyle) (term : Term) (body : String) : String :=
  if term.ignoreField then body else style.inField term.field body

def word (style : QueryStyle) (term : Term) : String :=
  style.inFieldOf term (style.escaper.escape term.text)

def leaf (style : QueryStyle) : Leaf Similarity → String
  | .field term => style.word term
  | .quotedField term => style.inFieldOf term (style.quoted term.text)
  | .fuzzy term similarity _ => style.word term ++ "~" ++ similarity.value.text
  | .matchAll => "*:*"
  | .matchNone => ""

/-- A phrase in the field of its first term; without terms it is empty. -/
def inFieldOfFirst (style : QueryStyle) (terms : List Term) (body : String) :
    String :=
  match terms with
  | [] => ""
  | first :: _ => style.inFieldOf first body

def tokenizedPhrase (style : QueryStyle) (terms : List Term) : String :=
  style.inFieldOfFirst terms
    (style.quoted (String.intercalate " " (terms.map Term.text)))

def alternatives (style : QueryStyle) (texts : List String) : String :=
  String.intercalate "|" (texts.map style.escaper.escape)

/-- The slots of a phrase from a position on: one for each position with terms,
and one question mark for each position without.  The position behind a group is a number
without a bound here; in a word of 32 bits it overflows behind position 4294967295, which
is not followed. -/
def slotsFrom (style : QueryStyle) (next : Nat) :
    List (UInt32 × List String) → List String
  | [] => []
  | (position, texts) :: tail =>
      List.replicate (position.toNat - next) "?"
        ++ style.alternatives texts :: style.slotsFrom (position.toNat + 1) tail

/-- The slots of a phrase.  Positions count from one; terms at position zero
come before the first slot. -/
def slots (style : QueryStyle) (groups : List (UInt32 × List String)) :
    List String :=
  style.slotsFrom 1 groups

def multiPhrase (style : QueryStyle) (terms : List Term) : String :=
  let groups :=
    groupByPosition (terms.map fun term => (term.position, term.text))
  style.inFieldOfFirst terms
    ("\x7b" ++ String.intercalate " " (style.slots groups) ++ "\x7d")

/-- Clauses that are not empty, joined by an operator. -/
def junction (operator : Operator) (enclosing : Option Kind)
    (clauses : List String) : String :=
  let present := clauses.filter fun clause => !clause.isEmpty
  let joined := String.intercalate operator.separator present
  if present.isEmpty then
    ""
  else if enclosing.all Kind.isGroup then
    joined
  else
    "( " ++ joined ++ " )"

def proximity (style : QueryStyle) (near : Proximity) (clauses : List String) :
    String :=
  let distance :=
    match near.reach.distance? with
    | none => ""
    | some distance => " " ++ toString distance.toNat
  let group :=
    "( " ++ String.intercalate " " clauses ++ " ) " ++ near.reach.unit.keyword
      ++ distance ++ if near.inOrder then " INORDER" else ""
  match style.writtenField near.field with
  | none => group
  | some written => written ++ ":(" ++ group ++ ")"

def composite (style : QueryStyle) (enclosing : Option Kind) (terms : List Term)
    (clauses : List String) : Composite Proximity → String
  | .junction operator => junction operator enclosing clauses
  | .tokenizedPhrase => style.tokenizedPhrase terms
  | .multiPhrase => style.multiPhrase terms
  | .proximity near => style.proximity near clauses

/-- A modifier before a clause: a junction is set off by a word, a second
modifier by parentheses. -/
def modified (modifier : Modifier) (child : Kind) (clause : String) : String :=
  if child.isJunction then
    modifier.keyword ++ clause
  else if child.isModifier then
    modifier.sign ++ "(" ++ clause ++ ")"
  else
    modifier.sign ++ clause

def wrapper (child : Kind) (clause : String) : Wrapper → String
  | .group => "( " ++ clause ++ " )"
  | .modifier modifier => modified modifier child clause
  | .boost factor => clause ++ "^" ++ factor.text
  | .slop slop => clause ++ "~" ++ toString slop.toNat

end QueryStyle

namespace Branch

def terms (branches : List Branch) : List Term :=
  branches.filterMap term?

mutual

def write (style : QueryStyle) : Branch → String
  | .node _ kind enclosing children =>
      let clauses := writeAll style children
      match kind with
      | .leaf bottom => style.leaf bottom
      | .wrapper around =>
          match children, clauses with
          | child :: _, clause :: _ => QueryStyle.wrapper child.kind clause around
          | _, _ => ""
      | .composite above => style.composite enclosing (terms children) clauses above
      | .extension custom => custom.write clauses style.escaper
termination_by structural branch => branch

def writeAll (style : QueryStyle) : List Branch → List String
  | [] => []
  | head :: tail => head.write style :: writeAll style tail
termination_by structural branches => branches

end

theorem writeAll_eq_map (style : QueryStyle) (branches : List Branch) :
    writeAll style branches = branches.map (write style) := by
  induction branches with
  | nil => rfl
  | cons head tail inductionHypothesis => rw [writeAll, inductionHypothesis, List.map_cons]

/-- A branch in query syntax with the standard escaping and no default
field. -/
def standardText (branch : Branch) : String :=
  branch.write { escaper := .standard }

end Branch

end QueryForest
