import QueryForest.Number.Layout
import QueryForest.Query.Basic
import QueryForest.Text

namespace QueryForest

def FieldTerm.label (term : FieldTerm) : String :=
  term.field ++ ":" ++ term.text

def Occurrence.label : Occurrence → String
  | .must => "MUST"
  | .should => "SHOULD"
  | .mustNot => "MUST_NOT"

def Nearness.label : Nearness → String
  | .words distance => toString distance.toNat
  | .sentence => "sentence"
  | .paragraph => "paragraph"

namespace Query

open Text (line truthWord)

/-- A position of a phrase with what may stand there. -/
def positionLine (depth : Nat) (position : UInt32) (terms : List FieldTerm) :
    String :=
  line depth
    ("@" ++ toString position.toNat
      ++ if terms.isEmpty then ""
        else " " ++ String.intercalate " | " (terms.map FieldTerm.label))

mutual

/-- The outline of a query at a depth, its first line behind a label. -/
def outlineAt (depth : Nat) (label : String) : Query → String
  | .term wanted => line depth (label ++ "Term " ++ wanted.label)
  | .boolean clauses =>
      line depth (label ++ "Boolean") ++ outlineClauses (depth + 1) clauses
  | .phrase terms slop =>
      line depth (label ++ "Phrase slop=" ++ toString slop.toNat)
        ++ String.join
          (terms.map fun (wanted, position) =>
            positionLine (depth + 1) position [wanted])
  | .multiPhrase steps slop =>
      line depth (label ++ "MultiPhrase slop=" ++ toString slop.toNat)
        ++ String.join
          (steps.map fun step => positionLine (depth + 1) step.position step.terms)
  | .fuzzy wanted maxEdits exactStart =>
      line depth
        (label ++ "Fuzzy " ++ wanted.label ++ " edits=" ++ toString maxEdits.toNat
          ++ " prefix=" ++ toString exactStart.toNat)
  | .near clauses nearness inOrder =>
      line depth
        (label ++ "Near within=" ++ nearness.label ++ " in_order="
          ++ truthWord inOrder)
        ++ outlineAll (depth + 1) clauses
  | .boost query factor =>
      line depth (label ++ "Boost " ++ factor.text)
        ++ query.outlineAt (depth + 1) ""
  | .matchAll => line depth (label ++ "MatchAll")
  | .matchNone => line depth (label ++ "MatchNone")
termination_by structural query => query

def outlineClauses (depth : Nat) : List (Occurrence × Query) → String
  | [] => ""
  | head :: tail => outlineClause depth head ++ outlineClauses depth tail
termination_by structural clauses => clauses

def outlineClause (depth : Nat) : Occurrence × Query → String
  | (occurrence, query) => query.outlineAt depth (occurrence.label ++ " ")
termination_by structural clause => clause

def outlineAll (depth : Nat) : List Query → String
  | [] => ""
  | head :: tail => head.outlineAt depth "" ++ outlineAll depth tail
termination_by structural queries => queries

end

def outline (query : Query) : String :=
  query.outlineAt 0 ""

end Query

end QueryForest
