import QueryForest.Number.Single

namespace QueryForest

open Number (Single)

structure FieldTerm where
  field : String
  text : String
  deriving DecidableEq, Repr

/-- What a clause contributes to a boolean query. -/
inductive Occurrence where
  | must
  | should
  | mustNot
  deriving DecidableEq, Repr

/-- The alternatives at one position of a phrase. -/
structure PhraseStep where
  position : UInt32
  terms : List FieldTerm
  deriving DecidableEq, Repr

inductive Nearness where
  | words (distance : UInt32)
  | sentence
  | paragraph
  deriving DecidableEq, Repr

inductive Query where
  | term (term : FieldTerm)
  | boolean (clauses : List (Occurrence × Query))
  | phrase (terms : List (FieldTerm × UInt32)) (slop : UInt32)
  | multiPhrase (steps : List PhraseStep) (slop : UInt32)
  | fuzzy (term : FieldTerm) (maxEdits exactStart : UInt32)
  | near (clauses : List Query) (nearness : Nearness) (inOrder : Bool)
  | boost (query : Query) (factor : Single)
  | matchAll
  | matchNone
  deriving Inhabited

def Query.kindName : Query → String
  | .term _ => "term"
  | .boolean _ => "boolean"
  | .phrase _ _ => "phrase"
  | .multiPhrase _ _ => "multi-phrase"
  | .fuzzy _ _ _ => "fuzzy"
  | .near _ _ _ => "near"
  | .boost _ _ => "boost"
  | .matchAll => "match-all"
  | .matchNone => "match-none"

end QueryForest
