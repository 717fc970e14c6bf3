namespace QueryForest

/-- The name of a kind of node. -/
structure Variant where
  name : String
  deriving DecidableEq, Repr

namespace Variant

def field : Variant := ⟨"field"⟩

def quotedField : Variant := ⟨"quoted_field"⟩

def fuzzy : Variant := ⟨"fuzzy"⟩

def matchAll : Variant := ⟨"match_all"⟩

def matchNone : Variant := ⟨"match_none"⟩

def boolean : Variant := ⟨"boolean"⟩

def conjunction : Variant := ⟨"and"⟩

def disjunction : Variant := ⟨"or"⟩

def group : Variant := ⟨"group"⟩

def modifier : Variant := ⟨"modifier"⟩

def boost : Variant := ⟨"boost"⟩

def slop : Variant := ⟨"slop"⟩

def tokenizedPhrase : Variant := ⟨"tokenized_phrase"⟩

def multiPhrase : Variant := ⟨"multi_phrase"⟩

def proximity : Variant := ⟨"proximity"⟩

end Variant

inductive Arity where
  | leaf
  | one
  | many
  deriving DecidableEq, Repr

end QueryForest
