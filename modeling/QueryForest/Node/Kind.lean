import QueryForest.Node.Proximity
import QueryForest.Node.Term
import QueryForest.Node.Variant
import QueryForest.Text

/-!
# Kinds of nodes

The kinds are grouped by how many children they take: leaves none, wrappers at
most one, composites any number.  Leaves and composites are shared by checked
trees and by documents that are not checked yet; the two differ in the type of
a similarity and of a proximity.
-/

namespace QueryForest

open Number (Single)

inductive Leaf (Similar : Type) where
  | field (term : Term)
  | quotedField (term : Term)
  | fuzzy (term : Term) (similarity : Similar) (exactStart : UInt32)
  | matchAll
  | matchNone

/-- What a modifier asks of the clause below it. -/
inductive Modifier where
  | neutral
  | negated
  | required
  deriving DecidableEq, Repr

/-- A node around at most one other. -/
inductive Wrapper where
  | group
  | modifier (modifier : Modifier)
  | boost (factor : Single)
  | slop (slop : UInt32)
  deriving DecidableEq, Repr

inductive Operator where
  | implicit
  | conjunction
  | disjunction
  deriving DecidableEq, Repr

/-- A node over any number of others. -/
inductive Composite (Near : Type) where
  | junction (operator : Operator)
  | tokenizedPhrase
  | multiPhrase
  | proximity (proximity : Near)

/-- A kind of node that a user of the library defines. -/
structure Extension where
  variant : Variant
  /-- The variants that it can be treated as, nearest first. -/
  fallbacks : List Variant := []
  arity : Arity
  /-- Its element and attributes in outlines. -/
  element : String
  attributes : List (String × String) := []
  /-- Its form in the query syntax, given that of its children. -/
  write : List String → Escaper → String

/-- What a node is, apart from its place in a tree. -/
inductive Kind where
  | leaf (leaf : Leaf Similarity)
  | wrapper (wrapper : Wrapper)
  | composite (composite : Composite Proximity)
  | extension (extension : Extension)

namespace Leaf

variable {Similar : Type}

def term? : Leaf Similar → Option Term
  | .field term | .quotedField term | .fuzzy term _ _ => some term
  | .matchAll | .matchNone => none

def mapTerm (change : Term → Term) : Leaf Similar → Leaf Similar
  | .field term => .field (change term)
  | .quotedField term => .quotedField (change term)
  | .fuzzy term similarity exactStart => .fuzzy (change term) similarity exactStart
  | .matchAll => .matchAll
  | .matchNone => .matchNone

def variant : Leaf Similar → Variant
  | .field _ => .field
  | .quotedField _ => .quotedField
  | .fuzzy _ _ _ => .fuzzy
  | .matchAll => .matchAll
  | .matchNone => .matchNone

/-- Quoted and fuzzy leaves can be treated as terms. -/
def fallbacks : Leaf Similar → List Variant
  | .quotedField _ | .fuzzy _ _ _ => [.field]
  | .field _ | .matchAll | .matchNone => []

end Leaf

namespace Modifier

def all : List Modifier :=
  [.neutral, .negated, .required]

def name : Modifier → String
  | .neutral => "none"
  | .negated => "not"
  | .required => "req"

def capitals : Modifier → String
  | .neutral => "MOD_NONE"
  | .negated => "MOD_NOT"
  | .required => "MOD_REQ"

/-- The sign before a single term or a nested expression. -/
def sign : Modifier → String
  | .neutral => ""
  | .negated => "-"
  | .required => "+"

/-- The sign or word before a junction in parentheses. -/
def keyword : Modifier → String
  | .neutral => ""
  | .negated => "NOT "
  | .required => "+"

end Modifier

def Wrapper.variant : Wrapper → Variant
  | .group => .group
  | .modifier _ => .modifier
  | .boost _ => .boost
  | .slop _ => .slop

namespace Operator

def variant : Operator → Variant
  | .implicit => .boolean
  | .conjunction => .conjunction
  | .disjunction => .disjunction

/-- What stands between two clauses in the query syntax. -/
def separator : Operator → String
  | .implicit => " "
  | .conjunction => " AND "
  | .disjunction => " OR "

def label : Operator → String
  | .implicit => "default"
  | .conjunction => "and"
  | .disjunction => "or"

end Operator

namespace Composite

variable {Near : Type}

def variant : Composite Near → Variant
  | .junction operator => operator.variant
  | .tokenizedPhrase => .tokenizedPhrase
  | .multiPhrase => .multiPhrase
  | .proximity _ => .proximity

/-- All but plain junctions and phrases can be treated as junctions. -/
def fallbacks : Composite Near → List Variant
  | .junction .conjunction | .junction .disjunction | .proximity _ => [.boolean]
  | .junction .implicit | .tokenizedPhrase | .multiPhrase => []

/-- Clauses joined by an operator, as opposed to phrases. -/
def isJunction : Composite Near → Bool
  | .junction _ | .proximity _ => true
  | .tokenizedPhrase | .multiPhrase => false

end Composite

/-! ## Kinds -/

namespace Kind

def variant : Kind → Variant
  | .leaf bottom => bottom.variant
  | .wrapper around => around.variant
  | .composite above => above.variant
  | .extension custom => custom.variant

/-- The more general variants that a node can be treated as, nearest first. -/
def fallbacks : Kind → List Variant
  | .leaf bottom => bottom.fallbacks
  | .wrapper _ => []
  | .composite above => above.fallbacks
  | .extension custom => custom.fallbacks

def arity : Kind → Arity
  | .leaf _ => .leaf
  | .wrapper _ => .one
  | .composite _ => .many
  | .extension custom => custom.arity

def isLeaf (kind : Kind) : Bool :=
  kind.arity = .leaf

def isJunction : Kind → Bool
  | .composite above => above.isJunction
  | .leaf _ | .wrapper _ | .extension _ => false

def isGroup : Kind → Bool
  | .wrapper .group => true
  | _ => false

def isModifier : Kind → Bool
  | .wrapper (.modifier _) => true
  | _ => false

def term? : Kind → Option Term
  | .leaf bottom => bottom.term?
  | .wrapper _ | .composite _ | .extension _ => none

def mapTerm (change : Term → Term) : Kind → Kind
  | .leaf bottom => .leaf (bottom.mapTerm change)
  | kind => kind

def proximity? : Kind → Option Proximity
  | .composite (.proximity near) => some near
  | _ => none

/-- The field of a term or of a proximity node, if it has one. -/
def field? (kind : Kind) : Option String :=
  match kind.proximity? with
  | some near => near.field
  | none => kind.term?.bind Term.field

end Kind

end QueryForest
