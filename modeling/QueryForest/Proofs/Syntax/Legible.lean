import QueryForest.Proofs.Compile.Denotation
import QueryForest.Proofs.Forest.Within
import QueryForest.Proofs.Syntax.Lexemes

/-!
# Legible trees

Two nodes with different meanings can be written alike: the text of a phrase says
nothing of the positions of its words, and a boost behind a sign can stand above
or below it.  A branch is legible when each node is the one that its text is read
as.
-/

namespace QueryForest

open Number (Single)

/-- The name of a field other than the plain one. -/
def namedField : Option String → Option String
  | none => none
  | some name => if name = plainField then none else some name

namespace Term

def shownField (term : Term) : Option String :=
  if term.ignoreField then none else namedField term.field

/-- Where the field of a term is not written, it is the one around the term. -/
def IsPlacedIn (around : Option String) (term : Term) : Prop :=
  term.shownField = none → namedField term.field = around

/-- A word that is read as itself: without a field it is no keyword. -/
def IsNoKeyword (term : Term) : Prop :=
  term.shownField = none → term.text ≠ "WITHIN" ∧ term.text ≠ "INORDER"

/-- All terms are in the field that is written with the first one. -/
def ShareField (terms : List Term) : Prop :=
  ∀ term ∈ terms, namedField term.field = terms.head?.bind shownField

end Term

namespace Branch

/-- The sign that a clause is written with; a neutral modifier has none. -/
def sign (branch : Branch) : Option Occurrence :=
  match branch.kind with
  | .wrapper (.modifier .required) => some .must
  | .wrapper (.modifier .negated) => some .mustNot
  | _ => none

/-- A junction that stands without parentheses of its own. -/
def isBare (branch : Branch) : Bool :=
  match branch.kind with
  | .composite (.junction _) => branch.enclosing.all Kind.isGroup
  | _ => false

/-- A bare word, to which a tilde and a number would add a similarity. -/
def endsInWord : Branch → Bool
  | .node _ (.leaf (.field _)) _ _ => true
  | .node _ (.wrapper (.modifier .neutral)) _ (.node _ (.leaf (.field _)) _ _ :: _) => true
  | _ => false

/-- All nodes below are linked to the nodes that list them. -/
def IsLinked (branch : Branch) : Prop :=
  ∀ part ∈ branch.postOrder, ∀ child ∈ part.children, child.enclosing = some part.kind

/-- A branch in a field that is read as what it is, also when a slop stands
around it. -/
inductive IsLegible : Option String → Bool → Branch → Prop
  | field {around : Option String} {slopped : Bool} {id : NodeId} {term : Term}
      {enclosing : Option Kind} {children : List Branch} :
      term.IsPlacedIn around → term.IsNoKeyword →
        (term.shownField = none → term.text ≠ "") →
        IsLegible around slopped (.node id (.leaf (.field term)) enclosing children)
  | quotedField {around : Option String} {slopped : Bool} {id : NodeId} {term : Term}
      {enclosing : Option Kind} {children : List Branch} :
      term.IsPlacedIn around → ' ' ∉ term.text.toList →
        IsLegible around slopped (.node id (.leaf (.quotedField term)) enclosing children)
  | fuzzy {around : Option String} {slopped : Bool} {id : NodeId} {term : Term}
      {similarity : Similarity} {enclosing : Option Kind} {children : List Branch} :
      term.IsPlacedIn around → term.IsNoKeyword →
        IsLegible around slopped (.node id (.leaf (.fuzzy term similarity 0)) enclosing children)
  | matchAll {around : Option String} {slopped : Bool} {id : NodeId}
      {enclosing : Option Kind} {children : List Branch} :
      IsLegible around slopped (.node id (.leaf .matchAll) enclosing children)
  | group {around : Option String} {slopped : Bool} {id : NodeId}
      {enclosing : Option Kind} {child : Branch} {others : List Branch} :
      child.sign = none → IsLegible none slopped child →
        IsLegible around slopped (.node id (.wrapper .group) enclosing (child :: others))
  | stacked {around : Option String} {slopped : Bool} {id : NodeId} {modifier : Modifier}
      {enclosing : Option Kind} {child : Branch} {others : List Branch} :
      child.kind.isModifier = true → IsLegible none slopped child →
        IsLegible around slopped
          (.node id (.wrapper (.modifier modifier)) enclosing (child :: others))
  | neutral {around : Option String} {slopped : Bool} {id : NodeId}
      {enclosing : Option Kind} {child : Branch} {others : List Branch} :
      child.kind.isModifier = false → IsLegible around slopped child →
        IsLegible around slopped
          (.node id (.wrapper (.modifier .neutral)) enclosing (child :: others))
  | signed {around : Option String} {slopped : Bool} {id : NodeId} {modifier : Modifier}
      {enclosing : Option Kind} {child : Branch} {others : List Branch} :
      modifier ≠ .neutral → child.kind.isModifier = false → IsLegible none slopped child →
        IsLegible around slopped
          (.node id (.wrapper (.modifier modifier)) enclosing (child :: others))
  | boost {around : Option String} {slopped : Bool} {id : NodeId} {factor : Single}
      {enclosing : Option Kind} {child : Branch} {others : List Branch} :
      child.sign = none → IsLegible none false child → factor.isNaN = false →
        IsLegible around slopped (.node id (.wrapper (.boost factor)) enclosing (child :: others))
  | slop {around : Option String} {slopped : Bool} {id : NodeId} {value : UInt32}
      {enclosing : Option Kind} {child : Branch} {others : List Branch} :
      child.sign = none → child.endsInWord = false → IsLegible none true child →
        IsLegible around slopped (.node id (.wrapper (.slop value)) enclosing (child :: others))
  | junction {around : Option String} {slopped : Bool} {id : NodeId} {operator : Operator}
      {enclosing : Option Kind} {children : List Branch} :
      children ≠ [] → (slopped = true → children.length ≠ 1) →
        (∀ child ∈ children, IsLegible none false child) →
        IsLegible around slopped
          (.node id (.composite (.junction operator)) enclosing children)
  | tokenizedPhrase {around : Option String} {slopped : Bool} {id : NodeId}
      {enclosing : Option Kind} {children : List Branch} :
      2 ≤ (terms children).length → (∀ term ∈ terms children, ' ' ∉ term.text.toList) →
        (terms children).map Term.position =
          (List.range (terms children).length).map (fun index => UInt32.ofNat (index + 1)) →
        Term.ShareField (terms children) →
        IsLegible around slopped (.node id (.composite .tokenizedPhrase) enclosing children)
  | multiPhrase {around : Option String} {slopped : Bool} {id : NodeId}
      {enclosing : Option Kind} {children : List Branch} :
      terms children ≠ [] → (∀ term ∈ terms children, term.position ≠ 0) →
        Term.ShareField (terms children) →
        IsLegible around slopped (.node id (.composite .multiPhrase) enclosing children)
  | proximity {around : Option String} {slopped : Bool} {id : NodeId} {near : Proximity}
      {enclosing : Option Kind} {children : List Branch} :
      (∀ child ∈ children, IsLegible (namedField near.field) false child) →
        IsLegible around slopped (.node id (.composite (.proximity near)) enclosing children)

end Branch

end QueryForest
