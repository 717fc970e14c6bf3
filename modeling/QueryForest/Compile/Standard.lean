import QueryForest.Compile.Run
import QueryForest.Query.Basic

/-!
# The standard builders

Builders of queries for all built-in variants.  A quoted term is built like a
term, and the junctions share one builder.
-/

namespace QueryForest

open Number (BinaryFormat Double Single)

namespace Standard

abbrev QueryBuilder := Builder Query

/-- A term in its definite field. -/
def fieldTerm (options : CompileOptions) (term : Term) : FieldTerm :=
  ⟨options.resolve term.field, term.text⟩

def field : QueryBuilder := fun branch context =>
  match branch.term? with
  | some term => .ok (.term (fieldTerm context.options term))
  | none => .fail (.unexpectedNode .field branch)

/-- No fuzzy query allows more edits. -/
def mostEdits : Nat := 2

/-- What a proportion leaves of a length.  Both the share that is left and its
product with the length are rounded to 64 bits. -/
def shareLeft (proportion : Single) (length : Nat) : Option Double := do
  let one := BinaryFormat.single.one
  let share ← Double.ofQuotient? (one - proportion.units) one
  share.times? (← Double.ofQuotient? length 1)

/-- The edits that a similarity allows in a word: a whole number from one on
counts them, and a proportion leaves the rest of the length to them. -/
def editsAllowed (similarity : Single) (length : Nat) : Nat :=
  if similarity.isZero then
    0
  else if similarity.isProportion then
    min ((shareLeft similarity length).map Double.floor |>.getD mostEdits)
      mostEdits
  else
    min (similarity.units / BinaryFormat.single.one) mostEdits

def fuzzy : QueryBuilder := fun branch context =>
  match branch.kind with
  | .leaf (.fuzzy term similarity exactStart) =>
      let edits := editsAllowed similarity.value term.text.length
      .ok (.fuzzy (fieldTerm context.options term) (UInt32.ofNat edits) exactStart)
  | _ => .fail (.unexpectedNode .fuzzy branch)

def matchAll : QueryBuilder := fun _ _ => .ok .matchAll

def matchNone : QueryBuilder := fun _ _ => .ok .matchNone

/-! ## Junctions -/

/-- What a clause contributes: a modifier that is not neutral decides, and else
the operator of the junction. -/
def occurrenceOf (junction child : Kind) : Occurrence :=
  match child, junction with
  | .wrapper (.modifier .required), _ => .must
  | .wrapper (.modifier .negated), _ => .mustNot
  | _, .composite (.junction .conjunction) => .must
  | _, _ => .should

/-- Junctions become boolean queries, of a limited number of clauses. -/
def boolean : QueryBuilder := fun branch context => do
  if context.options.maxClauses < branch.children.length then
    Build.fail (.tooManyClauses context.options.maxClauses branch)
  else
    let clauses ← branch.children.mapM fun child =>
      return (occurrenceOf branch.kind child.kind, ← context.artifact child)
    return .boolean clauses

/-- Groups and modifiers add nothing of their own. -/
def transparent : QueryBuilder := fun branch context =>
  context.childArtifact branch

def boost : QueryBuilder := fun branch context =>
  match branch.kind with
  | .wrapper (.boost factor) =>
      return .boost (← context.childArtifact branch) factor
  | _ => .fail (.unexpectedNode .boost branch)

/-- A query with a slop, which only phrases take on. -/
def withSlop (slop : UInt32) : Query → Query
  | .phrase terms _ => .phrase terms slop
  | .multiPhrase steps _ => .multiPhrase steps slop
  | query => query

def slop : QueryBuilder := fun branch context =>
  match branch.kind with
  | .wrapper (.slop value) =>
      return withSlop value (← context.childArtifact branch)
  | _ => .fail (.unexpectedNode .slop branch)

/-! ## Phrases -/

/-- The position of a part of a phrase, which has to be a leaf with a term. -/
def positionOf (phrase child : Branch) : Build UInt32 :=
  match child.term? with
  | some term => .ok term.position
  | none => .fail (.unexpectedNode phrase.variant child)

def termOf (phrase : Branch) : Query → Build FieldTerm
  | .term term => .ok term
  | other =>
      .fail (.unexpectedArtifact phrase.variant "term" other.kindName)

/-- The terms of a phrase with their positions, none of which may be below the
one before. -/
def phraseTerms (context : BuildContext Query) (phrase : Branch)
    (last : Option UInt32) : List Branch → Build (List (FieldTerm × UInt32))
  | [] => .ok []
  | child :: others => do
      let position ← positionOf phrase child
      match last with
      | some last =>
          if position < last then
            Build.fail (.positionsOutOfOrder phrase position last)
      | none => pure ()
      let term ← termOf phrase (← context.artifact child)
      return (term, position)
        :: (← phraseTerms context phrase (some position) others)

def tokenizedPhrase : QueryBuilder := fun branch context =>
  return .phrase (← phraseTerms context branch none branch.children) 0

def multiPhrase : QueryBuilder := fun branch context => do
  let terms ← branch.children.mapM fun child => do
    let position ← positionOf branch child
    return (position, ← termOf branch (← context.artifact child))
  let steps := (groupByPosition terms).map fun (position, alternatives) =>
    (⟨position, alternatives⟩ : PhraseStep)
  return .multiPhrase steps 0

def nearnessOf : Reach → Nearness
  | .paragraph => .paragraph
  | .sentence => .sentence
  | .words distance => .words distance.value

def proximity : QueryBuilder := fun branch context =>
  match branch.kind with
  | .composite (.proximity near) =>
      return .near (← context.childArtifacts branch) (nearnessOf near.reach)
        near.inOrder
  | _ => .fail (.unexpectedNode .proximity branch)

/-- The standard builders by variant, in the order of their registration. -/
def builders : List (Variant × QueryBuilder) :=
  [(.field, field), (.fuzzy, fuzzy), (.matchAll, matchAll),
    (.matchNone, matchNone), (.boolean, boolean), (.group, transparent),
    (.modifier, transparent), (.boost, boost), (.slop, slop),
    (.tokenizedPhrase, tokenizedPhrase), (.multiPhrase, multiPhrase),
    (.proximity, proximity)]

def registry : Registry Query :=
  builders.foldl (fun registry (variant, builder) =>
    registry.register variant builder) .empty

def compiler (options : CompileOptions := {}) : Compiler Query :=
  ⟨registry, options⟩

end Standard

end QueryForest
