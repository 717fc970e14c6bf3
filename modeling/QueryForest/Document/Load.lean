import QueryForest.Document.Decode
import QueryForest.Forest.Edit

/-!
# Loading documents

Loading a document builds its tree from the leaves up, so that the names of
the nodes follow their post-order and every parameter is checked once.
-/

namespace QueryForest

open Json (Fault ReadError)
open Number (Single)

namespace Document

def checkLeaf : Leaf Single → Except NodeError (Leaf Similarity)
  | .field term => .ok (.field term)
  | .quotedField term => .ok (.quotedField term)
  | .fuzzy term similarity exactStart =>
      return .fuzzy term (← Similarity.ofSingle similarity) exactStart
  | .matchAll => .ok .matchAll
  | .matchNone => .ok .matchNone

def checkProximity (near : ProximityRecord) : Except NodeError Proximity :=
  return {
    field := near.field
    reach := ← Reach.ofDistance near.unit near.distance
    inOrder := near.inOrder }

def accept {Result : Type} (checked : Except NodeError Result) : Edit Result :=
  match checked with
  | .ok result => pure result
  | .error error => throw (.error error)

mutual

/-- Add the nodes of a document; a proximity node checks its distance before
its children are added. -/
def load : Document → Edit NodeId
  | .leaf bottom => do
      Edit.add (.leaf (← accept (checkLeaf bottom)))
  | .wrapper around child => do
      let children ← loadChild child
      Edit.addWithChildren (.wrapper around) children
  | .composite above children => do
      match above with
      | .proximity near =>
          let near ← accept (checkProximity near)
          let children ← loadChildren children
          Edit.addProximity near children
      | .junction operator =>
          let children ← loadChildren children
          Edit.addWithChildren (.composite (.junction operator)) children
      | .tokenizedPhrase =>
          let children ← loadChildren children
          Edit.addWithChildren (.composite .tokenizedPhrase) children
      | .multiPhrase =>
          let children ← loadChildren children
          Edit.addWithChildren (.composite .multiPhrase) children
termination_by structural document => document

def loadChild : Option Document → Edit (List NodeId)
  | none => pure []
  | some child => return [← child.load]
termination_by structural child => child

def loadChildren : List Document → Edit (List NodeId)
  | [] => pure []
  | head :: tail => do
      let first ← head.load
      let others ← loadChildren tail
      return first :: others
termination_by structural children => children

end

/-- A forest with the tree of a document, whose outermost node is the root. -/
def toForest (document : Document) : Except (Halt NodeError) Forest :=
  let (outcome, forest) := Forest.empty.edit do
    Edit.setRoot (← document.load)
  outcome.map fun _ => forest

end Document

/-- Why a text is not loaded: it does not hold a document, or a node refuses
its parameters. -/
inductive LoadError where
  | unreadable (error : ReadError Fault)
  | halted (halt : Halt NodeError)
  deriving DecidableEq, Repr

def LoadError.message : LoadError → String
  | .unreadable .malformed => "invalid tree JSON: malformed text"
  | .unreadable (.stopped fault) => "invalid tree JSON: " ++ fault.message
  | .halted halt => "invalid tree: " ++ halt.message NodeError.message

def Forest.ofText (text : String) : Except LoadError Forest := do
  let document ← (Document.ofText text).mapError .unreadable
  document.toForest.mapError .halted

end QueryForest
