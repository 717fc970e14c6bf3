import QueryForest.Diagnostic.Basic
import QueryForest.Node.Kind
import QueryForest.Number.Layout

namespace QueryForest

inductive Action where
  | addChild
  | addSecondChild
  | adoptAncestor
  | adoptTwice
  | replaceDetached
  | save
  deriving DecidableEq, Repr

def Action.words : Action → String
  | .addChild => "add child"
  | .addSecondChild => "add a second child"
  | .adoptAncestor => "adopt its own ancestor"
  | .adoptTwice => "adopt a child twice"
  | .replaceDetached => "be replaced while detached"
  | .save => "serialize to JSON"

/-- Why a node is not made or not changed. -/
inductive NodeError where
  | invalidParameter (parameter value : String)
  | actionNotSupported (variant : Variant) (action : Action)
  deriving DecidableEq, Repr

namespace NodeError

def diagnostic : NodeError → Diagnostic
  | .invalidParameter parameter value => ⟨.unsupportedValue, [parameter, value]⟩
  | .actionNotSupported variant action =>
      ⟨.unsupportedAction, [variant.name, action.words]⟩

def message (error : NodeError) : String :=
  error.diagnostic.message

end NodeError

def Similarity.ofSingle (value : Number.Single) : Except NodeError Similarity :=
  match Similarity.ofSingle? value with
  | some similarity => .ok similarity
  | none => .error (.invalidParameter "similarity" value.text)

/-- Accept a unit and a distance as a reach; only a number of words has a
distance, and it has to be positive. -/
def Reach.ofDistance (unit : ProximityUnit) (distance : Int32) :
    Except NodeError Reach :=
  match unit with
  | .paragraph => .ok .paragraph
  | .sentence => .ok .sentence
  | .number =>
      match Distance.ofInt32? distance with
      | some accepted => .ok (.words accepted)
      | none => .error (.invalidParameter "distance" (toString distance.toInt))

end QueryForest
