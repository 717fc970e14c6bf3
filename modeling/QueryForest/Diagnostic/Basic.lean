import QueryForest.Diagnostic.Template

namespace QueryForest

namespace Diagnostic

inductive Code where
  | unsupportedValue
  | unsupportedAction
  | noBuilder
  | tooManyClauses
  | unexpectedArtifact
  | unexpectedNode
  | missingArtifact
  | missingChild
  | positionsOutOfOrder
  deriving DecidableEq, Repr

namespace Code

def all : List Code :=
  [.unsupportedValue, .unsupportedAction, .noBuilder, .tooManyClauses,
    .unexpectedArtifact, .unexpectedNode, .missingArtifact, .missingChild,
    .positionsOutOfOrder]

/-- The stable name of a code. -/
def name : Code → String
  | .unsupportedValue => "PARAMETER_VALUE_NOT_SUPPORTED"
  | .unsupportedAction => "NODE_ACTION_NOT_SUPPORTED"
  | .noBuilder => "QUERY_CONVERSION_ERROR"
  | .tooManyClauses => "TOO_MANY_BOOLEAN_CLAUSES"
  | .unexpectedArtifact => "UNEXPECTED_ARTIFACT"
  | .unexpectedNode => "UNEXPECTED_NODE"
  | .missingArtifact => "MISSING_ARTIFACT"
  | .missingChild => "MISSING_CHILD"
  | .positionsOutOfOrder => "POSITIONS_OUT_OF_ORDER"

def ofName? (name : String) : Option Code :=
  all.find? (·.name = name)

def pieces : Code → List Piece
  | .unsupportedValue =>
      [.text "parameter `", .argument 0, .text "` does not support value `",
        .argument 1, .text "`"]
  | .unsupportedAction =>
      [.text "`", .argument 0,
        .text "` node does not support this action: ", .argument 1]
  | .noBuilder =>
      [.text "cannot compile `", .argument 0,
        .text "`: no builder registered for `", .argument 1, .text "`"]
  | .tooManyClauses =>
      [.text "too many boolean clauses, the maximum supported is ",
        .argument 0, .text ": ", .argument 1]
  | .unexpectedArtifact =>
      [.text "`", .argument 0, .text "` builder expected a ", .argument 1,
        .text " artifact, found ", .argument 2]
  | .unexpectedNode =>
      [.text "`", .argument 0, .text "` builder cannot compile `",
        .argument 1, .text "` nodes"]
  | .missingArtifact =>
      [.text "`", .argument 0, .text "` node ", .argument 1,
        .text " has no compiled artifact"]
  | .missingChild =>
      [.text "`", .argument 0, .text "` node requires a child"]
  | .positionsOutOfOrder =>
      [.text "phrase position ", .argument 0, .text " follows position ",
        .argument 1]

/-- The wording as one text with placeholders. -/
def template (code : Code) : List Char :=
  code.pieces.flatMap Piece.written

end Code

end Diagnostic

/-- Something that is wrong, with the arguments of its message. -/
structure Diagnostic where
  code : Diagnostic.Code
  arguments : List String
  deriving DecidableEq, Repr

def Diagnostic.message (diagnostic : Diagnostic) : String :=
  String.ofList
    (Diagnostic.fill diagnostic.arguments diagnostic.code.template)

end QueryForest
