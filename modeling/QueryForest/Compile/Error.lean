import QueryForest.Node.Error
import QueryForest.View.QuerySyntax

namespace QueryForest

inductive CompileError where
  /-- The forest has no root. -/
  | noRoot
  /-- Nothing builds this variant, nor any that it can be treated as. -/
  | noBuilder (variant : Variant) (written : String)
  /-- A builder does not accept its node. -/
  | build (variant : Variant) (diagnostic : Diagnostic)
  /-- A builder refuses a parameter. -/
  | node (error : NodeError)
  deriving DecidableEq, Repr

namespace CompileError

def diagnostic? : CompileError → Option Diagnostic
  | .noRoot => none
  | .noBuilder variant written => some ⟨.noBuilder, [written, variant.name]⟩
  | .build _ diagnostic => some diagnostic
  | .node error => some error.diagnostic

def message (error : CompileError) : String :=
  match error.diagnostic? with
  | none => "query tree has no root"
  | some diagnostic => diagnostic.message

def unregistered (branch : Branch) : CompileError :=
  .noBuilder branch.variant branch.standardText

def unexpectedNode (builder : Variant) (branch : Branch) : CompileError :=
  .build branch.variant ⟨.unexpectedNode, [builder.name, branch.variant.name]⟩

/-- A builder needs the artifact of another kind of node. -/
def unexpectedArtifact (builder : Variant) (expected found : String) :
    CompileError :=
  .build builder ⟨.unexpectedArtifact, [builder.name, expected, found]⟩

def missingArtifact (branch : Branch) : CompileError :=
  .build branch.variant
    ⟨.missingArtifact, [branch.variant.name, nodeName branch.id]⟩

def missingChild (branch : Branch) : CompileError :=
  .build branch.variant ⟨.missingChild, [branch.variant.name]⟩

def tooManyClauses (most : Nat) (branch : Branch) : CompileError :=
  .build branch.variant ⟨.tooManyClauses, [toString most, branch.standardText]⟩

def positionsOutOfOrder (branch : Branch) (position last : UInt32) :
    CompileError :=
  .build branch.variant
    ⟨.positionsOutOfOrder, [toString position.toNat, toString last.toNat]⟩

end CompileError

end QueryForest
