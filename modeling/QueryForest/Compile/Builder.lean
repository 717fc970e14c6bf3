import QueryForest.Annotation
import QueryForest.Compile.Error

/-!
# Builders

A builder makes an artifact for a node from the artifacts of its children, which it finds
as annotations of their nodes.
-/

namespace QueryForest

/-- The field of terms without one, and the most clauses of a boolean query. -/
structure CompileOptions where
  defaultField : String := plainField
  maxClauses : Nat := 1024
  deriving DecidableEq, Repr

/-- The field that a term means: no field and the plain field both mean the
default field. -/
def CompileOptions.resolve (options : CompileOptions) : Option String → String
  | none => options.defaultField
  | some field => if field = plainField then options.defaultField else field

/-- The result of a build, which may also meet a breach of the forest. -/
abbrev Build (Artifact : Type) :=
  Except (Halt CompileError) Artifact

def Build.fail {Artifact : Type} (error : CompileError) : Build Artifact :=
  .error (.error error)

/-- The label under which the artifacts of nodes are kept. -/
def builderLabel : String :=
  "builder_artifact"

/-- What a builder sees besides its own branch: the forest, the artifacts of the nodes that
have been built, and the options. -/
structure BuildContext (Artifact : Type) where
  forest : Forest
  artifacts : Annotations Table Artifact
  options : CompileOptions

namespace BuildContext

variable {Artifact : Type}

/-- The artifact of a branch, which has to be built already. -/
def artifact (context : BuildContext Artifact) (branch : Branch) :
    Build Artifact :=
  match context.artifacts.get? branch.id builderLabel with
  | some artifact => .ok artifact
  | none => .fail (.missingArtifact branch)

def childArtifacts (context : BuildContext Artifact) (branch : Branch) :
    Build (List Artifact) :=
  branch.children.mapM context.artifact

def childArtifact (context : BuildContext Artifact) (branch : Branch) :
    Build Artifact :=
  match branch.children with
  | [] => .fail (.missingChild branch)
  | child :: _ => context.artifact child

end BuildContext

abbrev Builder (Artifact : Type) :=
  Branch → BuildContext Artifact → Build Artifact

end QueryForest
