import QueryForest.Compile.Registry

/-!
# Compiling trees

The nodes of a tree are built in post-order, so that a builder finds the
artifacts of all children.  The first error ends the compilation.
-/

namespace QueryForest

structure Compiler (Artifact : Type) where
  registry : Registry Artifact
  options : CompileOptions := {}

namespace Compiler

variable {Artifact : Type}

def buildNode (compiler : Compiler Artifact) (forest : Forest)
    (artifacts : Annotations Table Artifact) (branch : Branch) :
    Build (Annotations Table Artifact) :=
  match compiler.registry.builder? branch.kind with
  | none => .fail (.unregistered branch)
  | some builder => do
      let artifact ← builder branch ⟨forest, artifacts, compiler.options⟩
      return (artifacts.set branch.id builderLabel artifact).2

/-- The artifacts of all nodes below a node, itself included. -/
def artifacts (compiler : Compiler Artifact) (forest : Forest) (id : NodeId) :
    Build (Annotations Table Artifact) := do
  let branch ← (forest.branch id).mapError .breach
  branch.postOrder.foldlM (compiler.buildNode forest) .empty

def compileNode (compiler : Compiler Artifact) (forest : Forest) (id : NodeId) :
    Build Artifact := do
  let branch ← (forest.branch id).mapError .breach
  let artifacts ← compiler.artifacts forest id
  match (artifacts.remove id builderLabel).1 with
  | some artifact => return artifact
  | none => .fail (.missingArtifact branch)

def compile (compiler : Compiler Artifact) (forest : Forest) : Build Artifact :=
  match forest.root with
  | none => .fail .noRoot
  | some root => compiler.compileNode forest root

end Compiler

end QueryForest
