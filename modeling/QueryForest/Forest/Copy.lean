import QueryForest.Forest.Branch
import QueryForest.Forest.Edit

/-!
# Copying and moving trees

A branch is copied node by node, each one before its children.  So a copy that is an
arena of its own has the nodes of the branch in pre-order.  Grafting puts all nodes of one
arena behind those of another.
-/

namespace QueryForest

namespace Branch

/-- The places of the roots of branches that are laid out one after the other
from a place on. -/
def places (start : NodeId) : List Branch → List NodeId
  | [] => []
  | head :: tail => start :: places (start + head.size) tail

mutual

/-- The nodes of a branch in pre-order, laid out from a place on. -/
def layOut (start : NodeId) (parent : Option NodeId) : Branch → List Node
  | .node _ kind _ children =>
      { kind, parent, children := places (start + 1) children }
        :: layOutAll (start + 1) start children
termination_by structural branch => branch

def layOutAll (start : NodeId) (parent : NodeId) : List Branch → List Node
  | [] => []
  | head :: tail =>
      head.layOut start (some parent) ++ layOutAll (start + head.size) parent tail
termination_by structural branches => branches

end

mutual

theorem length_layOut (start : NodeId) (parent : Option NodeId) :
    (branch : Branch) → (branch.layOut start parent).length = branch.size
  | .node id kind enclosing children => by
      simp [layOut, size, length_layOutAll (start + 1) start children]

theorem length_layOutAll (start parent : NodeId) :
    (branches : List Branch) →
      (layOutAll start parent branches).length = sizeOfAll branches
  | [] => rfl
  | head :: tail => by
      simp [layOutAll, sizeOfAll, length_layOut start (some parent) head,
        length_layOutAll (start + head.size) parent tail]

end

def toForest (branch : Branch) : Forest where
  nodes := (branch.layOut 0 none).toArray
  root := some 0

end Branch

def Node.shift (offset : Nat) (node : Node) : Node where
  kind := node.kind
  parent := node.parent.map (· + offset)
  children := node.children.map (· + offset)

namespace Edit

mutual

/-- Copy a branch of another forest: add its node, link it to the parent, and append the
copies of its children one by one. -/
def copyFrom (parent : Option NodeId) : Branch → Edit NodeId
  | .node _ kind _ children => do
      let copy ← add kind
      modifyNode copy fun node => { node with parent }
      copyChildren copy children
      pure copy
termination_by structural branch => branch

def copyChildren (copy : NodeId) : List Branch → Edit Unit
  | [] => pure ()
  | child :: others => do
      let childCopy ← copyFrom (some copy) child
      modifyNode copy fun node => { node with children := node.children ++ [childCopy] }
      copyChildren copy others
termination_by structural branches => branches

end

end Edit

/-- A copy of the branch at a node, as a forest of its own. -/
def Forest.copy (forest : Forest) (id : NodeId) : Except (Halt NodeError) Forest :=
  let (outcome, copy) := empty.edit do
    let root ← Edit.copyFrom none (← Edit.check (forest.branch id))
    modify fun copy => { copy with root := some root }
  outcome.map fun _ => copy

namespace Edit

/-- Take over all nodes of another forest; the result is where its root is
now, which is nobody's child here. -/
def graft (other : Forest) : Edit (Option NodeId) := do
  let offset := (← get).size
  modify fun forest =>
    { forest with nodes := forest.nodes ++ other.nodes.map (Node.shift offset) }
  match other.root with
  | none => pure none
  | some root =>
      modifyNode (root + offset) fun node => { node with parent := none }
      pure (some (root + offset))

/-- Copy the branch at a node; the result is where the copy is, which is
nobody's child. -/
def copyBranch (id : NodeId) : Edit NodeId := do
  match (← get).copy id with
  | .error halt => throw halt
  | .ok copy =>
      match ← graft copy with
      | some root => pure root
      | none => throw (.breach .rootless)

end Edit

end QueryForest
