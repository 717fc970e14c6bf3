import QueryForest.Forest.Basic

/-!
# Branches

A branch is a node of a forest with everything below it, as one value.  Views
of a tree, such as its outline or its query syntax, are recursive functions on
branches, and need no look at the forest any more.  Only the post-order of a node is also
walked through in the forest itself, by a loop with a stack of visits that are still to be
made: on the way down a node puts its children before its second visit.
-/

namespace QueryForest

/-- A node with the branches of its children, and the kind of the node that it
is linked to as its parent. -/
inductive Branch where
  | node (id : NodeId) (kind : Kind) (enclosing : Option Kind)
      (children : List Branch)

namespace Branch

def id : Branch → NodeId
  | .node id _ _ _ => id

def kind : Branch → Kind
  | .node _ kind _ _ => kind

def enclosing : Branch → Option Kind
  | .node _ _ enclosing _ => enclosing

def children : Branch → List Branch
  | .node _ _ _ children => children

def variant (branch : Branch) : Variant :=
  branch.kind.variant

def term? (branch : Branch) : Option Term :=
  branch.kind.term?

mutual

def size : Branch → Nat
  | .node _ _ _ children => sizeOfAll children + 1
termination_by structural branch => branch

def sizeOfAll : List Branch → Nat
  | [] => 0
  | head :: tail => head.size + sizeOfAll tail
termination_by structural branches => branches

end

mutual

/-- All branches within a branch, children before their parent. -/
def postOrder : Branch → List Branch
  | .node id kind enclosing children =>
      postOrderOfAll children ++ [.node id kind enclosing children]
termination_by structural branch => branch

def postOrderOfAll : List Branch → List Branch
  | [] => []
  | head :: tail => head.postOrder ++ postOrderOfAll tail
termination_by structural branches => branches

end

mutual

theorem length_postOrder : (branch : Branch) →
    branch.postOrder.length = branch.size
  | .node id kind enclosing children => by
      simp [postOrder, size, length_postOrderOfAll children]

theorem length_postOrderOfAll : (branches : List Branch) →
    (postOrderOfAll branches).length = sizeOfAll branches
  | [] => rfl
  | head :: tail => by
      simp [postOrderOfAll, sizeOfAll, length_postOrder head,
        length_postOrderOfAll tail]

end

end Branch

inductive Visit where
  | before (id : NodeId)
  | after (id : NodeId)
  deriving DecidableEq, Repr

namespace Forest

def branchWithin (forest : Forest) : Nat → NodeId → Except Breach Branch
  | 0, id => .error (.endless id)
  | depth + 1, id => do
      let node ← forest.node id
      let enclosing ← node.parent.mapM fun parent =>
        return (← forest.node parent).kind
      let children ← node.children.mapM (forest.branchWithin depth)
      return .node id node.kind enclosing children

/-- The branch at a node.  No path down is longer than the arena unless it
comes back to a node. -/
def branch (forest : Forest) (id : NodeId) : Except Breach Branch :=
  forest.branchWithin (forest.size + 1) id

/-- Make visits until none is left, a number of them at most; the nodes that
are done come in reverse. -/
def walk (forest : Forest) :
    Nat → List Visit → List NodeId → Except Breach (List NodeId)
  | _, [], done => .ok done.reverse
  | 0, .before id :: _, _ | 0, .after id :: _, _ => .error (.endless id)
  | visits + 1, .after id :: stack, done =>
      forest.walk visits stack (id :: done)
  | visits + 1, .before id :: stack, done => do
      let node ← forest.node id
      forest.walk visits (node.children.map .before ++ .after id :: stack) done

/-- The nodes of the branch at a node, children before their parent. -/
def postOrder (forest : Forest) (id : NodeId) : Except Breach (List NodeId) := do
  let branch ← forest.branch id
  forest.walk (2 * branch.size) [.before id] []

end Forest

end QueryForest
