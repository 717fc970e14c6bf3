import QueryForest.Node.Kind

/-!
# Forests

A forest keeps the nodes of query trees in an arena.  A node is named by its
place there, and names never go away: a node that is taken out of a tree stays
in the arena.  A node owns its children in order; the link to its parent says
where it is owned.
-/

namespace QueryForest

/-- A node is named by its place in the arena.  Names are taken to have no bound; where they
are words of 32 bits, all that is said holds of arenas with fewer than `2 ^ 32` nodes. -/
abbrev NodeId := Nat

def nodeName (id : NodeId) : String :=
  "#" ++ toString id

structure Node where
  kind : Kind
  parent : Option NodeId := none
  children : List NodeId := []

/-- An arena of nodes, one of which may be the root. -/
structure Forest where
  nodes : Array Node := #[]
  root : Option NodeId := none

/-- What can be wrong with the links that a walk follows.  Only a name from
another forest is ever met in practice. -/
inductive Breach where
  | missing (id : NodeId) (size : Nat)
  | unlisted (parent child : NodeId)
  | endless (id : NodeId)
  | rootless
  deriving DecidableEq, Repr

def Breach.message : Breach → String
  | .missing id size =>
      "QueryTree: node " ++ nodeName id ++ " not found in arena of "
        ++ toString size ++ " (id from another tree?)"
  | .unlisted parent child =>
      "QueryTree: " ++ nodeName child ++ " points at parent " ++ nodeName parent
        ++ ", which does not list it as a child"
  | .endless id =>
      "QueryTree: the nodes below " ++ nodeName id ++ " do not end"
  | .rootless =>
      "internal error: entered unreachable code: clone_tree always sets a root"

/-- Why an operation on a forest stops: a breach, or an error of its own. -/
inductive Halt (Error : Type) where
  | breach (breach : Breach)
  | error (error : Error)
  deriving DecidableEq, Repr

def Halt.message {Error : Type} (wording : Error → String) : Halt Error → String
  | .breach found => found.message
  | .error found => wording found

namespace Forest

def empty : Forest := {}

/-- The number of nodes, with those that are in no tree. -/
def size (forest : Forest) : Nat :=
  forest.nodes.size

def node (forest : Forest) (id : NodeId) : Except Breach Node :=
  match forest.nodes[id]? with
  | some node => .ok node
  | none => .error (.missing id forest.size)

def push (forest : Forest) (kind : Kind) : Forest :=
  { forest with nodes := forest.nodes.push { kind } }

def modifyNode (forest : Forest) (id : NodeId) (change : Node → Node) : Forest :=
  { forest with nodes := forest.nodes.modify id change }

/-- Follow links to parents, a number of them at most, from a node up to a
sought one. -/
def isReachedWithin (forest : Forest) (sought : NodeId) :
    Nat → NodeId → Except Breach Bool
  | 0, id => .error (.endless id)
  | links + 1, id =>
      if id = sought then
        .ok true
      else do
        match (← forest.node id).parent with
        | some parent => forest.isReachedWithin sought links parent
        | none => .ok false

def isAncestorOrSelf (forest : Forest) (ancestor id : NodeId) :
    Except Breach Bool :=
  forest.isReachedWithin ancestor (forest.size + 1) id

end Forest

end QueryForest
