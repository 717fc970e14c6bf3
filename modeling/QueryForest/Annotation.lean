import QueryForest.Forest.Basic
import QueryForest.Table

/-!
# Annotations

Annotations attach values to nodes of a forest without being part of it.  One node can
have annotations under several labels.  They are held by a map that keeps an order, under
the node together with the label.
-/

namespace QueryForest

structure Annotations (Map : Type → Type → Type) (Value : Type) where
  entries : Map (NodeId × String) Value

namespace Annotations

variable {Map : Type → Type → Type} [IndexMap Map] {Value : Type}

def empty : Annotations Map Value :=
  ⟨IndexMap.empty⟩

def toList (annotations : Annotations Map Value) : List ((NodeId × String) × Value) :=
  IndexMap.toList annotations.entries

/-- Set the value of a node under a label; the result begins with the former value. -/
def set (annotations : Annotations Map Value) (id : NodeId) (label : String)
    (value : Value) : Option Value × Annotations Map Value :=
  let (former, entries) := IndexMap.insert annotations.entries (id, label) value
  (former, ⟨entries⟩)

/-- The value of a node under a label.  There is none where none was set, which is no
error. -/
def get? (annotations : Annotations Map Value) (id : NodeId) (label : String) :
    Option Value :=
  IndexMap.get? annotations.entries (id, label)

/-- Remove what a node has under a label; the result begins with the former value. -/
def remove (annotations : Annotations Map Value) (id : NodeId) (label : String) :
    Option Value × Annotations Map Value :=
  let (former, entries) := IndexMap.swapRemove annotations.entries (id, label)
  (former, ⟨entries⟩)

def contains (annotations : Annotations Map Value) (id : NodeId) (label : String) : Bool :=
  IndexMap.contains annotations.entries (id, label)

/-- The labels and values of one node, in the order of the entries. -/
def ofNode (annotations : Annotations Map Value) (id : NodeId) : List (String × Value) :=
  (annotations.toList.filter fun ((node, _), _) => node = id).map
    fun ((_, label), value) => (label, value)

def size (annotations : Annotations Map Value) : Nat :=
  IndexMap.size annotations.entries

def isEmpty (annotations : Annotations Map Value) : Bool :=
  IndexMap.isEmpty annotations.entries

def clear (annotations : Annotations Map Value) : Annotations Map Value :=
  ⟨IndexMap.clear annotations.entries⟩

end Annotations

end QueryForest
