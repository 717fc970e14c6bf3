import QueryForest.Forest.Sound

/-!
# Revising the nodes of a forest

Every edit changes some nodes in their places.  A revision changes each node
depending on its name, so that what it does to kinds, parents and children can
be read off node by node, and two revisions can be compared without looking at
the order in which nodes were changed.
-/

namespace QueryForest.Forest

def kindOf (forest : Forest) (id : NodeId) : Option Kind :=
  forest.nodes[id]?.map Node.kind

/-- Change every node, depending on its name. -/
def revise (forest : Forest) (change : NodeId → Node → Node) : Forest :=
  { forest with nodes := forest.nodes.mapIdx change }

/-- Forests with the same nodes in the same places and the same root are
equal. -/
theorem ext_getElem? {forest other : Forest}
    (sameRoot : forest.root = other.root)
    (sameNodes : ∀ id : NodeId, forest.nodes[id]? = other.nodes[id]?) :
    forest = other := by
  cases forest with
  | mk nodes root =>
      cases other with
      | mk otherNodes otherRoot =>
          have nodesEqual : nodes = otherNodes :=
            Array.ext_getElem? sameNodes
          have rootsEqual : root = otherRoot := sameRoot
          rw [nodesEqual, rootsEqual]

section Revise

variable (forest : Forest) (change : NodeId → Node → Node)

@[simp]
theorem root_revise : (forest.revise change).root = forest.root :=
  rfl

@[simp]
theorem size_revise : (forest.revise change).size = forest.size :=
  Array.size_mapIdx

@[simp]
theorem getElem?_revise (id : NodeId) :
    (forest.revise change).nodes[id]? = forest.nodes[id]?.map (change id) :=
  Array.getElem?_mapIdx

theorem kindOf_revise (id : NodeId) :
    (forest.revise change).kindOf id =
      forest.nodes[id]?.map fun node => (change id node).kind := by
  unfold kindOf
  rw [getElem?_revise, Option.map_map]
  rfl

theorem parentOf_revise (id : NodeId) :
    (forest.revise change).parentOf id =
      forest.nodes[id]?.bind fun node => (change id node).parent := by
  unfold parentOf
  rw [getElem?_revise]
  cases forest.nodes[id]? <;> rfl

theorem childrenOf_revise (id : NodeId) :
    (forest.revise change).childrenOf id =
      forest.nodes[id]?.elim [] fun node => (change id node).children := by
  unfold childrenOf
  rw [getElem?_revise]
  cases forest.nodes[id]? <;> rfl

end Revise

theorem revise_revise (forest : Forest) (first second : NodeId → Node → Node) :
    (forest.revise first).revise second =
      forest.revise fun id node => second id (first id node) := by
  refine ext_getElem? rfl fun id => ?_
  simp only [getElem?_revise, Option.map_map]
  rfl

theorem revise_congr {forest : Forest} {first second : NodeId → Node → Node}
    (same : ∀ (id : NodeId) (node : Node), forest.nodes[id]? = some node →
      first id node = second id node) :
    forest.revise first = forest.revise second := by
  refine ext_getElem? rfl fun id => ?_
  rw [getElem?_revise, getElem?_revise]
  cases present : forest.nodes[id]? with
  | none => rfl
  | some node => simp only [Option.map_some, same id node present]

theorem revise_eq_self {forest : Forest} {change : NodeId → Node → Node}
    (same : ∀ (id : NodeId) (node : Node), forest.nodes[id]? = some node →
      change id node = node) :
    forest.revise change = forest := by
  refine ext_getElem? rfl fun id => ?_
  rw [getElem?_revise]
  cases present : forest.nodes[id]? with
  | none => rfl
  | some node => rw [Option.map_some, same id node present]

/-- Changing one node is a revision that leaves all others alone. -/
theorem modifyNode_eq_revise (forest : Forest) (id : NodeId)
    (change : Node → Node) :
    forest.modifyNode id change =
      forest.revise fun other node =>
        if other = id then change node else node := by
  refine ext_getElem? rfl fun other => ?_
  rw [getElem?_revise]
  unfold modifyNode
  rw [Array.getElem?_modify]
  by_cases same : other = id
  · subst same
    simp
  · have different : id ≠ other := Ne.symm same
    simp [same, different]

@[simp]
theorem size_modifyNode (forest : Forest) (id : NodeId)
    (change : Node → Node) :
    (forest.modifyNode id change).size = forest.size :=
  Array.size_modify

section Push

variable {forest : Forest}

theorem getElem?_push_self (forest : Forest) (kind : Kind) :
    (forest.push kind).nodes[forest.size]? = some { kind } := by
  unfold push size
  rw [Array.getElem?_push, if_pos rfl]

theorem getElem?_push_of_lt {kind : Kind} {id : NodeId} (inside : id < forest.size) :
    (forest.push kind).nodes[id]? = forest.nodes[id]? := by
  have before : id ≠ forest.nodes.size := Nat.ne_of_lt inside
  unfold push
  rw [Array.getElem?_push, if_neg before]

@[simp]
theorem size_push (forest : Forest) (kind : Kind) :
    (forest.push kind).size = forest.size + 1 :=
  Array.size_push ..

theorem kindOf_push_of_lt {kind : Kind} {id : NodeId} (inside : id < forest.size) :
    (forest.push kind).kindOf id = forest.kindOf id := by
  unfold kindOf
  rw [getElem?_push_of_lt inside]

end Push

section Present

variable {forest : Forest} {id : NodeId} {node : Node}

theorem lt_size_of_getElem? (present : forest.nodes[id]? = some node) :
    id < forest.size :=
  (Array.getElem?_eq_some_iff.mp present).1

theorem exists_node_of_lt (inside : id < forest.size) :
    ∃ node, forest.nodes[id]? = some node :=
  ⟨forest.nodes[id], Array.getElem?_eq_getElem inside⟩

theorem getElem?_of_not_lt (outside : ¬ id < forest.size) :
    forest.nodes[id]? = none :=
  Array.getElem?_eq_none_iff.mpr (Nat.not_lt.mp outside)

theorem kindOf_of_getElem? (present : forest.nodes[id]? = some node) :
    forest.kindOf id = some node.kind := by
  rw [kindOf, present, Option.map_some]

theorem parentOf_of_getElem? (present : forest.nodes[id]? = some node) :
    forest.parentOf id = node.parent := by
  rw [parentOf, present]
  rfl

theorem childrenOf_of_getElem? (present : forest.nodes[id]? = some node) :
    forest.childrenOf id = node.children := by
  rw [childrenOf, present]
  rfl

end Present

end QueryForest.Forest
