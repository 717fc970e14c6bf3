import QueryForest.Forest.Edit

/-!
# Sound forests

A forest is sound when its links belong together: every link leads to a node of
the arena, a node lists exactly those nodes as its children that name it as
their parent, every way up ends, and no node has more children than its kind
takes.  The empty forest is sound, and adding a node keeps a forest sound.
-/

namespace QueryForest

/-- Whether a node of some arity can have so many children. -/
def Arity.admits (arity : Arity) (children : Nat) : Prop :=
  match arity with
  | .leaf => children = 0
  | .one => children ≤ 1
  | .many => True

namespace Forest

/-- The parent of a node; a name from elsewhere has none. -/
def parentOf (forest : Forest) (id : NodeId) : Option NodeId :=
  forest.nodes[id]? >>= Node.parent

def childrenOf (forest : Forest) (id : NodeId) : List NodeId :=
  forest.nodes[id]?.elim [] Node.children

/-- The way up from a node comes to an end. -/
inductive EndsAbove (forest : Forest) : NodeId → Prop where
  | parentless {id : NodeId} : forest.parentOf id = none → forest.EndsAbove id
  | linked {id parent : NodeId} :
      forest.parentOf id = some parent → forest.EndsAbove parent →
        forest.EndsAbove id

/-- The links of a forest belong together. -/
structure Sound (forest : Forest) : Prop where
  root_lt : ∀ root, forest.root = some root → root < forest.size
  mem_childrenOf_iff : ∀ parent child,
    child ∈ forest.childrenOf parent ↔ forest.parentOf child = some parent
  nodup_childrenOf : ∀ parent, (forest.childrenOf parent).Nodup
  endsAbove : ∀ id, forest.EndsAbove id
  admits : ∀ (id : NodeId) (node : Node), forest.nodes[id]? = some node →
    node.kind.arity.admits node.children.length

theorem lt_size_of_mem_childrenOf {forest : Forest} {parent child : NodeId}
    (mem : child ∈ forest.childrenOf parent) : parent < forest.size := by
  unfold childrenOf at mem
  cases found : forest.nodes[parent]? with
  | none => simp [found] at mem
  | some node => exact (Array.getElem?_eq_some_iff.mp found).1

theorem lt_size_of_parentOf {forest : Forest} {parent child : NodeId}
    (linked : forest.parentOf child = some parent) : child < forest.size := by
  unfold parentOf at linked
  cases found : forest.nodes[child]? with
  | none => simp [found] at linked
  | some node => exact (Array.getElem?_eq_some_iff.mp found).1

theorem sound_empty : empty.Sound where
  root_lt _ rooted := by cases rooted
  mem_childrenOf_iff _ _ := by simp [empty, childrenOf, parentOf]
  nodup_childrenOf _ := by simp [empty, childrenOf]
  endsAbove _ := .parentless (by simp [empty, parentOf])
  admits _ _ found := by simp [empty] at found

theorem parentOf_push (forest : Forest) (kind : Kind) (id : NodeId) :
    (forest.push kind).parentOf id = forest.parentOf id := by
  unfold parentOf push
  rw [Array.getElem?_push]
  split
  · next last => simp [last]
  · rfl

theorem childrenOf_push (forest : Forest) (kind : Kind) (id : NodeId) :
    (forest.push kind).childrenOf id = forest.childrenOf id := by
  unfold childrenOf push
  rw [Array.getElem?_push]
  split
  · next last => simp [last]
  · rfl

theorem EndsAbove.congr {forest other : Forest} {id : NodeId}
    (same : ∀ id, other.parentOf id = forest.parentOf id)
    (ends : forest.EndsAbove id) : other.EndsAbove id := by
  induction ends with
  | parentless none => exact .parentless ((same _).trans none)
  | linked linked _ inductionHypothesis =>
      exact .linked ((same _).trans linked) inductionHypothesis

/-- A sound forest with one more node is sound. -/
theorem Sound.push {forest : Forest} (sound : forest.Sound) (kind : Kind) :
    (forest.push kind).Sound where
  root_lt root rooted := by
    have inside : root < forest.size := sound.root_lt root rooted
    have grown : (forest.push kind).size = forest.size + 1 := Array.size_push ..
    rw [grown]
    exact Nat.lt_succ_of_lt inside
  mem_childrenOf_iff parent child := by
    rw [childrenOf_push, parentOf_push]
    exact sound.mem_childrenOf_iff parent child
  nodup_childrenOf parent := by
    rw [childrenOf_push]
    exact sound.nodup_childrenOf parent
  endsAbove id := (sound.endsAbove id).congr (parentOf_push forest kind)
  admits id node found := by
    simp only [Forest.push, Array.getElem?_push] at found
    split at found
    · cases found
      cases kind.arity <;> simp [Arity.admits]
    · exact sound.admits id node found

end Forest

theorem Edit.run_add (forest : Forest) (kind : Kind) :
    forest.edit (Edit.add kind) = (.ok forest.size, forest.push kind) :=
  rfl

end QueryForest
