import QueryForest.Forest.Copy
import QueryForest.Proofs.Forest.Outcome

/-!
# Putting one arena behind another

The nodes of one arena keep their links among themselves when they are put
behind those of another.  Two sound forests make a sound one.  Grafting then
takes the link from the former root to its parent away, and only that link, so
it makes a sound forest exactly when there is no such link.
-/

namespace QueryForest.Forest

/-- The nodes of another forest stand behind those of this one. -/
def joined (forest other : Forest) : Forest :=
  { forest with
    nodes := forest.nodes ++ other.nodes.map (Node.shift forest.size) }

variable {forest other : Forest}

section Views

variable (forest other : Forest)

@[simp]
theorem size_joined : (forest.joined other).size = forest.size + other.size := by
  unfold joined size
  rw [Array.size_append, Array.size_map]

theorem getElem?_joined_left {id : NodeId} (inside : id < forest.size) :
    (forest.joined other).nodes[id]? = forest.nodes[id]? :=
  Array.getElem?_append_left inside

theorem getElem?_joined_right (id : NodeId) :
    (forest.joined other).nodes[id + forest.size]? =
      other.nodes[id]?.map (Node.shift forest.size) := by
  have behind : forest.nodes.size ≤ id + forest.size := Nat.le_add_left ..
  show (forest.nodes ++ _)[id + forest.size]? = _
  rw [Array.getElem?_append_right behind, Array.getElem?_map]
  show other.nodes[id + forest.size - forest.size]?.map _ = _
  rw [Nat.add_sub_cancel]

theorem parentOf_joined_left {id : NodeId} (inside : id < forest.size) :
    (forest.joined other).parentOf id = forest.parentOf id := by
  rw [parentOf, getElem?_joined_left forest other inside, parentOf]

theorem parentOf_joined_right (id : NodeId) :
    (forest.joined other).parentOf (id + forest.size) =
      (other.parentOf id).map (· + forest.size) := by
  rw [parentOf, getElem?_joined_right, parentOf]
  cases other.nodes[id]? <;> rfl

theorem childrenOf_joined_left {id : NodeId} (inside : id < forest.size) :
    (forest.joined other).childrenOf id = forest.childrenOf id := by
  rw [childrenOf, getElem?_joined_left forest other inside, childrenOf]

theorem childrenOf_joined_right (id : NodeId) :
    (forest.joined other).childrenOf (id + forest.size) =
      (other.childrenOf id).map (· + forest.size) := by
  rw [childrenOf, getElem?_joined_right, childrenOf]
  cases other.nodes[id]? <;> rfl

theorem kindOf_joined_left {id : NodeId} (inside : id < forest.size) :
    (forest.joined other).kindOf id = forest.kindOf id := by
  rw [kindOf, getElem?_joined_left forest other inside, kindOf]

theorem kindOf_joined_right (id : NodeId) :
    (forest.joined other).kindOf (id + forest.size) = other.kindOf id := by
  rw [kindOf, getElem?_joined_right, kindOf, Option.map_map]
  rfl

end Views

theorem lt_or_exists_add (size id : Nat) :
    id < size ∨ ∃ place, id = place + size := by
  by_cases inside : id < size
  · exact .inl inside
  · exact .inr ⟨id - size, by omega⟩

theorem not_add_size_lt (forest : Forest) (id : NodeId) :
    ¬ id + forest.size < forest.size :=
  Nat.not_lt.mpr (Nat.le_add_left ..)

/-! ## Soundness -/

theorem EndsAbove.joined_left (anchored : forest.Anchored) {id : NodeId}
    (inside : id < forest.size) (ends : forest.EndsAbove id) :
    (forest.joined other).EndsAbove id := by
  induction ends with
  | parentless none =>
      exact .parentless ((parentOf_joined_left forest other inside).trans none)
  | linked linked _ inductionHypothesis =>
      exact .linked ((parentOf_joined_left forest other inside).trans linked)
        (inductionHypothesis (anchored.parent_lt linked))

theorem EndsAbove.joined_right {id : NodeId} (ends : other.EndsAbove id) :
    (forest.joined other).EndsAbove (id + forest.size) := by
  induction ends with
  | parentless none =>
      refine .parentless ?_
      rw [parentOf_joined_right, none, Option.map_none]
  | linked linked _ inductionHypothesis =>
      refine .linked ?_ inductionHypothesis
      rw [parentOf_joined_right, linked, Option.map_some]

/-- The lists of children and the links to parents agree in both arenas, and none goes
from one to the other. -/
theorem Sound.mem_childrenOf_joined_iff (sound : forest.Sound) (otherSound : other.Sound)
    (parent child : NodeId) :
    child ∈ (forest.joined other).childrenOf parent ↔
      (forest.joined other).parentOf child = some parent := by
  rcases lt_or_exists_add forest.size parent with parentInside | ⟨parent, rfl⟩
  · rw [childrenOf_joined_left forest other parentInside]
    rcases lt_or_exists_add forest.size child with childInside | ⟨child, rfl⟩
    · rw [parentOf_joined_left forest other childInside]
      exact sound.mem_childrenOf_iff parent child
    · rw [parentOf_joined_right]
      refine iff_of_false (fun member => ?_) (fun linked => ?_)
      · exact not_add_size_lt forest child (sound.child_lt member)
      · obtain ⟨owner, _, same⟩ := Option.map_eq_some_iff.mp linked
        exact not_add_size_lt forest owner (same ▸ parentInside)
  · rw [childrenOf_joined_right, List.mem_map]
    rcases lt_or_exists_add forest.size child with childInside | ⟨child, rfl⟩
    · rw [parentOf_joined_left forest other childInside]
      refine iff_of_false ?_ (fun linked => ?_)
      · rintro ⟨place, _, same⟩
        exact not_add_size_lt forest place (same ▸ childInside)
      · exact not_add_size_lt forest parent (sound.parent_lt linked)
    · rw [parentOf_joined_right, Option.map_eq_some_iff]
      constructor
      · rintro ⟨place, member, same⟩
        have samePlace : place = child := Nat.add_right_cancel same
        subst samePlace
        exact ⟨parent, (otherSound.mem_childrenOf_iff parent place).mp member, rfl⟩
      · rintro ⟨owner, linked, same⟩
        have sameOwner : owner = parent := Nat.add_right_cancel same
        subst sameOwner
        exact ⟨child, (otherSound.mem_childrenOf_iff owner child).mpr linked, rfl⟩

/-- Two sound forests make a sound one. -/
theorem Sound.joined (sound : forest.Sound) (otherSound : other.Sound) :
    (forest.joined other).Sound := by
  refine Sound.of_views ?_ ?_ ?_ ?_ ?_
  · intro root rooted
    rw [size_joined]
    exact Nat.lt_add_right _ (sound.root_lt root rooted)
  · exact sound.mem_childrenOf_joined_iff otherSound
  · intro parent
    rcases lt_or_exists_add forest.size parent with inside | ⟨parent, rfl⟩
    · rw [childrenOf_joined_left forest other inside]
      exact sound.nodup_childrenOf parent
    · rw [childrenOf_joined_right]
      exact (otherSound.nodup_childrenOf parent).map
        fun _ _ same => Nat.add_right_cancel same
  · intro id
    rcases lt_or_exists_add forest.size id with inside | ⟨id, rfl⟩
    · exact (sound.endsAbove id).joined_left sound.anchored inside
    · exact (otherSound.endsAbove id).joined_right
  · intro id kind known
    rcases lt_or_exists_add forest.size id with inside | ⟨id, rfl⟩
    · rw [kindOf_joined_left forest other inside] at known
      rw [childrenOf_joined_left forest other inside]
      exact sound.admits_childrenOf known
    · rw [kindOf_joined_right] at known
      rw [childrenOf_joined_right, List.length_map]
      exact otherSound.admits_childrenOf known

/-! ## Grafting -/

/-- The root of a forest, if it has one, is a node of the arena and nobody's
child. -/
def RootParentless (forest : Forest) : Prop :=
  ∀ root, forest.root = some root →
    root < forest.size ∧ forest.parentOf root = none

def unparented (forest : Forest) (id : NodeId) : Forest :=
  forest.modifyNode id fun node => { node with parent := none }

theorem unparented_eq_self {id : NodeId}
    (parentless : forest.parentOf id = none) : forest.unparented id = forest := by
  unfold unparented
  rw [modifyNode_eq_revise]
  apply revise_eq_self
  intro other node present
  by_cases same : other = id
  · subst same
    rw [if_pos rfl, ← parentless, parentOf_of_getElem? present]
  · rw [if_neg same]

theorem parentOf_unparented (forest : Forest) (id other : NodeId) :
    (forest.unparented id).parentOf other =
      if other = id then none else forest.parentOf other := by
  unfold unparented
  rw [modifyNode_eq_revise, parentOf_revise, parentOf]
  cases forest.nodes[other]? with
  | none => simp
  | some node => by_cases same : other = id <;> simp [same]

theorem childrenOf_unparented (forest : Forest) (id other : NodeId) :
    (forest.unparented id).childrenOf other = forest.childrenOf other := by
  unfold unparented
  rw [modifyNode_eq_revise, childrenOf_revise, childrenOf]
  cases forest.nodes[other]? with
  | none => rfl
  | some node => by_cases same : other = id <;> simp [same]

theorem kindOf_unparented (forest : Forest) (id other : NodeId) :
    (forest.unparented id).kindOf other = forest.kindOf other := by
  unfold unparented
  rw [modifyNode_eq_revise, kindOf_revise, kindOf]
  cases forest.nodes[other]? with
  | none => rfl
  | some node => by_cases same : other = id <;> simp [same]

theorem edit_graft_of_rootless (forest : Forest) (rootless : other.root = none) :
    forest.edit (Edit.graft other) = (.ok none, forest.joined other) := by
  unfold Edit.graft
  rw [edit_bind_of_ok _ (edit_get forest), edit_bind_of_ok _ (edit_modify _ _)]
  simp only [rootless]
  rfl

theorem edit_graft_of_root (forest : Forest) {root : NodeId}
    (rooted : other.root = some root) (inside : root < other.size) :
    forest.edit (Edit.graft other) =
      (.ok (some (root + forest.size)),
        (forest.joined other).unparented (root + forest.size)) := by
  have behind : root + forest.size < (forest.joined other).size := by
    rw [size_joined, Nat.add_comm]
    exact Nat.add_lt_add_left inside _
  unfold Edit.graft
  rw [edit_bind_of_ok _ (edit_get forest), edit_bind_of_ok _ (edit_modify _ _)]
  simp only [rooted]
  show (forest.joined other).edit _ = _
  rw [edit_bind_of_ok _ (edit_modifyNode behind _), edit_pure]
  rfl

/-- Grafting a forest whose root is nobody's child only puts it behind. -/
theorem edit_graft (forest : Forest) (free : other.RootParentless) :
    forest.edit (Edit.graft other) =
      (.ok (other.root.map (· + forest.size)), forest.joined other) := by
  cases rooted : other.root with
  | none => rw [edit_graft_of_rootless forest rooted, Option.map_none]
  | some root =>
      obtain ⟨inside, parentless⟩ := free root rooted
      have stillParentless :
          (forest.joined other).parentOf (root + forest.size) = none := by
        rw [parentOf_joined_right, parentless, Option.map_none]
      rw [edit_graft_of_root forest rooted inside,
        unparented_eq_self stillParentless, Option.map_some]

/-- A root that had a parent stays in its list, but does not name it any
more. -/
theorem not_linked_of_graft (forest : Forest) (otherSound : other.Sound)
    {root parent : NodeId} (rooted : other.root = some root)
    (linked : other.parentOf root = some parent) :
    root + forest.size ∈
        (forest.edit (Edit.graft other)).2.childrenOf (parent + forest.size) ∧
      (forest.edit (Edit.graft other)).2.parentOf (root + forest.size) = none := by
  rw [edit_graft_of_root forest rooted (otherSound.root_lt root rooted)]
  refine ⟨?_, (parentOf_unparented ..).trans (if_pos rfl)⟩
  rw [childrenOf_unparented, childrenOf_joined_right]
  exact List.mem_map_of_mem ((otherSound.mem_childrenOf_iff parent root).mpr linked)

end QueryForest.Forest
