import QueryForest.Proofs.Forest.Step
import QueryForest.Proofs.Forest.Within

/-!
# Taking a group away

When the only child of a group takes the place of the group, every other node
keeps its kind and its children, except that the child stands where the group
stood.  So a branch of the forest has a counterpart that differs from it in nothing
but the place of the group.
-/

namespace QueryForest

namespace Forest

/-- The node that stands in the place of another one once a group has been replaced
by its child. -/
def successor (group child id : NodeId) : NodeId :=
  if id = group then child else id

/-- A group is replaced by its child: nothing changes but what stands in its
place. -/
structure Ungroups (forest after : Forest) (group child : NodeId) : Prop where
  kindOf : ∀ id, after.kindOf id = forest.kindOf id
  childrenOf : ∀ id, id ≠ group →
    after.childrenOf id = (forest.childrenOf id).map (successor group child)
  root : after.root = forest.root.map (successor group child)

variable {forest : Forest} {group child : NodeId}

structure IsGroupOver (forest : Forest) (group child : NodeId) : Prop where
  kindOf : forest.kindOf group = some (.wrapper .group)
  listed : child ∈ forest.childrenOf group

namespace IsGroupOver

theorem linked (wraps : forest.IsGroupOver group child) (sound : forest.Sound) :
    forest.parentOf child = some group :=
  (sound.mem_childrenOf_iff group child).mp wraps.listed

theorem childrenOf (wraps : forest.IsGroupOver group child) (sound : forest.Sound) :
    forest.childrenOf group = [child] := by
  have few : (forest.childrenOf group).length ≤ 1 := sound.admits_childrenOf wraps.kindOf
  obtain ⟨only, alone⟩ := List.length_eq_one_iff.mp
    (Nat.le_antisymm few (List.length_pos_of_mem wraps.listed))
  have listed := wraps.listed
  rw [alone, List.mem_singleton] at listed
  rw [alone, listed]

theorem different (wraps : forest.IsGroupOver group child) (sound : forest.Sound) :
    group ≠ child := by
  rintro rfl
  exact (sound.endsAbove group).not_isAbove_parent (wraps.linked sound) .self

theorem inside (wraps : forest.IsGroupOver group child) (sound : forest.Sound) :
    child < forest.size :=
  lt_size_of_parentOf (wraps.linked sound)

/-- No other node lists the child. -/
theorem filter_childrenOf (wraps : forest.IsGroupOver group child) (sound : forest.Sound)
    {id : NodeId} (apart : id ≠ group) :
    (forest.childrenOf id).filter (· != child) = forest.childrenOf id := by
  apply List.filter_eq_self.mpr
  intro other member
  have listed := (sound.mem_childrenOf_iff id other).mp member
  have different : other ≠ child := by
    rintro rfl
    rw [wraps.linked sound] at listed
    exact apart (Option.some.inj listed).symm
  simpa using different

theorem canSubstitute (wraps : forest.IsGroupOver group child) (sound : forest.Sound)
    {parent : NodeId} (placed : forest.parentOf group = some parent) :
    forest.CanSubstitute parent group child where
  different := wraps.different sound
  linked := placed
  inside := wraps.inside sound
  apart above := (sound.endsAbove child).not_isAbove_parent (wraps.linked sound)
    (.linked placed above)

end IsGroupOver

theorem map_successor_of_not_mem {ids : List NodeId} (absent : group ∉ ids) :
    ids.map (successor group child) = ids := by
  refine (List.map_congr_left fun id member => ?_).trans (List.map_id ids)
  apply if_neg
  rintro rfl
  exact absent member

/-- Below a parent that is no proximity node the child takes the place of the group,
and that is all. -/
theorem IsGroupOver.ungroups_substituted (wraps : forest.IsGroupOver group child)
    (sound : forest.Sound) {parent : NodeId} (placed : forest.parentOf group = some parent)
    (lendsNothing : forest.proximityOf parent = none) (notRoot : forest.root ≠ some group) :
    forest.Ungroups ((forest.substituted parent group child).bound parent child) group child where
  kindOf id := by
    have near : (forest.substituted parent group child).proximityOf parent = none := by
      unfold proximityOf
      rw [kindOf_substituted]
      exact lendsNothing
    rw [kindOf_bound, kindOf_substituted, near]
    simp only [Kind.bound, ite_self, Option.map_id']
  childrenOf id apart := by
    rw [childrenOf_bound, childrenOf_substituted, wraps.filter_childrenOf sound apart]
    by_cases isParent : id = parent
    · rw [if_pos isParent]
      rfl
    · rw [if_neg isParent, map_successor_of_not_mem]
      intro member
      rw [sound.mem_childrenOf_iff, placed] at member
      exact isParent (Option.some.inj member).symm
  root := by
    show forest.root = forest.root.map (successor group child)
    cases rooted : forest.root with
    | none => rfl
    | some root =>
        have apart : root ≠ group := fun same => notRoot (rooted.trans (congrArg some same))
        rw [Option.map_some, successor, if_neg apart]

/-- At the root the child becomes the root. -/
theorem IsGroupOver.ungroups_rooted (wraps : forest.IsGroupOver group child)
    (sound : forest.Sound) (rooted : forest.root = some group)
    (parentless : forest.parentOf group = none) :
    forest.Ungroups { forest.severed child with root := some child } group child where
  kindOf id := kindOf_severed forest child id
  childrenOf id apart := by
    have kept : (forest.severed child).childrenOf id = forest.childrenOf id := by
      rw [childrenOf_severed, wraps.filter_childrenOf sound apart]
    rw [map_successor_of_not_mem]
    · exact kept
    · exact sound.not_mem_childrenOf_of_parentless parentless id
  root := by
    rw [rooted, Option.map_some, successor, if_pos rfl]

end Forest

end QueryForest
