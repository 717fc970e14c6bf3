import QueryForest.Proofs.Forest.Guard
import QueryForest.Proofs.Forest.Layout

/-!
# Moves keep forests anchored

Each move, as it is where lists may hold nodes that do not name their owner,
keeps a forest anchored.  Moves that only take links away are all alike: what is
still linked has to be still listed.  The others add one link, to a parent that
is not below the child, and list the child there.
-/

namespace QueryForest.Forest

variable {forest other : Forest}

namespace Anchored

/-- A forest stays anchored when lists get shorter and links fewer, as long as
whoever keeps its parent keeps its place there. -/
theorem of_fewer (anchored : forest.Anchored)
    (sameSize : other.size = forest.size)
    (sameRoot : ∀ root, other.root = some root → forest.root = some root)
    (shorter : ∀ id, (other.childrenOf id).Sublist (forest.childrenOf id))
    (fewer : ∀ child parent, other.parentOf child = some parent →
      forest.parentOf child = some parent)
    (keeps : ∀ {child parent}, other.parentOf child = some parent →
      child ∈ forest.childrenOf parent → child ∈ other.childrenOf parent)
    (sameArity : ∀ {id kind}, other.kindOf id = some kind →
      ∃ former, forest.kindOf id = some former ∧ former.arity = kind.arity) :
    other.Anchored where
  root_lt root rooted := by
    rw [sameSize]
    exact anchored.root_lt root (sameRoot root rooted)
  child_lt {parent child} member := by
    rw [sameSize]
    exact anchored.child_lt ((shorter parent).subset member)
  listed {child parent} linked :=
    keeps linked (anchored.listed (fewer child parent linked))
  endsAbove id := (anchored.endsAbove id).of_fewer fewer
  admits {id kind} known := by
    obtain ⟨former, formerKnown, same⟩ := sameArity known
    rw [← same]
    exact (anchored.admits formerKnown).mono (shorter id).length_le

theorem released (anchored : forest.Anchored) (child : NodeId) :
    (forest.released child).Anchored := by
  refine anchored.of_fewer (size_released ..) (fun _ rooted => rooted) ?_
    (fun id _ linked => (parentOf_of_released _ _ id linked).2) ?_ ?_
  · intro id
    rw [childrenOf_released]
    split
    · exact List.filter_sublist
    · exact .refl _
  · intro id parent linked member
    have different := (parentOf_of_released _ _ id linked).1
    rw [childrenOf_released]
    split
    · exact List.mem_filter.mpr ⟨member, bne_iff_ne.mpr different⟩
    · exact member
  · intro id kind known
    rw [kindOf_released] at known
    exact ⟨kind, known, rfl⟩

theorem cleared (anchored : forest.Anchored) (parent : NodeId) :
    (forest.cleared parent).Anchored := by
  refine anchored.of_fewer (size_cleared ..) (fun _ rooted => rooted) ?_
    (fun id _ linked => (parentOf_of_cleared _ _ id linked).2) ?_ ?_
  · intro id
    rw [childrenOf_cleared]
    split
    · exact List.nil_sublist _
    · exact .refl _
  · intro child owner linked member
    have different : owner ≠ parent := by
      rintro rfl
      exact (parentOf_of_cleared _ _ child linked).1 member
    rwa [childrenOf_cleared, if_neg different]
  · intro id kind known
    rw [kindOf_cleared] at known
    exact ⟨kind, known, rfl⟩

theorem unparented (anchored : forest.Anchored) (id : NodeId) :
    (forest.unparented id).Anchored := by
  refine anchored.of_fewer (size_modifyNode ..) (fun _ rooted => rooted) ?_ ?_ ?_ ?_
  · intro other
    rw [childrenOf_unparented]
  · intro child parent linked
    rw [parentOf_unparented] at linked
    by_cases same : child = id
    · rw [if_pos same] at linked
      cases linked
    · rwa [if_neg same] at linked
  · intro child parent _ member
    rwa [childrenOf_unparented]
  · intro other kind known
    rw [kindOf_unparented] at known
    exact ⟨kind, known, rfl⟩

theorem rekinded (anchored : forest.Anchored) (id : NodeId) {change : Kind → Kind}
    (sameArity : ∀ kind, (change kind).arity = kind.arity) :
    (forest.rekinded id change).Anchored := by
  refine anchored.of_fewer (size_rekinded ..) (fun _ rooted => rooted) ?_ ?_ ?_ ?_
  · intro other
    rw [childrenOf_rekinded]
  · intro child parent linked
    rwa [parentOf_rekinded] at linked
  · intro child parent _ member
    rwa [childrenOf_rekinded]
  · intro other kind known
    rw [kindOf_rekinded] at known
    obtain ⟨former, formerKnown, becomes⟩ := Option.map_eq_some_iff.mp known
    refine ⟨former, formerKnown, ?_⟩
    rw [← becomes]
    split
    · exact (sameArity former).symm
    · rfl

theorem bound (anchored : forest.Anchored) (parent child : NodeId) :
    (forest.bound parent child).Anchored :=
  anchored.rekinded child (Kind.arity_bound _)

theorem unrooted (anchored : forest.Anchored) (id : NodeId) :
    (forest.unrooted id).Anchored := by
  refine anchored.of_fewer rfl ?_ (fun _ => .refl _) (fun _ _ linked => linked)
    (fun _ member => member) (fun known => ⟨_, known, rfl⟩)
  intro root rooted
  have kept : (if forest.root = some id then none else forest.root) = some root := rooted
  by_cases same : forest.root = some id
  · rw [if_pos same] at kept
    cases kept
  · rwa [if_neg same] at kept

theorem rooted (anchored : forest.Anchored) {root : NodeId} (inside : root < forest.size) :
    ({ forest with root := some root } : Forest).Anchored where
  root_lt other rooted := by
    cases rooted
    exact inside
  child_lt := anchored.child_lt
  listed := anchored.listed
  endsAbove id := (anchored.endsAbove id).of_fewer fun _ _ linked => linked
  admits := anchored.admits

/-- A node can go to a parent that is not below it and has room for it, wherever
else it is listed. -/
theorem attached (anchored : forest.Anchored) {parent child : NodeId}
    (parentInside : parent < forest.size) (childInside : child < forest.size)
    (apart : ¬ forest.IsAbove child parent)
    (room : ∀ kind, forest.kindOf parent = some kind →
      kind.arity.admits ((forest.childrenOf parent).length + 1)) :
    (forest.attached parent child).Anchored where
  root_lt root rooted := by
    rw [size_attached]
    exact (anchored.unrooted child).root_lt root rooted
  child_lt {owner id} member := by
    rw [childrenOf_attached _ _ _ _ parentInside] at member
    rw [size_attached]
    rcases List.mem_append.mp member with old | new
    · exact anchored.child_lt old
    · by_cases isParent : owner = parent
      · rw [if_pos isParent] at new
        rwa [List.mem_singleton.mp new]
      · rw [if_neg isParent] at new
        exact absurd new List.not_mem_nil
  listed {id owner} linked := by
    rw [parentOf_attached _ _ _ _ childInside] at linked
    rw [childrenOf_attached _ _ _ _ parentInside]
    by_cases isChild : id = child
    · rw [if_pos isChild] at linked
      cases linked
      rw [if_pos rfl, isChild]
      exact List.mem_append_right _ (List.mem_singleton_self child)
    · rw [if_neg isChild] at linked
      exact List.mem_append_left _ (anchored.listed linked)
  endsAbove := by
    apply endsAbove_of_moved anchored.endsAbove apart
    intro id owner linked
    rw [parentOf_attached _ _ _ _ childInside] at linked
    exact parentOf_of_placement linked
  admits {id kind} known := by
    rw [kindOf_attached] at known
    rw [childrenOf_attached _ _ _ _ parentInside, List.length_append]
    by_cases isParent : id = parent
    · subst isParent
      rw [if_pos rfl, List.length_singleton]
      exact room kind known
    · rw [if_neg isParent, List.length_nil, Nat.add_zero]
      exact anchored.admits known

/-- Writing into one place of a list keeps what stands in others. -/
theorem mem_set_of_ne {list : List NodeId} {place : Nat} {item : NodeId} (written : NodeId)
    (inside : place < list.length) (different : item ≠ list[place]) (member : item ∈ list) :
    item ∈ list.set place written := by
  obtain ⟨index, indexInside, there⟩ := List.mem_iff_getElem.mp member
  have elsewhere : place ≠ index := by
    rintro rfl
    exact different there.symm
  refine List.mem_iff_getElem.mpr ⟨index, by rwa [List.length_set], ?_⟩
  rw [List.getElem_set_ne elsewhere, there]

/-- A node can take a place where a child of a node stands that is not below
it.  The child may stand there twice: its other place becomes a stale one. -/
theorem supplanted (anchored : forest.Anchored)
    {parent former replacement place : NodeId} (inside : replacement < forest.size)
    (apart : ¬ forest.IsAbove replacement parent)
    (found : (forest.childrenOf parent).idxOf? former = some place) :
    (forest.supplanted parent former replacement place).Anchored where
  root_lt root rooted := by
    rw [size_supplanted]
    exact anchored.root_lt root rooted
  child_lt {owner id} member := by
    rw [childrenOf_supplanted] at member
    rw [size_supplanted]
    by_cases isParent : owner = parent
    · rw [if_pos isParent] at member
      rcases List.mem_or_eq_of_mem_set member with old | rfl
      · exact anchored.child_lt old
      · exact inside
    · rw [if_neg isParent] at member
      exact anchored.child_lt member
  listed {id owner} linked := by
    obtain ⟨placeInside, stands, _⟩ := List.idxOf?_eq_some_iff.mp found
    rw [parentOf_supplanted _ _ _ _ _ _ inside] at linked
    rw [childrenOf_supplanted]
    by_cases isFormer : id = former
    · rw [if_pos isFormer] at linked
      cases linked
    rw [if_neg isFormer] at linked
    by_cases isReplacement : id = replacement
    · rw [if_pos isReplacement] at linked
      cases linked
      rw [if_pos rfl, isReplacement]
      exact List.mem_set placeInside replacement
    rw [if_neg isReplacement] at linked
    have member := anchored.listed linked
    by_cases isParent : owner = parent
    · subst isParent
      rw [if_pos rfl]
      exact mem_set_of_ne replacement placeInside (stands.symm ▸ isFormer) member
    · rwa [if_neg isParent]
  endsAbove := by
    apply endsAbove_of_moved anchored.endsAbove apart
    intro id owner linked
    rw [parentOf_supplanted _ _ _ _ _ _ inside] at linked
    exact parentOf_of_exchange linked
  admits {id kind} known := by
    rw [kindOf_supplanted] at known
    rw [childrenOf_supplanted]
    split
    · rw [List.length_set]
      exact anchored.admits known
    · exact anchored.admits known

theorem push (anchored : forest.Anchored) (kind : Kind) : (forest.push kind).Anchored where
  root_lt root rooted := by
    rw [size_push]
    exact Nat.lt_succ_of_lt (anchored.root_lt root rooted)
  child_lt member := by
    rw [childrenOf_push] at member
    rw [size_push]
    exact Nat.lt_succ_of_lt (anchored.child_lt member)
  listed linked := by
    rw [parentOf_push] at linked
    rw [childrenOf_push]
    exact anchored.listed linked
  endsAbove id := (anchored.endsAbove id).congr (parentOf_push forest kind)
  admits {id found} known := by
    rw [childrenOf_push]
    by_cases inside : id < forest.size
    · rw [kindOf_push_of_lt inside] at known
      exact anchored.admits known
    · rw [childrenOf, getElem?_of_not_lt inside]
      exact Arity.admits_zero _

/-- Two anchored forests make an anchored one. -/
theorem joined (anchored : forest.Anchored) (otherAnchored : other.Anchored) :
    (forest.joined other).Anchored where
  root_lt root rooted := by
    rw [size_joined]
    exact Nat.lt_add_right _ (anchored.root_lt root rooted)
  child_lt {parent child} member := by
    rw [size_joined]
    rcases lt_or_exists_add forest.size parent with inside | ⟨parent, rfl⟩
    · rw [childrenOf_joined_left forest other inside] at member
      exact Nat.lt_add_right _ (anchored.child_lt member)
    · rw [childrenOf_joined_right] at member
      obtain ⟨former, formerMember, rfl⟩ := List.mem_map.mp member
      rw [Nat.add_comm forest.size]
      exact Nat.add_lt_add_right (otherAnchored.child_lt formerMember) _
  listed {child parent} linked := by
    rcases lt_or_exists_add forest.size child with inside | ⟨child, rfl⟩
    · rw [parentOf_joined_left forest other inside] at linked
      rw [childrenOf_joined_left forest other (anchored.parent_lt linked)]
      exact anchored.listed linked
    · rw [parentOf_joined_right] at linked
      obtain ⟨former, formerLinked, rfl⟩ := Option.map_eq_some_iff.mp linked
      rw [childrenOf_joined_right]
      exact List.mem_map_of_mem (otherAnchored.listed formerLinked)
  endsAbove id := by
    rcases lt_or_exists_add forest.size id with inside | ⟨id, rfl⟩
    · exact (anchored.endsAbove id).joined_left anchored inside
    · exact (otherAnchored.endsAbove id).joined_right
  admits {id kind} known := by
    rcases lt_or_exists_add forest.size id with inside | ⟨id, rfl⟩
    · rw [kindOf_joined_left forest other inside] at known
      rw [childrenOf_joined_left forest other inside]
      exact anchored.admits known
    · rw [kindOf_joined_right] at known
      rw [childrenOf_joined_right, List.length_map]
      exact otherAnchored.admits known

end Anchored

end QueryForest.Forest
