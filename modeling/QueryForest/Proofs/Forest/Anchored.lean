import QueryForest.Proofs.Forest.Revision

/-!
# Anchored forests

In an anchored forest every node that names a parent stands in the list of that
parent, and every way up ends.  The other direction is left open: a list may
hold a node that names another parent or none, and may hold a node twice.  This
half of soundness is what climbing and replacing rely on.
-/

namespace QueryForest.Forest

/-- Every link to a parent is answered by the list of that parent. -/
structure Anchored (forest : Forest) : Prop where
  root_lt : ∀ root, forest.root = some root → root < forest.size
  child_lt : ∀ {parent child}, child ∈ forest.childrenOf parent → child < forest.size
  listed : ∀ {child parent}, forest.parentOf child = some parent →
    child ∈ forest.childrenOf parent
  endsAbove : ∀ id, forest.EndsAbove id
  admits : ∀ {id kind}, forest.kindOf id = some kind →
    kind.arity.admits (forest.childrenOf id).length

variable {forest : Forest}

theorem Anchored.parent_lt (anchored : forest.Anchored) {id parent : NodeId}
    (linked : forest.parentOf id = some parent) : parent < forest.size :=
  lt_size_of_mem_childrenOf (anchored.listed linked)

namespace Sound

theorem parent_lt (sound : forest.Sound) {id parent : NodeId}
    (linked : forest.parentOf id = some parent) : parent < forest.size :=
  lt_size_of_mem_childrenOf ((sound.mem_childrenOf_iff parent id).mpr linked)

theorem child_lt (sound : forest.Sound) {parent child : NodeId}
    (member : child ∈ forest.childrenOf parent) : child < forest.size :=
  lt_size_of_parentOf ((sound.mem_childrenOf_iff parent child).mp member)

theorem admits_childrenOf (sound : forest.Sound) {id : NodeId} {kind : Kind}
    (known : forest.kindOf id = some kind) :
    kind.arity.admits (forest.childrenOf id).length := by
  obtain ⟨node, present, rfl⟩ := Option.map_eq_some_iff.mp known
  rw [childrenOf_of_getElem? present]
  exact sound.admits id node present

theorem anchored (sound : forest.Sound) : forest.Anchored where
  root_lt := sound.root_lt
  child_lt := sound.child_lt
  listed linked := (sound.mem_childrenOf_iff _ _).mpr linked
  endsAbove := sound.endsAbove
  admits := sound.admits_childrenOf

end Sound

end QueryForest.Forest
