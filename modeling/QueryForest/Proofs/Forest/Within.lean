import QueryForest.Proofs.Forest.Planting

/-!
# Branches within a branch

The branches within a branch are those at the nodes below it, each of them once
and in an order in which all children come before their parent.
-/

namespace QueryForest

namespace Branch

/-- What holds of a branch whenever it holds of its children holds of every
branch. -/
@[induction_eliminator]
theorem induction_children {motive : Branch → Prop}
    (node : ∀ (id : NodeId) (kind : Kind) (enclosing : Option Kind)
      (children : List Branch), (∀ child ∈ children, motive child) →
        motive (.node id kind enclosing children))
    (branch : Branch) : motive branch :=
  @Branch.rec motive (fun branches => ∀ child ∈ branches, motive child)
    (fun id kind enclosing children below => node id kind enclosing children below)
    (fun _ member => nomatch member)
    (fun _ _ ofHead ofTail child member => by
      rcases List.mem_cons.mp member with rfl | later
      · exact ofHead
      · exact ofTail child later)
    branch

theorem postOrder_eq (branch : Branch) :
    branch.postOrder = postOrderOfAll branch.children ++ [branch] := by
  cases branch with
  | node id kind enclosing children => rw [postOrder, Branch.children]

theorem postOrderOfAll_eq_flatMap (branches : List Branch) :
    postOrderOfAll branches = branches.flatMap postOrder := by
  induction branches with
  | nil => rfl
  | cons head tail inductionHypothesis =>
      rw [postOrderOfAll, inductionHypothesis, List.flatMap_cons]

theorem mem_postOrderOfAll {part : Branch} {branches : List Branch} :
    part ∈ postOrderOfAll branches ↔ ∃ branch ∈ branches, part ∈ branch.postOrder := by
  rw [postOrderOfAll_eq_flatMap, List.mem_flatMap]

theorem mem_postOrder {part branch : Branch} :
    part ∈ branch.postOrder ↔
      part = branch ∨ ∃ child ∈ branch.children, part ∈ child.postOrder := by
  rw [postOrder_eq, List.mem_append, mem_postOrderOfAll, List.mem_singleton, or_comm]

theorem self_mem_postOrder (branch : Branch) : branch ∈ branch.postOrder :=
  mem_postOrder.mpr (.inl rfl)

theorem mem_postOrder_of_child {part child branch : Branch}
    (member : child ∈ branch.children) (within : part ∈ child.postOrder) :
    part ∈ branch.postOrder :=
  mem_postOrder.mpr (.inr ⟨child, member, within⟩)

theorem mem_postOrder_of_mem_children {child branch : Branch}
    (member : child ∈ branch.children) : child ∈ branch.postOrder :=
  mem_postOrder_of_child member child.self_mem_postOrder

theorem mem_postOrder_trans {inner part branch : Branch} (innerMember : inner ∈ part.postOrder)
    (member : part ∈ branch.postOrder) : inner ∈ branch.postOrder := by
  induction branch with
  | node id kind enclosing children inductionHypothesis =>
      rcases mem_postOrder.mp member with rfl | ⟨child, childMember, within⟩
      · exact innerMember
      · exact mem_postOrder_of_child childMember
          (inductionHypothesis child childMember within)

/-- No node of a branch is of a kind that a user defines. -/
def IsBuiltIn (branch : Branch) : Prop :=
  ∀ part ∈ branch.postOrder, ∀ custom, part.kind ≠ .extension custom

theorem isBuiltIn_node {id : NodeId} {kind : Kind} {enclosing : Option Kind}
    {children : List Branch} :
    (node id kind enclosing children).IsBuiltIn ↔
      (∀ custom, kind ≠ .extension custom) ∧ ∀ child ∈ children, child.IsBuiltIn := by
  constructor
  · intro builtIn
    refine ⟨builtIn _ (self_mem_postOrder _), fun child member part within => ?_⟩
    exact builtIn part (mem_postOrder.mpr (.inr ⟨child, member, within⟩))
  · rintro ⟨own, below⟩ part within
    rcases mem_postOrder.mp within with rfl | ⟨child, member, inner⟩
    · exact own
    · exact below child member part inner

theorem IsBuiltIn.within {branch part : Branch} (builtIn : branch.IsBuiltIn)
    (member : part ∈ branch.postOrder) : part.IsBuiltIn :=
  fun inner innerMember => builtIn inner (mem_postOrder_trans innerMember member)

theorem IsBuiltIn.child {branch child : Branch} (builtIn : branch.IsBuiltIn)
    (member : child ∈ branch.children) : child.IsBuiltIn :=
  builtIn.within (mem_postOrder_of_mem_children member)

/-- The children of whatever stands somewhere in several post-orders stand
before it. -/
theorem mem_before_of_postOrderOfAll {branches : List Branch}
    (each : ∀ branch ∈ branches, ∀ before part after,
      branch.postOrder = before ++ part :: after → ∀ child ∈ part.children, child ∈ before)
    {before after : List Branch} {part : Branch}
    (placed : postOrderOfAll branches = before ++ part :: after) :
    ∀ child ∈ part.children, child ∈ before := by
  induction branches generalizing before with
  | nil => simp [postOrderOfAll] at placed
  | cons head tail inductionHypothesis =>
      rw [postOrderOfAll] at placed
      rcases List.append_eq_append_iff.mp placed with
        ⟨middle, rfl, rest⟩ | ⟨middle, headPlaced, rest⟩
      · have later := inductionHypothesis
          (fun branch member => each branch (List.mem_cons_of_mem head member)) rest
        exact fun child member => List.mem_append_right _ (later child member)
      · cases middle with
        | nil =>
            rw [List.append_nil] at headPlaced
            have later := inductionHypothesis
              (fun branch member => each branch (List.mem_cons_of_mem head member))
              (show postOrderOfAll tail = [] ++ part :: after from rest.symm)
            exact fun child member => nomatch later child member
        | cons first others =>
            obtain ⟨rfl, _⟩ := List.cons.inj rest
            exact each head List.mem_cons_self before part others headPlaced

/-- In a post-order the children of a branch stand before it. -/
theorem mem_before_of_postOrder (branch : Branch) :
    ∀ before part after, branch.postOrder = before ++ part :: after →
      ∀ child ∈ part.children, child ∈ before := by
  induction branch with
  | node id kind enclosing children inductionHypothesis =>
      intro before part after placed
      rw [postOrder] at placed
      rcases List.append_eq_append_iff.mp placed with
        ⟨middle, rfl, rest⟩ | ⟨middle, below, rest⟩
      · cases middle with
        | nil =>
            obtain ⟨rfl, _⟩ := List.cons.inj rest
            intro child member
            rw [List.append_nil]
            exact mem_postOrderOfAll.mpr ⟨child, member, child.self_mem_postOrder⟩
        | cons first others => simp at rest
      · cases middle with
        | nil =>
            obtain ⟨rfl, _⟩ := List.cons.inj rest
            intro child member
            rw [List.append_nil] at below
            rw [← below]
            exact mem_postOrderOfAll.mpr ⟨child, member, child.self_mem_postOrder⟩
        | cons first others =>
            obtain ⟨rfl, _⟩ := List.cons.inj rest
            exact mem_before_of_postOrderOfAll inductionHypothesis below

/-- Up to any place of a post-order, what is within a branch before the place is
before it as well. -/
theorem mem_before_of_mem_postOrder {branch : Branch} {before after : List Branch}
    (placed : branch.postOrder = before ++ after) {part inner : Branch}
    (member : part ∈ before) (within : inner ∈ part.postOrder) : inner ∈ before := by
  induction part with
  | node id kind enclosing children inductionHypothesis =>
      rcases mem_postOrder.mp within with rfl | ⟨child, childMember, below⟩
      · exact member
      · obtain ⟨first, second, rfl⟩ := List.append_of_mem member
        rw [List.append_assoc, List.cons_append] at placed
        have early := branch.mem_before_of_postOrder _ _ _ placed child childMember
        exact inductionHypothesis child childMember (List.mem_append_left _ early) below

end Branch

/-- Of two nodes above a third one is above the other. -/
theorem Forest.IsAbove.comparable {forest : Forest} {first second id : NodeId}
    (firstAbove : forest.IsAbove first id) (secondAbove : forest.IsAbove second id) :
    forest.IsAbove first second ∨ forest.IsAbove second first := by
  induction firstAbove with
  | self => exact .inr secondAbove
  | @linked id parent linked above inductionHypothesis =>
      by_cases same : second = id
      · subst same
        exact .inl (.linked linked above)
      · exact inductionHypothesis (secondAbove.parent_of_ne same linked)

namespace Branch.Mirrors

variable {forest : Forest}

theorem child_mirrors {branch child : Branch} (mirrors : branch.Mirrors forest)
    (member : child ∈ branch.children) : child.Mirrors forest := by
  cases mirrors with
  | node _ _ _ below => exact below child member

theorem childrenOf_id {branch : Branch} (mirrors : branch.Mirrors forest) :
    forest.childrenOf branch.id = branch.children.map Branch.id := by
  cases mirrors with
  | node _ _ listed _ => exact listed

theorem admits_children {branch : Branch} (mirrors : branch.Mirrors forest)
    (anchored : forest.Anchored) : branch.kind.arity.admits branch.children.length := by
  have admitted := anchored.admits mirrors.kindOf_id
  rwa [mirrors.childrenOf_id, List.length_map] at admitted

/-- A forest shows what is within a branch as it shows the branch. -/
theorem within {branch : Branch} (mirrors : branch.Mirrors forest) :
    ∀ part ∈ branch.postOrder, part.Mirrors forest := by
  induction branch with
  | node id kind enclosing children inductionHypothesis =>
      intro part member
      rcases mem_postOrder.mp member with rfl | ⟨child, childMember, within⟩
      · exact mirrors
      · exact inductionHypothesis child childMember
          (mirrors.child_mirrors childMember) part within

/-- The nodes within a branch are those below its own node. -/
theorem mem_names_iff {branch : Branch} (mirrors : branch.Mirrors forest)
    (sound : forest.Sound) {id : NodeId} :
    id ∈ branch.postOrder.map Branch.id ↔ forest.IsAbove branch.id id := by
  constructor
  · intro member
    obtain ⟨part, within, rfl⟩ := List.mem_map.mp member
    clear member
    induction branch with
    | node own kind enclosing children inductionHypothesis =>
        rcases mem_postOrder.mp within with rfl | ⟨child, childMember, below⟩
        · exact .self
        · have listed : child.id ∈ forest.childrenOf own := by
            rw [show own = (Branch.node own kind enclosing children).id from rfl,
              mirrors.childrenOf_id]
            exact List.mem_map_of_mem childMember
          have upper : forest.IsAbove own child.id :=
            .linked ((sound.mem_childrenOf_iff own child.id).mp listed) .self
          exact upper.trans (inductionHypothesis child childMember
            (mirrors.child_mirrors childMember) below)
  · intro above
    induction above with
    | self => exact List.mem_map_of_mem branch.self_mem_postOrder
    | @linked id parent linked _ inductionHypothesis =>
        obtain ⟨part, within, same⟩ := List.mem_map.mp inductionHypothesis
        have listed := (sound.mem_childrenOf_iff parent id).mpr linked
        rw [← same, (mirrors.within part within).childrenOf_id] at listed
        obtain ⟨child, childMember, rfl⟩ := List.mem_map.mp listed
        obtain ⟨before, after, placed⟩ := List.append_of_mem within
        have early := branch.mem_before_of_postOrder before part after placed child childMember
        rw [placed]
        exact List.mem_map_of_mem (List.mem_append_left _ early)

/-- Two nodes with one parent have nothing below them in common. -/
theorem disjoint_siblings {first second : Branch} (firstMirrors : first.Mirrors forest)
    (secondMirrors : second.Mirrors forest) (sound : forest.Sound) {parent : NodeId}
    (firstLinked : forest.parentOf first.id = some parent)
    (secondLinked : forest.parentOf second.id = some parent) (different : first.id ≠ second.id) :
    (first.postOrder.map Branch.id).Disjoint (second.postOrder.map Branch.id) := by
  intro id inFirst inSecond
  rw [firstMirrors.mem_names_iff sound] at inFirst
  rw [secondMirrors.mem_names_iff sound] at inSecond
  rcases inFirst.comparable inSecond with upper | upper
  · exact (sound.endsAbove first.id).not_isAbove_parent firstLinked
      (upper.parent_of_ne different secondLinked)
  · exact (sound.endsAbove second.id).not_isAbove_parent secondLinked
      (upper.parent_of_ne different.symm firstLinked)

/-- No node is twice within a branch. -/
theorem nodup_names {branch : Branch} (mirrors : branch.Mirrors forest)
    (sound : forest.Sound) : (branch.postOrder.map Branch.id).Nodup := by
  induction branch with
  | node id kind enclosing children inductionHypothesis =>
      have listed : forest.childrenOf id = children.map Branch.id := mirrors.childrenOf_id
      have linked : ∀ child ∈ children, forest.parentOf child.id = some id := by
        intro child member
        apply (sound.mem_childrenOf_iff id child.id).mp
        rw [listed]
        exact List.mem_map_of_mem member
      have siblings : (children.map Branch.id).Nodup := listed ▸ sound.nodup_childrenOf id
      rw [postOrder, postOrderOfAll_eq_flatMap, List.map_append, List.map_flatMap]
      refine List.nodup_append.mpr ⟨List.nodup_flatMap.mpr ⟨?_, ?_⟩, List.nodup_singleton _, ?_⟩
      · exact fun child member =>
          inductionHypothesis child member (mirrors.child_mirrors member)
      · refine (List.pairwise_map.mp siblings).imp_of_mem ?_
        intro first second firstMember secondMember different
        exact (mirrors.child_mirrors firstMember).disjoint_siblings
          (mirrors.child_mirrors secondMember) sound (linked first firstMember)
          (linked second secondMember) different
      · -- The node itself is not below any of its children.
        intro below member own ownMember
        obtain ⟨child, childMember, within⟩ := List.mem_flatMap.mp member
        rw [List.mem_singleton.mp ownMember]
        rintro rfl
        exact (sound.endsAbove child.id).not_isAbove_parent (linked child childMember)
          (((mirrors.child_mirrors childMember).mem_names_iff sound).mp within)

end Branch.Mirrors

namespace Forest

variable {forest : Forest}

theorem Sound.branch_of_mem_postOrder (sound : forest.Sound) {id : NodeId} {branch : Branch}
    (read : forest.branch id = .ok branch) {part : Branch} (within : part ∈ branch.postOrder) :
    forest.branch part.id = .ok part := by
  have mirrors := (mirrors_of_branchWithin read).2.within part within
  obtain ⟨found, foundRead, named, foundMirrors⟩ := sound.exists_branch mirrors.id_lt_size
  rw [foundRead, foundMirrors.unique mirrors named]

end Forest

end QueryForest
