import QueryForest.Proofs.Forest.Adoption

/-!
# Branches behind a forest

A tree that is built from its leaves up takes the names behind those of the
forest in post-order, and the forest before it stays as it is.  Building puts
finished branches side by side, and then one node above them.
-/

namespace QueryForest

namespace Branch

/-- A branch below a node of some kind, whose field its own term takes over. -/
def under (kind : Kind) : Branch → Branch
  | .node id own _ children => .node id (own.bound kind.proximity?) (some kind) children

/-- A node over branches that take the names from a place on. -/
def atop (start : NodeId) (kind : Kind) (children : List Branch) : Branch :=
  .node (start + sizeOfAll children) kind none (children.map (under kind))

theorem id_under (kind : Kind) (branch : Branch) : (branch.under kind).id = branch.id := by
  cases branch with
  | node id own enclosing children => rfl

theorem size_under (kind : Kind) (branch : Branch) :
    (branch.under kind).size = branch.size := by
  cases branch with
  | node id own enclosing children => rw [under, size, size]

theorem names_under (kind : Kind) (branch : Branch) :
    (branch.under kind).postOrder.map id = branch.postOrder.map id := by
  cases branch with
  | node id own enclosing children =>
      rw [under, postOrder, postOrder, List.map_append, List.map_append]
      rfl

theorem map_id_under (kind : Kind) (branches : List Branch) :
    (branches.map (under kind)).map id = branches.map id := by
  rw [List.map_map]
  exact List.map_congr_left fun branch _ => id_under kind branch

theorem sizeOfAll_under (kind : Kind) (branches : List Branch) :
    sizeOfAll (branches.map (under kind)) = sizeOfAll branches := by
  induction branches with
  | nil => rfl
  | cons head tail inductionHypothesis =>
      rw [List.map_cons, sizeOfAll, sizeOfAll, size_under, inductionHypothesis]

theorem namesOfAll_under (kind : Kind) (branches : List Branch) :
    (postOrderOfAll (branches.map (under kind))).map id =
      (postOrderOfAll branches).map id := by
  induction branches with
  | nil => rfl
  | cons head tail inductionHypothesis =>
      rw [List.map_cons, postOrderOfAll, postOrderOfAll, List.map_append,
        List.map_append, names_under, inductionHypothesis]

theorem postOrderOfAll_append (first second : List Branch) :
    postOrderOfAll (first ++ second) = postOrderOfAll first ++ postOrderOfAll second := by
  induction first with
  | nil => rfl
  | cons head tail inductionHypothesis =>
      rw [List.cons_append, postOrderOfAll, postOrderOfAll, inductionHypothesis,
        List.append_assoc]

theorem sizeOfAll_append (first second : List Branch) :
    sizeOfAll (first ++ second) = sizeOfAll first + sizeOfAll second := by
  induction first with
  | nil => rw [List.nil_append, sizeOfAll, Nat.zero_add]
  | cons head tail inductionHypothesis =>
      rw [List.cons_append, sizeOfAll, sizeOfAll, inductionHypothesis, Nat.add_assoc]

theorem id_mem_names (branch : Branch) : [branch.id].Sublist (branch.postOrder.map id) := by
  cases branch with
  | node own kind enclosing children =>
      rw [postOrder, List.map_append]
      exact List.sublist_append_right ..

theorem ids_sublist_names (branches : List Branch) :
    (branches.map id).Sublist ((postOrderOfAll branches).map id) := by
  induction branches with
  | nil => exact .slnil
  | cons head tail inductionHypothesis =>
      rw [List.map_cons, postOrderOfAll, List.map_append]
      exact head.id_mem_names.append inductionHypothesis

end Branch

namespace Branch.Mirrors

variable {forest after : Forest}

theorem kindOf_id {branch : Branch} (mirrors : branch.Mirrors forest) :
    forest.kindOf branch.id = some branch.kind := by
  cases mirrors with
  | node known _ _ _ => exact known

theorem id_lt_size {branch : Branch} (mirrors : branch.Mirrors forest) :
    branch.id < forest.size := by
  obtain ⟨node, present, _⟩ := Option.map_eq_some_iff.mp mirrors.kindOf_id
  exact Forest.lt_size_of_getElem? present

/-- What a branch shows is determined by the forest and its name. -/
theorem unique {first second : Branch} (mirrors : first.Mirrors forest)
    (others : second.Mirrors forest) (named : first.id = second.id) :
    first = second := by
  induction mirrors generalizing second with
  | @node id kind enclosing children known around listed _ inductionHypothesis =>
      cases others with
      | @node other otherKind otherEnclosing otherChildren otherKnown otherAround
          otherListed otherBelow =>
          change id = other at named
          subst named
          rw [listed] at otherListed
          have sameKind : kind = otherKind := by
            rw [known] at otherKnown
            exact Option.some.inj otherKnown
          have sameEnclosing : enclosing = otherEnclosing := around.symm.trans otherAround
          have sameChildren : children = otherChildren := by
            refine List.ext_getElem ?_ fun place inside otherInside => ?_
            · simpa using congrArg List.length otherListed
            · refine inductionHypothesis _ (List.getElem_mem inside)
                (otherBelow _ (List.getElem_mem otherInside)) ?_
              have ids := congrArg (·[place]?) otherListed
              simpa [inside, otherInside] using ids
          rw [sameKind, sameEnclosing, sameChildren]

/-- Nodes behind a sound forest change no branch of it. -/
theorem grown (sound : forest.Sound)
    (kept : ∀ id : NodeId, id < forest.size → after.nodes[id]? = forest.nodes[id]?)
    {branch : Branch} (mirrors : branch.Mirrors forest) : branch.Mirrors after := by
  induction mirrors with
  | @node id kind enclosing children known around listed _ inductionHypothesis =>
      obtain ⟨node, present, _⟩ := Option.map_eq_some_iff.mp known
      have same := kept id (Forest.lt_size_of_getElem? present)
      refine .node ?_ ?_ ?_ inductionHypothesis
      · rw [Forest.kindOf, same]
        exact known
      · rw [Forest.parentOf, same]
        refine Eq.trans ?_ around
        cases linked : forest.parentOf id with
        | none =>
            rw [Forest.parentOf] at linked
            rw [linked]
            rfl
        | some parent =>
            have parentSame := kept parent (sound.parent_lt linked)
            rw [Forest.parentOf] at linked
            rw [linked]
            show after.kindOf parent = forest.kindOf parent
            rw [Forest.kindOf, Forest.kindOf, parentSame]
      · rw [Forest.childrenOf, same]
        exact listed

/-- Adopting unowned nodes changes no branch below another node. -/
theorem below_adopted (sound : forest.Sound) {kind : Kind} {children : List NodeId}
    (unowned : forest.Unowned children) {branch : Branch}
    (mirrors : branch.Mirrors forest) {parent : NodeId}
    (linked : forest.parentOf branch.id = some parent)
    (sameKind : (forest.adopted kind children).kindOf parent = forest.kindOf parent) :
    branch.Mirrors (forest.adopted kind children) := by
  induction mirrors generalizing parent with
  | @node id own enclosing grandchildren known around listed below inductionHypothesis =>
      change forest.parentOf id = some parent at linked
      have apart : id ∉ children := by
        intro member
        rw [unowned.parentless id member] at linked
        cases linked
      have same : (forest.adopted kind children).nodes[id]? = forest.nodes[id]? :=
        Forest.getElem?_adopted_other apart (Forest.lt_size_of_parentOf linked)
      have ownSame : (forest.adopted kind children).kindOf id = forest.kindOf id := by
        rw [Forest.kindOf, same, Forest.kindOf]
      refine .node (ownSame.trans known) ?_ ?_ fun child member => ?_
      · have linkedAfter : (forest.adopted kind children).parentOf id = some parent := by
          rw [Forest.parentOf, same]
          exact linked
        rw [linkedAfter, Option.bind_some, sameKind]
        rwa [linked, Option.bind_some] at around
      · rw [Forest.childrenOf, same]
        exact listed
      · refine inductionHypothesis child member ?_ ownSame
        apply (sound.mem_childrenOf_iff id child.id).mp
        rw [listed]
        exact List.mem_map_of_mem member

/-- A branch without a parent is adopted as one below the new node. -/
theorem adopted (sound : forest.Sound) {kind : Kind} {children : List NodeId}
    (unowned : forest.Unowned children) {branch : Branch}
    (mirrors : branch.Mirrors forest) (member : branch.id ∈ children) :
    (branch.under kind).Mirrors (forest.adopted kind children) := by
  cases mirrors with
  | @node id own enclosing grandchildren known around listed below =>
      change id ∈ children at member
      obtain ⟨node, present, sameKind⟩ := Option.map_eq_some_iff.mp known
      have self : (forest.adopted kind children).nodes[forest.size]? =
          some { kind, children } :=
        Forest.getElem?_adopted_self unowned.inside
      have there : (forest.adopted kind children).nodes[id]? = some { node with
          kind := node.kind.bound kind.proximity?
          parent := some forest.size } :=
        Forest.getElem?_adopted_child member (unowned.inside id member) present
      rw [sameKind] at there
      rw [Branch.under]
      refine .node (Forest.kindOf_of_getElem? there) ?_ ?_ fun child grandchild => ?_
      · rw [Forest.parentOf_of_getElem? there]
        exact Forest.kindOf_of_getElem? self
      · rw [Forest.childrenOf_of_getElem? there, ← listed,
          Forest.childrenOf_of_getElem? present]
      · have childListed : child.id ∈ forest.childrenOf id := by
          rw [listed]
          exact List.mem_map_of_mem grandchild
        refine (below child grandchild).below_adopted sound unowned
          ((sound.mem_childrenOf_iff id child.id).mp childListed) ?_
        -- Only leaves are changed by being bound, and they have no children.
        rw [Forest.kindOf_of_getElem? there, known]
        cases own with
        | leaf bottom =>
            have childless : (forest.childrenOf id).length = 0 :=
              sound.admits_childrenOf known
            rw [List.eq_nil_of_length_eq_zero childless] at childListed
            cases childListed
        | wrapper inner => cases kind.proximity? <;> rfl
        | composite inner => cases kind.proximity? <;> rfl
        | extension inner => cases kind.proximity? <;> rfl

end Branch.Mirrors

namespace Forest

variable {forest middle after : Forest} {branches others : List Branch}

/-- Branches without a parent stand behind a forest, and nothing else does. -/
structure Planted (forest after : Forest) (branches : List Branch) : Prop where
  root : after.root = forest.root
  size : after.size = forest.size + Branch.sizeOfAll branches
  kept : ∀ id : NodeId, id < forest.size → after.nodes[id]? = forest.nodes[id]?
  names : (Branch.postOrderOfAll branches).map Branch.id =
    List.range' forest.size (Branch.sizeOfAll branches)
  mirrors : ∀ branch ∈ branches, branch.Mirrors after
  parentless : ∀ branch ∈ branches, after.parentOf branch.id = none

namespace Planted

theorem nil (forest : Forest) : forest.Planted forest [] where
  root := rfl
  size := rfl
  kept _ _ := rfl
  names := rfl
  mirrors _ member := nomatch member
  parentless _ member := nomatch member

theorem append (first : forest.Planted middle branches) (sound : middle.Sound)
    (second : middle.Planted after others) :
    forest.Planted after (branches ++ others) where
  root := second.root.trans first.root
  size := by rw [second.size, first.size, Branch.sizeOfAll_append, Nat.add_assoc]
  kept id inside := by
    have further : id < middle.size := by
      rw [first.size]
      exact Nat.lt_add_right _ inside
    exact (second.kept id further).trans (first.kept id inside)
  names := by
    rw [Branch.postOrderOfAll_append, List.map_append, first.names, second.names,
      first.size, Branch.sizeOfAll_append, List.range'_append_1]
  mirrors branch member := by
    rcases List.mem_append.mp member with early | late
    · exact (first.mirrors branch early).grown sound second.kept
    · exact second.mirrors branch late
  parentless branch member := by
    rcases List.mem_append.mp member with early | late
    · have inside := (first.mirrors branch early).id_lt_size
      have parentless := first.parentless branch early
      rw [parentOf] at parentless
      rw [parentOf, second.kept branch.id inside, parentless]
    · exact second.parentless branch late

/-- Planted branches can be adopted. -/
theorem unowned (planted : forest.Planted after branches) (sound : forest.Sound) :
    after.Unowned (branches.map Branch.id) := by
  have listed : ∀ id ∈ branches.map Branch.id,
      id ∈ List.range' forest.size (Branch.sizeOfAll branches) := by
    intro id member
    rw [← planted.names]
    exact (Branch.ids_sublist_names branches).subset member
  refine ⟨fun id member => ?_, fun id member => ?_, fun id member rooted => ?_, ?_⟩
  · obtain ⟨branch, among, rfl⟩ := List.mem_map.mp member
    exact (planted.mirrors branch among).id_lt_size
  · obtain ⟨branch, among, rfl⟩ := List.mem_map.mp member
    exact planted.parentless branch among
  · rw [planted.root] at rooted
    have before := sound.root_lt id rooted
    have behind := (List.mem_range'_1.mp (listed id member)).1
    exact Nat.not_lt.mpr behind before
  · apply (Branch.ids_sublist_names branches).nodup
    rw [planted.names]
    exact List.nodup_range'

/-- A node over planted branches is planted with them. -/
theorem adopted (planted : forest.Planted after branches) (sound : forest.Sound)
    (afterSound : after.Sound) (kind : Kind) :
    forest.Planted (after.adopted kind (branches.map Branch.id))
      [.atop forest.size kind branches] where
  root := planted.root
  size := by
    rw [size_adopted, planted.size, Branch.sizeOfAll, Branch.sizeOfAll, Branch.atop,
      Branch.size, Branch.sizeOfAll_under]
    rfl
  kept id inside := by
    have further : id < after.size := by
      rw [planted.size]
      exact Nat.lt_add_right _ inside
    have apart : id ∉ branches.map Branch.id := by
      intro member
      have listed := (Branch.ids_sublist_names branches).subset member
      rw [planted.names] at listed
      exact Nat.not_lt.mpr (List.mem_range'_1.mp listed).1 inside
    rw [getElem?_adopted_other apart further]
    exact planted.kept id inside
  names := by
    rw [Branch.postOrderOfAll, Branch.postOrderOfAll, List.append_nil, Branch.atop,
      Branch.postOrder, List.map_append, Branch.namesOfAll_under, planted.names,
      Branch.sizeOfAll, Branch.sizeOfAll, Branch.size, Branch.sizeOfAll_under,
      Nat.add_zero, List.range'_1_concat]
    rfl
  mirrors branch member := by
    have unowned := planted.unowned sound
    have self : (after.adopted kind (branches.map Branch.id)).nodes[after.size]? =
        some { kind, children := branches.map Branch.id } :=
      getElem?_adopted_self unowned.inside
    rw [List.mem_singleton.mp member, Branch.atop, ← planted.size]
    refine .node (kindOf_of_getElem? self) ?_ ?_ fun child among => ?_
    · rw [parentOf_of_getElem? self]
      rfl
    · rw [childrenOf_of_getElem? self, Branch.map_id_under]
    · obtain ⟨own, ownMember, rfl⟩ := List.mem_map.mp among
      exact (planted.mirrors own ownMember).adopted afterSound unowned
        (List.mem_map_of_mem ownMember)
  parentless branch member := by
    have self : (after.adopted kind (branches.map Branch.id)).nodes[after.size]? =
        some { kind, children := branches.map Branch.id } :=
      getElem?_adopted_self (planted.unowned sound).inside
    rw [List.mem_singleton.mp member, Branch.atop, ← planted.size]
    exact parentOf_of_getElem? self

end Planted

end Forest

end QueryForest
