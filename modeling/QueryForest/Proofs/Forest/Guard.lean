import QueryForest.Proofs.Forest.Outcome

/-!
# What edits refuse

An edit that would break a sound forest is refused, and then changes nothing:
a node that would come below itself, a child that its parent has no room for,
a child that is listed twice, a node whose place does not exist.  Otherwise
the edit is the move that it stands for.
-/

namespace QueryForest.Forest

variable {forest : Forest}

namespace Anchored

theorem edit_refuseAncestor_of_isAbove (anchored : forest.Anchored)
    {child parent : NodeId} (inside : parent < forest.size)
    (above : forest.IsAbove child parent) (variant : Variant) :
    forest.edit (Edit.refuseAncestor variant child parent) =
      (.error (.error (.actionNotSupported variant .adoptAncestor)), forest) := by
  unfold Edit.refuseAncestor
  rw [edit_bind_of_ok _ (edit_get forest),
    anchored.isAncestorOrSelf_of_isAbove inside above,
    edit_bind_of_ok _ (edit_check forest (.ok true))]
  rfl

theorem edit_refuseAncestor_of_not_isAbove (anchored : forest.Anchored)
    {child parent : NodeId} (inside : parent < forest.size)
    (apart : ¬ forest.IsAbove child parent) (variant : Variant) :
    forest.edit (Edit.refuseAncestor variant child parent) =
      (.ok (), forest) := by
  unfold Edit.refuseAncestor
  rw [edit_bind_of_ok _ (edit_get forest),
    anchored.isAncestorOrSelf_of_not_isAbove inside apart,
    edit_bind_of_ok _ (edit_check forest (.ok false))]
  rfl

/-! ## Adding a child -/

/-- A child is refused where there is no room for it or where it would come
below itself. -/
theorem edit_addChild_of_refused (anchored : forest.Anchored)
    {parent child : NodeId} {node : Node}
    (present : forest.nodes[parent]? = some node)
    (refused : ¬ node.kind.arity.admits (node.children.length + 1) ∨
      forest.IsAbove child parent) :
    ∃ action, forest.edit (Edit.addChild parent child) =
      (.error (.error (.actionNotSupported node.kind.variant action)), forest) := by
  have inside := lt_size_of_getElem? present
  unfold Edit.addChild
  rw [edit_bind_of_ok _ (edit_node_of_some present)]
  cases arity : node.kind.arity with
  | leaf =>
      refine ⟨.addChild, ?_⟩
      rw [edit_bind_of_error _ (edit_refuse ..)]
  | one =>
      by_cases free : node.children = []
      · have above : forest.IsAbove child parent := by
          refine refused.resolve_left fun full => full ?_
          rw [arity, free]
          exact Nat.le_refl 1
        refine ⟨.adoptAncestor, ?_⟩
        simp only [free, List.isEmpty_nil, Bool.not_true, Bool.false_eq_true, if_false]
        rw [edit_bind_of_error _ (anchored.edit_refuseAncestor_of_isAbove inside above _)]
      · refine ⟨.addSecondChild, ?_⟩
        have occupied : (!node.children.isEmpty) = true := by
          simpa using free
        simp only [occupied, if_true]
        rw [edit_bind_of_error _ (edit_refuse ..)]
  | many =>
      have above : forest.IsAbove child parent := by
        refine refused.resolve_left fun full => full ?_
        rw [arity]
        trivial
      refine ⟨.adoptAncestor, ?_⟩
      simp only
      rw [edit_bind_of_error _ (anchored.edit_refuseAncestor_of_isAbove inside above _)]

/-- A child that is not refused is attached. -/
theorem edit_addChild_of_free (anchored : forest.Anchored)
    {parent child : NodeId} {node : Node}
    (present : forest.nodes[parent]? = some node)
    (room : node.kind.arity.admits (node.children.length + 1))
    (apart : ¬ forest.IsAbove child parent) :
    forest.edit (Edit.addChild parent child) =
      forest.edit (Edit.attach parent child) := by
  have inside := lt_size_of_getElem? present
  have passed :=
    anchored.edit_refuseAncestor_of_not_isAbove inside apart node.kind.variant
  unfold Edit.addChild
  rw [edit_bind_of_ok _ (edit_node_of_some present)]
  cases arity : node.kind.arity with
  | leaf =>
      rw [arity] at room
      cases room
  | one =>
      rw [arity] at room
      have few : node.children.length + 1 ≤ 1 := room
      have free : node.children = [] :=
        List.eq_nil_of_length_eq_zero (by omega)
      simp only [free, List.isEmpty_nil, Bool.not_true, Bool.false_eq_true, if_false]
      rw [edit_bind_of_ok _ passed]
  | many =>
      simp only
      rw [edit_bind_of_ok _ passed]

end Anchored

/-! ## Setting children -/

/-- A parent may adopt children after others: none of them is above it, none comes
twice, and none is among the others. -/
def MayAdopt (forest : Forest) (parent : NodeId) (before children : List NodeId) : Prop :=
  (∀ child ∈ children, ¬ forest.IsAbove child parent) ∧ children.Nodup ∧
    ∀ child ∈ children, child ∉ before

/-- The first child comes after the others, and the rest come after it too. -/
theorem mayAdopt_cons_iff {parent head : NodeId} {before tail : List NodeId} :
    forest.MayAdopt parent before (head :: tail) ↔
      ¬ forest.IsAbove head parent ∧ head ∉ before ∧
        forest.MayAdopt parent (head :: before) tail := by
  unfold MayAdopt
  rw [List.forall_mem_cons, List.forall_mem_cons, List.nodup_cons]
  simp only [List.mem_cons, not_or]
  constructor
  · rintro ⟨⟨above, apart⟩, ⟨notLater, nodup⟩, unknown, fresh⟩
    refine ⟨above, unknown, apart, nodup, fun child member => ⟨?_, fresh child member⟩⟩
    exact ne_of_mem_of_not_mem member notLater
  · rintro ⟨above, unknown, apart, nodup, fresh⟩
    refine ⟨⟨above, apart⟩, ⟨fun later => ?_, nodup⟩, unknown,
      fun child member => (fresh child member).2⟩
    exact (fresh head later).1 rfl

namespace Anchored

/-- Children pass when none is above their parent and none comes twice. -/
theorem edit_refuseChildren (anchored : forest.Anchored) {parent : NodeId}
    (inside : parent < forest.size) (variant : Variant)
    (before children : List NodeId) :
    (forest.MayAdopt parent before children ∧
        forest.edit (Edit.refuseChildren variant parent before children) =
          (.ok (), forest)) ∨
      (¬ forest.MayAdopt parent before children ∧
        ∃ action,
          forest.edit (Edit.refuseChildren variant parent before children) =
            (.error (.error (.actionNotSupported variant action)), forest)) := by
  induction children generalizing before with
  | nil => exact .inl ⟨⟨by simp, List.nodup_nil, by simp⟩, rfl⟩
  | cons head tail inductionHypothesis =>
      rw [mayAdopt_cons_iff]
      unfold Edit.refuseChildren
      by_cases above : forest.IsAbove head parent
      · refine .inr ⟨fun passes => passes.1 above, .adoptAncestor, ?_⟩
        rw [edit_bind_of_error _ (anchored.edit_refuseAncestor_of_isAbove inside above _)]
      · rw [edit_bind_of_ok _
          (anchored.edit_refuseAncestor_of_not_isAbove inside above _)]
        by_cases known : head ∈ before
        · refine .inr ⟨fun passes => passes.2.1 known, .adoptTwice, ?_⟩
          rw [if_pos (List.contains_iff_mem.mpr known),
            edit_bind_of_error _ (edit_refuse ..)]
        · have unknown : ¬ before.contains head = true := fun listed =>
            known (List.contains_iff_mem.mp listed)
          rw [if_neg unknown]
          rcases inductionHypothesis (head :: before) with
            ⟨passes, passed⟩ | ⟨fails, action, stopped⟩
          · exact .inl ⟨⟨above, known, passes⟩, passed⟩
          · exact .inr ⟨fun passes => fails passes.2.2, action, stopped⟩

end Anchored

/-- Taking the parents of nodes away one by one. -/
theorem edit_forM_parentless {ids : List NodeId} (inside : ∀ id ∈ ids, id < forest.size) :
    forest.edit (ids.forM fun id =>
        Edit.modifyNode id fun node => { node with parent := none }) =
      (.ok (), forest.revise fun id node =>
        { node with parent := if id ∈ ids then none else node.parent }) := by
  induction ids generalizing forest with
  | nil =>
      have unchanged :
          (forest.revise fun id node =>
            { node with parent := if id ∈ [] then none else node.parent }) = forest :=
        revise_eq_self fun id node _ => by simp
      rw [unchanged]
      rfl
  | cons head tail inductionHypothesis =>
      have headInside := inside head List.mem_cons_self
      have tailInside : ∀ id ∈ tail, id <
          (forest.modifyNode head fun node => { node with parent := none }).size := by
        intro id member
        rw [size_modifyNode]
        exact inside id (List.mem_cons_of_mem head member)
      rw [List.forM, edit_bind_of_ok _ (edit_modifyNode headInside _),
        inductionHypothesis tailInside, modifyNode_eq_revise, revise_revise]
      refine congrArg (Prod.mk _) (revise_congr fun id node _ => ?_)
      by_cases isHead : id = head
      · simp [isHead]
      · simp [isHead]

/-- The list of a node is emptied, and whoever stood there loses its parent. -/
theorem Anchored.edit_clear (anchored : forest.Anchored) {parent : NodeId} {node : Node}
    (present : forest.nodes[parent]? = some node) :
    (forest.modifyNode parent fun node => { node with children := [] }).edit
        (node.children.forM fun former =>
          Edit.modifyNode former fun node => { node with parent := none }) =
      (.ok (), forest.cleared parent) := by
  have listed := childrenOf_of_getElem? present
  have inside : ∀ child ∈ node.children,
      child < (forest.modifyNode parent fun node =>
        { node with children := [] }).size := by
    intro child member
    rw [size_modifyNode]
    exact anchored.child_lt (listed ▸ member)
  rw [edit_forM_parentless inside, modifyNode_eq_revise, revise_revise, cleared, listed]
  refine congrArg (Prod.mk _) (revise_congr fun id other _ => ?_)
  by_cases isParent : id = parent
  · simp [isParent]
  · simp [isParent]

theorem Sound.cleared_eq_orphaned (sound : forest.Sound) (parent : NodeId) :
    forest.cleared parent = forest.orphaned parent := by
  apply revise_congr
  intro id node present
  rw [← parentOf_of_getElem? present]
  simp only [sound.mem_childrenOf_iff]

structure CanTake (forest : Forest) (parent : NodeId)
    (children : List NodeId) : Prop where
  sound : forest.Sound
  inside : parent < forest.size
  apart : ∀ child ∈ children, ¬ forest.IsAbove child parent
  room : ∀ kind, forest.kindOf parent = some kind →
    kind.arity.admits ((forest.childrenOf parent).length + children.length)

namespace CanTake

variable {parent child : NodeId} {children : List NodeId}

theorem adopt (canTake : forest.CanTake parent (child :: children))
    (childInside : child < forest.size) :
    ((forest.placed parent child).bound parent child).CanTake parent children := by
  have childApart := canTake.apart child List.mem_cons_self
  have sound := canTake.sound
  have fewer :
      ((forest.childrenOf parent).filter (· != child)).length ≤
        (forest.childrenOf parent).length := List.length_filter_le ..
  have roomForOne : ∀ kind, forest.kindOf parent = some kind →
      kind.arity.admits
        (((forest.childrenOf parent).filter (· != child)).length + 1) := by
    intro kind known
    apply (canTake.room kind known).mono
    rw [List.length_cons]
    omega
  have placedSound :=
    sound.placed canTake.inside childInside childApart roomForOne
  refine ⟨placedSound.bound parent child, ?_, ?_, ?_⟩
  · rw [size_bound, size_placed]
    exact canTake.inside
  · intro later member above
    apply canTake.apart later (List.mem_cons_of_mem child member)
    refine (isAbove_iff_of_relinked (fun id different => ?_)
      (sound.endsAbove parent) childApart later).mp above
    rw [parentOf_bound, parentOf_placed _ _ _ _ childInside, if_neg different]
  · intro kind known
    rw [kindOf_bound, kindOf_placed] at known
    obtain ⟨former, formerKnown, becomes⟩ := Option.map_eq_some_iff.mp known
    have different : parent ≠ child := fun same => childApart (same ▸ .self)
    rw [if_neg different] at becomes
    subst becomes
    apply (canTake.room former formerKnown).mono
    rw [childrenOf_bound, childrenOf_placed _ _ _ _ canTake.inside, if_pos rfl,
      List.length_append, List.length_singleton, List.length_cons]
    omega

theorem edit_attach (canTake : forest.CanTake parent (child :: children))
    (childInside : child < forest.size) :
    forest.edit (Edit.attach parent child) =
      (.ok (), (forest.placed parent child).bound parent child) := by
  have childApart := canTake.apart child List.mem_cons_self
  exact canTake.sound.edit_attach canTake.inside childInside
    fun same => childApart (same ▸ .self)

/-- Children of the arena all find their place. -/
theorem edit_forM_attach (canTake : forest.CanTake parent children)
    (inside : ∀ child ∈ children, child < forest.size) :
    forest.edit (children.forM (Edit.attach parent)) =
      (.ok (), children.foldl
        (fun forest child => (forest.placed parent child).bound parent child)
        forest) := by
  induction children generalizing forest with
  | nil => rfl
  | cons head tail inductionHypothesis =>
      have headInside := inside head List.mem_cons_self
      rw [List.forM, edit_bind_of_ok _ (canTake.edit_attach headInside),
        inductionHypothesis (canTake.adopt headInside)]
      · rfl
      · intro child member
        rw [size_bound, size_placed]
        exact inside child (List.mem_cons_of_mem head member)

end CanTake

/-- After its children are gone, a node can take what passes the guards. -/
theorem Sound.canTake_orphaned (sound : forest.Sound) {parent : NodeId}
    {node : Node} {children : List NodeId}
    (present : forest.nodes[parent]? = some node)
    (room : node.kind.arity.admits children.length)
    (apart : ∀ child ∈ children, ¬ forest.IsAbove child parent) :
    (forest.orphaned parent).CanTake parent children where
  sound := sound.orphaned parent
  inside := by
    rw [size_orphaned]
    exact lt_size_of_getElem? present
  apart child member above := by
    refine apart child member (above.of_fewer fun id other linked => ?_)
    rw [parentOf_orphaned] at linked
    by_cases former : forest.parentOf id = some parent
    · rw [if_pos former] at linked
      cases linked
    · rwa [if_neg former] at linked
  room kind known := by
    rw [kindOf_orphaned, kindOf_of_getElem? present] at known
    cases known
    rw [childrenOf_orphaned, if_pos rfl, List.length_nil, Nat.zero_add]
    exact room

namespace Anchored

/-- Children are refused where there is no room for them, where one of them
would come below itself, and where one comes twice. -/
theorem edit_setChildren_of_refused (anchored : forest.Anchored)
    {parent : NodeId} {node : Node} {children : List NodeId}
    (present : forest.nodes[parent]? = some node)
    (refused : ¬ (node.kind.arity.admits children.length ∧
      (∀ child ∈ children, ¬ forest.IsAbove child parent) ∧ children.Nodup)) :
    ∃ action, forest.edit (Edit.setChildren parent children) =
      (.error (.error (.actionNotSupported node.kind.variant action)), forest) := by
  have inside := lt_size_of_getElem? present
  have guarded : node.kind.arity.admits children.length →
      ∃ action,
        forest.edit (Edit.refuseChildren node.kind.variant parent [] children) =
          (.error (.error (.actionNotSupported node.kind.variant action)),
            forest) := by
    intro room
    rcases anchored.edit_refuseChildren inside node.kind.variant [] children with
      ⟨⟨apart, nodup, _⟩, _⟩ | ⟨_, action, stopped⟩
    · exact absurd ⟨room, apart, nodup⟩ refused
    · exact ⟨action, stopped⟩
  unfold Edit.setChildren
  rw [edit_bind_of_ok _ (edit_node_of_some present)]
  -- What has no room refuses by number first; the guard over all children is asked after that.
  cases arity : node.kind.arity with
  | leaf =>
      by_cases none : children = []
      · obtain ⟨action, stopped⟩ := guarded (by rw [arity, none]; rfl)
        refine ⟨action, ?_⟩
        simp only [none, List.isEmpty_nil, Bool.not_true, Bool.false_eq_true, if_false]
        rw [none] at stopped
        rw [edit_bind_of_error _ stopped]
      · refine ⟨.addChild, ?_⟩
        have some : (!children.isEmpty) = true := by simpa using none
        simp only [some, if_true]
        rw [edit_bind_of_error _ (edit_refuse ..)]
  | one =>
      by_cases few : 1 < children.length
      · refine ⟨.addSecondChild, ?_⟩
        simp only [few, if_true]
        rw [edit_bind_of_error _ (edit_refuse ..)]
      · obtain ⟨action, stopped⟩ :=
          guarded (by rw [arity]; exact Nat.not_lt.mp few)
        refine ⟨action, ?_⟩
        simp only [few, if_false]
        rw [edit_bind_of_error _ stopped]
  | many =>
      obtain ⟨action, stopped⟩ := guarded (by rw [arity]; trivial)
      refine ⟨action, ?_⟩
      simp only
      rw [edit_bind_of_error _ stopped]

/-- Children that are not refused are attached one after the other, once the
former ones are gone. -/
theorem edit_setChildren_of_free (anchored : forest.Anchored)
    {parent : NodeId} {node : Node} {children : List NodeId}
    (present : forest.nodes[parent]? = some node)
    (room : node.kind.arity.admits children.length)
    (apart : ∀ child ∈ children, ¬ forest.IsAbove child parent)
    (nodup : children.Nodup) :
    forest.edit (Edit.setChildren parent children) =
      (forest.cleared parent).edit (children.forM (Edit.attach parent)) := by
  have inside := lt_size_of_getElem? present
  have passed :
      forest.edit (Edit.refuseChildren node.kind.variant parent [] children) =
        (.ok (), forest) := by
    rcases anchored.edit_refuseChildren inside node.kind.variant [] children with
      ⟨_, passed⟩ | ⟨fails, _⟩
    · exact passed
    · exact absurd ⟨apart, nodup, fun _ _ => List.not_mem_nil⟩ fails
  have moved : forest.edit (do
        Edit.refuseChildren node.kind.variant parent [] children
        Edit.modifyNode parent fun node => { node with children := [] }
        node.children.forM fun former =>
          Edit.modifyNode former fun node => { node with parent := none }
        children.forM (Edit.attach parent)) =
      (forest.cleared parent).edit (children.forM (Edit.attach parent)) := by
    rw [edit_bind_of_ok _ passed, edit_bind_of_ok _ (edit_modifyNode inside _),
      edit_bind_of_ok _ (anchored.edit_clear present)]
  unfold Edit.setChildren
  rw [edit_bind_of_ok _ (edit_node_of_some present)]
  cases arity : node.kind.arity with
  | leaf =>
      rw [arity] at room
      have none : children = [] := List.eq_nil_of_length_eq_zero room
      simp only [none, List.isEmpty_nil, Bool.not_true, Bool.false_eq_true, if_false]
      rw [none] at moved
      exact moved
  | one =>
      rw [arity] at room
      have few : ¬ 1 < children.length := Nat.not_lt.mpr room
      simp only [few, if_false]
      exact moved
  | many => exact moved

end Anchored

/-- In a sound forest the former children are gone altogether. -/
theorem Sound.edit_setChildren_of_free (sound : forest.Sound)
    {parent : NodeId} {node : Node} {children : List NodeId}
    (present : forest.nodes[parent]? = some node)
    (room : node.kind.arity.admits children.length)
    (apart : ∀ child ∈ children, ¬ forest.IsAbove child parent)
    (nodup : children.Nodup) :
    forest.edit (Edit.setChildren parent children) =
      (forest.orphaned parent).edit (children.forM (Edit.attach parent)) := by
  rw [sound.anchored.edit_setChildren_of_free present room apart nodup,
    sound.cleared_eq_orphaned]

/-! ## Replacing -/

/-- A node without a parent that is not the root has no place to take. -/
theorem edit_replace_of_detached {former replacement : NodeId} {node : Node}
    (different : former ≠ replacement)
    (present : forest.nodes[former]? = some node)
    (parentless : forest.parentOf former = none)
    (notRoot : forest.root ≠ some former) :
    forest.edit (Edit.replace former replacement) =
      (.error (.error
        (.actionNotSupported node.kind.variant .replaceDetached)), forest) := by
  unfold Edit.replace
  rw [if_neg different, edit_bind_of_ok _ (edit_node_of_some present)]
  rw [parentOf_of_getElem? present] at parentless
  simp only [parentless]
  rw [edit_bind_of_ok _ (edit_get forest), if_neg notRoot, edit_refuse]

/-- Taking the place of the root is becoming the root. -/
theorem edit_replace_of_root {former replacement : NodeId} {node : Node}
    (different : former ≠ replacement)
    (present : forest.nodes[former]? = some node)
    (parentless : forest.parentOf former = none)
    (isRoot : forest.root = some former) :
    forest.edit (Edit.replace former replacement) =
      forest.edit (Edit.setRoot replacement) := by
  unfold Edit.replace
  rw [if_neg different, edit_bind_of_ok _ (edit_node_of_some present)]
  rw [parentOf_of_getElem? present] at parentless
  simp only [parentless]
  rw [edit_bind_of_ok _ (edit_get forest), if_pos isRoot]

theorem edit_replace_of_linked {former replacement parent : NodeId} {node : Node}
    (different : former ≠ replacement)
    (present : forest.nodes[former]? = some node)
    (linked : forest.parentOf former = some parent) :
    forest.edit (Edit.replace former replacement) =
      forest.edit (Edit.replaceBelow parent former replacement) := by
  unfold Edit.replace
  rw [if_neg different, edit_bind_of_ok _ (edit_node_of_some present)]
  rw [parentOf_of_getElem? present] at linked
  simp only [linked]

namespace Anchored

/-- No node takes a place below itself. -/
theorem edit_replaceBelow_of_isAbove (anchored : forest.Anchored)
    {former replacement parent : NodeId} {node : Node}
    (present : forest.nodes[parent]? = some node)
    (above : forest.IsAbove replacement parent) :
    forest.edit (Edit.replaceBelow parent former replacement) =
      (.error (.error
        (.actionNotSupported node.kind.variant .adoptAncestor)), forest) := by
  have inside := lt_size_of_getElem? present
  unfold Edit.replaceBelow
  rw [edit_bind_of_ok _ (edit_node_of_some present),
    edit_bind_of_error _ (anchored.edit_refuseAncestor_of_isAbove inside above _)]

theorem edit_replaceBelow_outside (anchored : forest.Anchored)
    {former replacement parent : NodeId} (parentInside : parent < forest.size)
    (outside : ¬ replacement < forest.size)
    (apart : ¬ forest.IsAbove replacement parent) :
    forest.edit (Edit.replaceBelow parent former replacement) =
      (.error (.breach (.missing replacement forest.size)), forest) := by
  obtain ⟨node, present⟩ := exists_node_of_lt parentInside
  unfold Edit.replaceBelow
  rw [edit_bind_of_ok _ (edit_node_of_some present),
    edit_bind_of_ok _
      (anchored.edit_refuseAncestor_of_not_isAbove parentInside apart _),
    edit_bind_of_error _ (edit_detach_outside outside)]

end Anchored

/-- Writing into the place of a value that occurs once. -/
theorem set_idxOf_eq_map {items : List NodeId} (nodup : items.Nodup)
    {former replacement place : NodeId} (found : items.idxOf? former = some place) :
    items.set place replacement =
      items.map fun item => if item = former then replacement else item := by
  induction items generalizing place with
  | nil => rfl
  | cons head tail inductionHypothesis =>
      rw [List.idxOf?_cons] at found
      have tailNodup := (List.nodup_cons.mp nodup).2
      by_cases same : head = former
      · subst same
        have rest : tail.map (fun item => if item = head then replacement else item)
            = tail := by
          refine (List.map_congr_left fun item member => ?_).trans (List.map_id tail)
          apply if_neg
          rintro rfl
          exact (List.nodup_cons.mp nodup).1 member
        simp only [beq_self_eq_true, if_true, Option.some.injEq] at found
        subst found
        rw [List.set_cons_zero, List.map_cons, if_pos rfl, rest]
      · have unequal : (head == former) = false := beq_eq_false_iff_ne.mpr same
        rw [unequal] at found
        simp only [Bool.false_eq_true, if_false] at found
        obtain ⟨later, laterFound, rfl⟩ := Option.map_eq_some_iff.mp found
        rw [List.set_cons_succ, List.map_cons, if_neg same,
          inductionHypothesis tailNodup laterFound]

/-- The three steps by which a replacement takes a place are one. -/
theorem modifyNode_eq_supplanted {former replacement parent : NodeId} (place : Nat)
    (different : former ≠ replacement) (notReplacement : parent ≠ replacement)
    (notFormer : parent ≠ former) :
    (((forest.modifyNode parent fun node =>
        { node with children := node.children.set place replacement }).modifyNode
          replacement fun node => { node with parent := some parent }).modifyNode
            former fun node => { node with parent := none }) =
      forest.supplanted parent former replacement place := by
  rw [modifyNode_eq_revise, modifyNode_eq_revise, modifyNode_eq_revise,
    revise_revise, revise_revise]
  apply revise_congr
  intro id node _
  by_cases isParent : id = parent
  · subst isParent
    simp [notReplacement, notFormer]
  · by_cases isReplacement : id = replacement
    · subst isReplacement
      simp [isParent, Ne.symm different]
    · by_cases isFormer : id = former
      · subst isFormer
        simp [isParent, isReplacement]
      · simp [isParent, isReplacement, isFormer]

/-- A child that links to its parent keeps a place there when another node leaves. -/
theorem Anchored.exists_place (anchored : forest.Anchored)
    {former replacement parent : NodeId} (different : former ≠ replacement)
    (linked : forest.parentOf former = some parent) :
    ∃ place,
      ((forest.released replacement).childrenOf parent).idxOf? former = some place := by
  apply Option.isSome_iff_exists.mp
  rw [List.isSome_idxOf?, childrenOf_released]
  have stands := anchored.listed linked
  split
  · exact List.mem_filter.mpr ⟨stands, bne_iff_ne.mpr different⟩
  · exact stands

/-- Replacing a child of a node is taking a place of it there.  The child has one
there, since its link to its parent is answered. -/
theorem Anchored.edit_replaceBelow (anchored : forest.Anchored)
    {former replacement parent : NodeId} (different : former ≠ replacement)
    (linked : forest.parentOf former = some parent)
    (inside : replacement < forest.size)
    (apart : ¬ forest.IsAbove replacement parent) :
    ∃ place,
      ((forest.released replacement).childrenOf parent).idxOf? former = some place ∧
      forest.edit (Edit.replaceBelow parent former replacement) =
        (.ok (), ((forest.released replacement).supplanted parent former replacement
          place).bound parent replacement) := by
  have parentInside := anchored.parent_lt linked
  have formerInside := lt_size_of_parentOf linked
  obtain ⟨node, present⟩ := exists_node_of_lt parentInside
  have freedInside : parent < (forest.released replacement).size := by
    rwa [size_released]
  obtain ⟨freed, freedPresent⟩ := exists_node_of_lt freedInside
  obtain ⟨place, placeFound⟩ := anchored.exists_place different linked
  refine ⟨place, placeFound, ?_⟩
  have notReplacement : parent ≠ replacement := fun same => apart (same ▸ .self)
  have notFormer : parent ≠ former := by
    rintro rfl
    exact (anchored.endsAbove parent).not_isAbove_parent linked .self
  unfold Edit.replaceBelow
  rw [edit_bind_of_ok _ (edit_node_of_some present),
    edit_bind_of_ok _
      (anchored.edit_refuseAncestor_of_not_isAbove parentInside apart _),
    edit_bind_of_ok _ (anchored.edit_detach inside),
    edit_bind_of_ok _ (edit_node_of_some freedPresent)]
  rw [childrenOf_of_getElem? freedPresent] at placeFound
  simp only [placeFound]
  rw [edit_bind_of_ok _ (edit_modifyNode freedInside _),
    edit_bind_of_ok _ (edit_modifyNode (by simpa using inside) _),
    edit_bind_of_ok _ (edit_modifyNode (by simpa using formerInside) _),
    modifyNode_eq_supplanted place different notReplacement notFormer,
    edit_bindField (by simpa using parentInside) (by simpa using inside)]

/-- In a sound forest a child has one place, which its replacement takes. -/
theorem Sound.supplanted_severed (sound : forest.Sound)
    {former replacement parent : NodeId} {place : Nat}
    (different : former ≠ replacement)
    (found : ((forest.severed replacement).childrenOf parent).idxOf? former =
      some place) :
    (forest.severed replacement).supplanted parent former replacement place =
      forest.substituted parent former replacement := by
  rw [childrenOf_severed] at found
  have siblingsNodup := (sound.nodup_childrenOf parent).filter (· != replacement)
  have written : ((forest.childrenOf parent).filter (· != replacement)).set place replacement = _ :=
    set_idxOf_eq_map siblingsNodup found
  show (forest.revise _).revise _ = _
  rw [revise_revise]
  apply revise_congr
  intro id node present
  by_cases isReplacement : id = replacement
  · subst isReplacement
    by_cases isParent : id = parent
    · subst isParent
      rw [childrenOf_of_getElem? present] at written
      simp [Ne.symm different, written]
    · simp [Ne.symm different, isParent]
  · by_cases isParent : id = parent
    · subst isParent
      rw [childrenOf_of_getElem? present] at written
      simp [isReplacement, written]
    · simp [isReplacement, isParent]

/-- Replacing a child of a node is taking its place there. -/
theorem Sound.edit_replaceBelow (sound : forest.Sound)
    {former replacement parent : NodeId} (different : former ≠ replacement)
    (linked : forest.parentOf former = some parent)
    (inside : replacement < forest.size)
    (apart : ¬ forest.IsAbove replacement parent) :
    forest.edit (Edit.replaceBelow parent former replacement) =
      (.ok (), (forest.substituted parent former replacement).bound
        parent replacement) := by
  obtain ⟨place, found, replaced⟩ :=
    sound.anchored.edit_replaceBelow different linked inside apart
  rw [sound.released_eq_severed] at found replaced
  rw [replaced, sound.supplanted_severed different found]

end QueryForest.Forest
