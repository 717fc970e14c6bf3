import QueryForest.Proofs.Forest.Anchoring
import QueryForest.Proofs.Forest.Grove

/-!
# Groves stay anchored

Whatever is done to the forests of a grove, each of them stays anchored: also
where a forest is moved whose root has a parent, so that lists hold nodes that
do not name their owner.  In an anchored forest no climb is endless and a child
always stands in the list of its parent, so that the only breach an edit meets
is a name from elsewhere.
-/

namespace QueryForest

/-- A breach that is a name from elsewhere. -/
def Breach.IsForeign (breach : Breach) : Prop :=
  ∃ id size, breach = .missing id size ∧ size ≤ id

namespace Forest

/-- How an edit of an anchored forest may end.  Also a forest that is left in
the middle is anchored. -/
inductive EndsAnchored {Result : Type} :
    Except (Halt NodeError) Result × Forest → Prop where
  | done {forest : Forest} (anchored : forest.Anchored) (result : Result) :
      EndsAnchored (.ok result, forest)
  | refused {forest : Forest} (anchored : forest.Anchored) (error : NodeError) :
      EndsAnchored (.error (.error error), forest)
  | missing {forest : Forest} (anchored : forest.Anchored) {id : NodeId}
      (outside : ¬ id < forest.size) :
      EndsAnchored (.error (.breach (.missing id forest.size)), forest)

namespace EndsAnchored

variable {Result : Type} {outcome : Except (Halt NodeError) Result × Forest}

theorem anchored (ends : EndsAnchored outcome) : outcome.2.Anchored := by
  cases ends with
  | done anchored _ => exact anchored
  | refused anchored _ => exact anchored
  | missing anchored _ => exact anchored

theorem isForeign (ends : EndsAnchored outcome) {breach : Breach}
    (stopped : outcome.1 = .error (.breach breach)) : breach.IsForeign := by
  cases ends with
  | done _ _ => cases stopped
  | refused _ _ => cases stopped
  | missing _ outside =>
      cases stopped
      exact ⟨_, _, rfl, Nat.not_lt.mp outside⟩

end EndsAnchored

/-- A node can be given children one after the other, wherever else they are
listed. -/
structure CanHold (forest : Forest) (parent : NodeId) (children : List NodeId) :
    Prop where
  anchored : forest.Anchored
  inside : parent < forest.size
  apart : ∀ child ∈ children, ¬ forest.IsAbove child parent
  room : ∀ kind, forest.kindOf parent = some kind →
    kind.arity.admits ((forest.childrenOf parent).length + children.length)

namespace CanHold

variable {forest : Forest} {parent child : NodeId} {children : List NodeId}

theorem edit_attach (canHold : forest.CanHold parent (child :: children))
    (childInside : child < forest.size) :
    forest.edit (Edit.attach parent child) =
      (.ok (), ((forest.released child).attached parent child).bound parent child) :=
  canHold.anchored.edit_attach canHold.inside childInside
    fun same => canHold.apart child List.mem_cons_self (same ▸ .self)

theorem length_childrenOf_released_le (forest : Forest) (child id : NodeId) :
    ((forest.released child).childrenOf id).length ≤ (forest.childrenOf id).length := by
  rw [childrenOf_released]
  split
  · exact List.length_filter_le ..
  · exact Nat.le_refl _

theorem attach (canHold : forest.CanHold parent (child :: children))
    (childInside : child < forest.size) :
    (((forest.released child).attached parent child).bound parent child).CanHold
      parent children := by
  have childApart := canHold.apart child List.mem_cons_self
  have shorter := length_childrenOf_released_le forest child parent
  have parentInside : parent < (forest.released child).size := by
    rw [size_released]
    exact canHold.inside
  have stillInside : child < (forest.released child).size := by
    rwa [size_released]
  have stillApart : ¬ (forest.released child).IsAbove child parent := fun above =>
    childApart (above.of_fewer fun id _ linked => (parentOf_of_released _ _ id linked).2)
  have roomForOne : ∀ kind, (forest.released child).kindOf parent = some kind →
      kind.arity.admits (((forest.released child).childrenOf parent).length + 1) := by
    intro kind known
    rw [kindOf_released] at known
    apply (canHold.room kind known).mono
    rw [List.length_cons]
    omega
  have attached :=
    (canHold.anchored.released child).attached parentInside stillInside stillApart roomForOne
  refine ⟨attached.bound parent child, ?_, ?_, ?_⟩
  · rwa [size_bound, size_attached]
  · intro later member above
    apply canHold.apart later (List.mem_cons_of_mem child member)
    -- Only the link of the child is new, and the child is not above the parent.
    refine (isAbove_iff_of_relinked (fun id different => ?_)
      (canHold.anchored.endsAbove parent) childApart later).mp above
    rw [parentOf_bound, parentOf_attached _ _ _ _ stillInside, if_neg different,
      parentOf_released, if_neg different]
  · intro kind known
    rw [kindOf_bound, kindOf_attached, kindOf_released] at known
    obtain ⟨former, formerKnown, becomes⟩ := Option.map_eq_some_iff.mp known
    have different : parent ≠ child := fun same => childApart (same ▸ .self)
    rw [if_neg different] at becomes
    subst becomes
    apply (canHold.room former formerKnown).mono
    rw [childrenOf_bound, childrenOf_attached _ _ _ _ parentInside, if_pos rfl,
      List.length_append, List.length_singleton, List.length_cons]
    omega

/-- A list of nodes is attached up to one that is not in the arena. -/
theorem endsAnchored_forM (canHold : forest.CanHold parent children) :
    EndsAnchored (forest.edit (children.forM (Edit.attach parent))) := by
  induction children generalizing forest with
  | nil => exact .done canHold.anchored ()
  | cons head tail inductionHypothesis =>
      rw [List.forM]
      by_cases inside : head < forest.size
      · rw [edit_bind_of_ok _ (canHold.edit_attach inside)]
        exact inductionHypothesis (canHold.attach inside)
      · rw [edit_bind_of_error _ (edit_attach_outside inside)]
        exact .missing canHold.anchored inside

end CanHold

end Forest

/-! ## Edits -/

namespace Edit

variable {Result Other : Type}

/-- An edit that keeps anchored forests anchored and meets no breach there but
names from elsewhere. -/
def KeepsAnchored (change : Edit Result) : Prop :=
  ∀ forest : Forest, forest.Anchored → Forest.EndsAnchored (forest.edit change)

namespace KeepsAnchored

open Forest

theorem pure (result : Result) : (Pure.pure result : Edit Result).KeepsAnchored :=
  fun _ anchored => .done anchored result

theorem bind {first : Edit Result} {next : Result → Edit Other}
    (firstKeeps : first.KeepsAnchored) (nextKeeps : ∀ result, (next result).KeepsAnchored) :
    (first >>= next).KeepsAnchored := by
  intro forest anchored
  have begins := firstKeeps forest anchored
  rw [edit_bind]
  cases outcome : forest.edit first with
  | mk result after =>
      rw [outcome] at begins
      cases begins with
      | done anchored result => exact nextKeeps result after anchored
      | refused anchored error => exact .refused anchored error
      | missing anchored outside => exact .missing anchored outside

theorem forM {change : NodeId → Edit Unit} (keeps : ∀ id, (change id).KeepsAnchored)
    (ids : List NodeId) : (ids.forM change).KeepsAnchored := by
  induction ids with
  | nil => exact .pure ()
  | cons head tail inductionHypothesis =>
      rw [List.forM]
      exact (keeps head).bind fun _ => inductionHypothesis

theorem node (id : NodeId) : (Edit.node id).KeepsAnchored := by
  intro forest anchored
  by_cases inside : id < forest.size
  · obtain ⟨found, present⟩ := exists_node_of_lt inside
    rw [edit_node_of_some present]
    exact .done anchored found
  · rw [edit_node_of_none (getElem?_of_not_lt inside)]
    exact .missing anchored inside

theorem add (kind : Kind) : (Edit.add kind).KeepsAnchored := by
  intro forest anchored
  rw [Edit.run_add]
  exact .done (anchored.push kind) forest.size

theorem modifyTerm (id : NodeId) (change : Term → Term) :
    (Edit.modifyTerm id change).KeepsAnchored := by
  intro forest anchored
  by_cases inside : id < forest.size
  · obtain ⟨found, present⟩ := exists_node_of_lt inside
    rw [edit_modifyTerm_of_some present]
    exact .done (anchored.rekinded id (Kind.arity_mapTerm change)) _
  · rw [edit_modifyTerm_of_none (getElem?_of_not_lt inside)]
    exact .missing anchored inside

theorem bindField (parent child : NodeId) :
    (Edit.bindField parent child).KeepsAnchored := by
  refine (node parent).bind fun found => ?_
  cases found.kind.proximity? with
  | none => exact .pure ()
  | some near => exact (modifyTerm child _).bind fun _ => .pure ()

theorem bindFields (id : NodeId) : (Edit.bindFields id).KeepsAnchored := by
  refine (node id).bind fun found => ?_
  split
  · exact .forM (bindField id) found.children
  · exact .pure ()

theorem detach (id : NodeId) : (Edit.detach id).KeepsAnchored := by
  intro forest anchored
  by_cases inside : id < forest.size
  · rw [anchored.edit_detach inside]
    exact .done (anchored.released id) ()
  · rw [edit_detach_outside inside]
    exact .missing anchored inside

theorem setRoot (id : NodeId) : (Edit.setRoot id).KeepsAnchored := by
  intro forest anchored
  by_cases inside : id < forest.size
  · unfold Edit.setRoot
    rw [edit_bind_of_ok _ (anchored.edit_detach inside), edit_modify]
    exact .done ((anchored.released id).rooted (by rwa [size_released])) ()
  · rw [edit_setRoot_outside inside]
    exact .missing anchored inside

theorem addChild (parent child : NodeId) : (Edit.addChild parent child).KeepsAnchored := by
  intro forest anchored
  by_cases parentInside : parent < forest.size
  · obtain ⟨node, present⟩ := exists_node_of_lt parentInside
    by_cases refused : ¬ node.kind.arity.admits (node.children.length + 1) ∨
        forest.IsAbove child parent
    · obtain ⟨action, stopped⟩ := anchored.edit_addChild_of_refused present refused
      rw [stopped]
      exact .refused anchored _
    · obtain ⟨room, apart⟩ := not_or.mp refused
      have room := Classical.not_not.mp room
      rw [anchored.edit_addChild_of_free present room apart]
      by_cases childInside : child < forest.size
      · have canHold : forest.CanHold parent [child] := by
          refine ⟨anchored, parentInside, fun other member => ?_, fun kind known => ?_⟩
          · rwa [List.mem_singleton.mp member]
          · rw [kindOf_of_getElem? present] at known
            cases known
            rwa [childrenOf_of_getElem? present]
        rw [canHold.edit_attach childInside]
        exact .done (canHold.attach childInside).anchored ()
      · rw [edit_attach_outside childInside]
        exact .missing anchored childInside
  · unfold Edit.addChild
    rw [edit_bind_of_error _ (edit_node_of_none (getElem?_of_not_lt parentInside))]
    exact .missing anchored parentInside

theorem setChildren (parent : NodeId) (children : List NodeId) :
    (Edit.setChildren parent children).KeepsAnchored := by
  intro forest anchored
  by_cases inside : parent < forest.size
  · obtain ⟨node, present⟩ := exists_node_of_lt inside
    by_cases free : node.kind.arity.admits children.length ∧
        (∀ child ∈ children, ¬ forest.IsAbove child parent) ∧ children.Nodup
    · obtain ⟨room, apart, nodup⟩ := free
      rw [anchored.edit_setChildren_of_free present room apart nodup]
      apply CanHold.endsAnchored_forM
      refine ⟨anchored.cleared parent, by rwa [size_cleared], ?_, ?_⟩
      · intro child member above
        exact apart child member
          (above.of_fewer fun id _ linked => (parentOf_of_cleared _ _ id linked).2)
      · intro kind known
        rw [kindOf_cleared, kindOf_of_getElem? present] at known
        cases known
        rw [childrenOf_cleared, if_pos rfl, List.length_nil, Nat.zero_add]
        exact room
    · obtain ⟨action, stopped⟩ := anchored.edit_setChildren_of_refused present free
      rw [stopped]
      exact .refused anchored _
  · unfold Edit.setChildren
    rw [edit_bind_of_error _ (edit_node_of_none (getElem?_of_not_lt inside))]
    exact .missing anchored inside

theorem addWithChildren (kind : Kind) (children : List NodeId) :
    (Edit.addWithChildren kind children).KeepsAnchored :=
  (add kind).bind fun id => (setChildren id children).bind fun _ => .pure id

theorem addProximity (near : Proximity) (children : List NodeId) :
    (Edit.addProximity near children).KeepsAnchored :=
  (addWithChildren _ children).bind fun id => (bindFields id).bind fun _ => .pure id

theorem replace (former replacement : NodeId) :
    (Edit.replace former replacement).KeepsAnchored := by
  intro forest anchored
  by_cases same : former = replacement
  · unfold Edit.replace
    rw [if_pos same]
    exact .done anchored ()
  by_cases formerInside : former < forest.size
  · obtain ⟨node, present⟩ := exists_node_of_lt formerInside
    cases linked : forest.parentOf former with
    | none =>
        by_cases isRoot : forest.root = some former
        · rw [edit_replace_of_root same present linked isRoot]
          exact setRoot replacement forest anchored
        · rw [edit_replace_of_detached same present linked isRoot]
          exact .refused anchored _
    | some parent =>
        rw [edit_replace_of_linked same present linked]
        have parentInside := anchored.parent_lt linked
        by_cases above : forest.IsAbove replacement parent
        · obtain ⟨parentNode, parentPresent⟩ := exists_node_of_lt parentInside
          rw [anchored.edit_replaceBelow_of_isAbove parentPresent above]
          exact .refused anchored _
        · by_cases inside : replacement < forest.size
          · obtain ⟨place, found, replaced⟩ :=
              anchored.edit_replaceBelow same linked inside above
            rw [replaced]
            have apart : ¬ (forest.released replacement).IsAbove replacement parent :=
              fun stillAbove => above
                (stillAbove.of_fewer fun id _ linked => (parentOf_of_released _ _ id linked).2)
            have supplanted := (anchored.released replacement).supplanted
              (by rwa [size_released]) apart found
            exact .done (supplanted.bound parent replacement) ()
          · rw [anchored.edit_replaceBelow_outside parentInside inside above]
            exact .missing anchored inside
  · unfold Edit.replace
    rw [if_neg same,
      edit_bind_of_error _ (edit_node_of_none (getElem?_of_not_lt formerInside))]
    exact .missing anchored formerInside

end KeepsAnchored

end Edit

/-! ## Operations and grafts -/

namespace Forest.Anchored

variable {forest other : Forest}

theorem edit_copyBranch (anchored : forest.Anchored) (id : NodeId) :
    (forest.edit (Edit.copyBranch id)).2.Anchored := by
  cases read : forest.branch id with
  | error breach =>
      rw [edit_copyBranch_of_error read]
      exact anchored
  | ok branch =>
      have copied := (mirrors_of_branchWithin read).2.sound_toForest_of_anchored anchored
      rw [Forest.edit_copyBranch read]
      exact anchored.joined copied.anchored

theorem run (anchored : forest.Anchored) (operation : Operation) :
    (operation.run forest).Anchored := by
  cases operation with
  | add kind => exact (Edit.KeepsAnchored.add kind forest anchored).anchored
  | addWithChildren kind children =>
      exact (Edit.KeepsAnchored.addWithChildren kind children forest anchored).anchored
  | addProximity near children =>
      exact (Edit.KeepsAnchored.addProximity near children forest anchored).anchored
  | addChild parent child =>
      exact (Edit.KeepsAnchored.addChild parent child forest anchored).anchored
  | setChildren parent children =>
      exact (Edit.KeepsAnchored.setChildren parent children forest anchored).anchored
  | detach id => exact (Edit.KeepsAnchored.detach id forest anchored).anchored
  | setRoot id => exact (Edit.KeepsAnchored.setRoot id forest anchored).anchored
  | replace former replacement =>
      exact (Edit.KeepsAnchored.replace former replacement forest anchored).anchored
  | bindFields id => exact (Edit.KeepsAnchored.bindFields id forest anchored).anchored
  | modifyTerm id change =>
      exact (Edit.KeepsAnchored.modifyTerm id change forest anchored).anchored
  | copyBranch id => exact anchored.edit_copyBranch id

/-- A root that had a parent does not name it any more; that it is still listed
there is of no harm. -/
theorem edit_graft (anchored : forest.Anchored) (otherAnchored : other.Anchored) :
    (forest.edit (Edit.graft other)).2.Anchored := by
  have joined := anchored.joined otherAnchored
  cases rooted : other.root with
  | none =>
      rw [edit_graft_of_rootless forest rooted]
      exact joined
  | some root =>
      rw [edit_graft_of_root forest rooted (otherAnchored.root_lt root rooted)]
      exact joined.unparented (root + forest.size)

end Forest.Anchored

namespace Grove

/-- Every step keeps all forests anchored. -/
theorem anchored_run {grove : Grove} (anchored : ∀ forest ∈ grove, forest.Anchored)
    (step : GroveStep) : ∀ forest ∈ grove.run step, forest.Anchored := by
  apply forall_run anchored Forest.sound_empty.anchored
  case loaded => exact fun _ _ loaded => (Document.sound_toForest loaded).anchored
  case copied =>
    intro forest id copy forestAnchored copies
    obtain ⟨branch, read, rfl⟩ := Forest.copy_eq_ok_iff.mp copies
    have mirrors := (Forest.mirrors_of_branchWithin read).2
    exact (mirrors.sound_toForest_of_anchored forestAnchored).anchored
  case operated => exact fun _ operation forestAnchored => forestAnchored.run operation
  case grafted =>
    exact fun _ _ _ _ _ _ otherAnchored _ forestAnchored =>
      forestAnchored.edit_graft otherAnchored

theorem anchored_runAll (steps : List GroveStep) :
    ∀ forest ∈ runAll steps, forest.Anchored := by
  induction steps using List.reverseRecOn with
  | nil => exact fun _ member => absurd member List.not_mem_nil
  | append_singleton steps last inductionHypothesis =>
      rw [runAll_concat]
      exact anchored_run inductionHypothesis last

/-- Whatever forests are planted, changed and moved into each other, links to
parents are answered and ways up end.  So no climb is endless, and no child is
missing from the list of its parent when it is to be replaced: what stops an
edit of links, other than a refusal, is a name from elsewhere. -/
theorem parents_list_throughout (steps : List GroveStep) (forest : Forest)
    (reached : forest ∈ runAll steps) :
    (∀ child parent, forest.parentOf child = some parent →
      parent < forest.size ∧ forest.Lists parent child) ∧
    (∀ id, forest.EndsAbove id) ∧
    (∀ ancestor id, id < forest.size → ∃ answer : Bool,
      forest.isAncestorOrSelf ancestor id = .ok answer ∧
        (answer = true ↔ forest.IsAbove ancestor id)) ∧
    (∀ parent child breach,
      (forest.edit (Edit.addChild parent child)).1 = .error (.breach breach) →
        breach.IsForeign) ∧
    (∀ parent children breach,
      (forest.edit (Edit.setChildren parent children)).1 = .error (.breach breach) →
        breach.IsForeign) ∧
    (∀ former replacement breach,
      (forest.edit (Edit.replace former replacement)).1 = .error (.breach breach) →
        breach.IsForeign) := by
  have anchored := anchored_runAll steps forest reached
  refine ⟨?_, anchored.endsAbove, ?_, ?_, ?_, ?_⟩
  · exact fun child parent linked => ⟨anchored.parent_lt linked, anchored.listed linked⟩
  · exact fun ancestor id inside => anchored.exists_isAncestorOrSelf ancestor inside
  · exact fun parent child _ stopped =>
      (Edit.KeepsAnchored.addChild parent child forest anchored).isForeign stopped
  · exact fun parent children _ stopped =>
      (Edit.KeepsAnchored.setChildren parent children forest anchored).isForeign stopped
  · exact fun former replacement _ stopped =>
      (Edit.KeepsAnchored.replace former replacement forest anchored).isForeign stopped

/-- The root takes the place of another node, its forest is moved, and then the
stale owner of the root comes below it. -/
def moveOfOwner : List GroveStep :=
  .plant :: .plant ::
    [.add (.wrapper .group), .add (.leaf .matchAll), .add (.wrapper .group),
      .addChild 0 1, .setRoot 2, .replace 1 2].map (.operate 1) ++
    [.graft 1 0, .operate 0 (.addChild 2 0)]

/-- The lists go round in a circle, the ways up do not. -/
theorem parents_list_throughout_moveOfOwner :
    ∃ forest ∈ runAll moveOfOwner,
      forest.Lists 0 2 ∧ forest.parentOf 2 = none ∧
      forest.parentOf 0 = some 2 ∧ (2 < forest.size ∧ forest.Lists 2 0) ∧
      forest.EndsAbove 0 ∧
      (∃ answer : Bool, forest.isAncestorOrSelf 0 2 = .ok answer ∧
        (answer = true ↔ forest.IsAbove 0 2)) ∧
      (forest.edit (Edit.replace 0 9)).1 = .error (.breach (.missing 9 3)) ∧
      (Breach.missing 9 3).IsForeign := by
  have reached : (runAll moveOfOwner).headD .empty ∈ runAll moveOfOwner :=
    List.mem_cons_self
  obtain ⟨listed, ends, climbs, _, _, replaces⟩ :=
    parents_list_throughout moveOfOwner _ reached
  have linked : ((runAll moveOfOwner).headD .empty).parentOf 0 = some 2 := by
    decide +kernel
  have stopped : (((runAll moveOfOwner).headD .empty).edit (Edit.replace 0 9)).1 =
      .error (.breach (.missing 9 3)) := by
    decide +kernel
  refine ⟨_, reached, ?_, by decide +kernel, linked, listed 0 2 linked, ends 0,
    climbs 0 2 (by decide +kernel), stopped, replaces 0 9 _ stopped⟩
  unfold Forest.Lists
  decide +kernel

end Grove

/-- A forest that comes about in some grove. -/
def Forest.IsReachable (forest : Forest) : Prop :=
  ∃ steps, forest ∈ Grove.runAll steps

theorem Forest.IsReachable.anchored {forest : Forest} (reachable : forest.IsReachable) :
    forest.Anchored := by
  obtain ⟨steps, reached⟩ := reachable
  exact Grove.anchored_runAll steps forest reached

end QueryForest
