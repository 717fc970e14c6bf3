import Mathlib.Logic.Relation
import QueryForest.Proofs.Forest.Guard
import QueryForest.Proofs.Forest.Layout

/-!
# Steps that edits are made of

Whatever an edit does to a sound forest, it does in steps that take sound
forests to sound forests, also when it stops in the middle.  All steps but two
also leave the root without a parent: the two are listed apart, since writing
into a term touches no link at all, and taking a place below a parent is the
one way in which a root gets a parent.
-/

namespace QueryForest

namespace Forest

/-- The plain steps. -/
inductive Step : Forest → Forest → Prop where
  | pushed (forest : Forest) (kind : Kind) : Step forest (forest.push kind)
  | severed (forest : Forest) (child : NodeId) :
      Step forest (forest.severed child)
  | rooted {forest : Forest} {root : NodeId} (inside : root < forest.size) :
      Step forest { forest.severed root with root := some root }
  | placed {forest : Forest} {parent child : NodeId}
      (parentInside : parent < forest.size) (childInside : child < forest.size)
      (apart : ¬ forest.IsAbove child parent)
      (room : ∀ kind, forest.kindOf parent = some kind →
        kind.arity.admits
          (((forest.childrenOf parent).filter (· != child)).length + 1)) :
      Step forest ((forest.placed parent child).bound parent child)
  | orphaned (forest : Forest) (parent : NodeId) :
      Step forest (forest.orphaned parent)
  | bound {forest : Forest} {parent child : NodeId}
      (linked : forest.parentOf child = some parent) :
      Step forest (forest.bound parent child)
  | copied {forest : Forest} {id : NodeId} {branch : Branch}
      (read : forest.branch id = .ok branch) :
      Step forest (forest.joined branch.toForest)

def Steps : Forest → Forest → Prop :=
  Relation.ReflTransGen Step

variable {forest after : Forest}

/-- A node leaves its parent when it becomes the root. -/
theorem rootParentless_rooted {root : NodeId} (inside : root < forest.size) :
    ({ forest.severed root with root := some root } : Forest).RootParentless := by
  intro other rooted
  cases rooted
  refine ⟨?_, ?_⟩
  · show root < (forest.severed root).size
    rwa [size_severed]
  · show (forest.severed root).parentOf root = none
    rw [parentOf_severed, if_pos rfl]

namespace Step

theorem sound (step : forest.Step after) (before : forest.Sound) :
    after.Sound := by
  cases step with
  | pushed kind => exact before.push kind
  | severed child => exact before.severed child
  | rooted inside => exact (before.severed _).rooted (by rwa [size_severed])
  | placed parentInside childInside apart room =>
      exact (before.placed parentInside childInside apart room).bound _ _
  | orphaned parent => exact before.orphaned parent
  | bound linked => exact before.bound _ _
  | copied read =>
      exact before.joined ((mirrors_of_branchWithin read).2.sound_toForest before)

/-- No plain step gives a parent to the root. -/
theorem rootParentless (step : forest.Step after)
    (before : forest.RootParentless) : after.RootParentless := by
  intro root rooted
  cases step with
  | pushed kind =>
      have stays := before root rooted
      rw [size_push, parentOf_push]
      exact ⟨Nat.lt_succ_of_lt stays.1, stays.2⟩
  | severed child =>
      have stays := before root rooted
      rw [size_severed, parentOf_severed, stays.2, ite_self]
      exact ⟨stays.1, rfl⟩
  | rooted inside => exact rootParentless_rooted inside root rooted
  | @placed parent child parentInside childInside apart room =>
      -- Who goes to a parent is no longer the root, so a root that is left has not moved.
      have kept : (if forest.root = some child then none else forest.root)
          = some root := rooted
      by_cases wasRoot : forest.root = some child
      · rw [if_pos wasRoot] at kept
        cases kept
      · rw [if_neg wasRoot] at kept
        have stays := before root kept
        have different : root ≠ child := by
          rintro rfl
          exact wasRoot kept
        rw [size_bound, size_placed, parentOf_bound,
          parentOf_placed forest child parent root childInside, if_neg different]
        exact stays
  | orphaned parent =>
      have stays := before root rooted
      rw [size_orphaned, parentOf_orphaned, stays.2, ite_self]
      exact ⟨stays.1, rfl⟩
  | bound linked =>
      rw [size_bound, parentOf_bound]
      exact before root rooted
  | copied read =>
      have stays := before root rooted
      rw [size_joined, parentOf_joined_left _ _ stays.1]
      exact ⟨Nat.lt_add_right _ stays.1, stays.2⟩

end Step

namespace Steps

theorem sound (steps : forest.Steps after) (before : forest.Sound) :
    after.Sound := by
  induction steps with
  | refl => exact before
  | tail _ last inductionHypothesis => exact last.sound inductionHypothesis

theorem rootParentless (steps : forest.Steps after)
    (before : forest.RootParentless) : after.RootParentless := by
  induction steps with
  | refl => exact before
  | tail _ last inductionHypothesis =>
      exact last.rootParentless inductionHypothesis

end Steps

/-- A node that is no ancestor of another node's parent can take the place of
that other node. -/
structure CanSubstitute (forest : Forest) (parent former replacement : NodeId) :
    Prop where
  different : former ≠ replacement
  linked : forest.parentOf former = some parent
  inside : replacement < forest.size
  apart : ¬ forest.IsAbove replacement parent

namespace CanSubstitute

variable {parent former replacement : NodeId}

theorem sound (can : forest.CanSubstitute parent former replacement)
    (before : forest.Sound) :
    ((forest.substituted parent former replacement).bound
      parent replacement).Sound :=
  (before.substituted can.inside can.different can.linked can.apart).bound _ _

/-- Taking a place leaves the root without a parent exactly when it is not the
root that takes it. -/
theorem rootParentless_iff (can : forest.CanSubstitute parent former replacement)
    (before : forest.RootParentless) :
    ((forest.substituted parent former replacement).bound
        parent replacement).RootParentless ↔
      forest.root ≠ some replacement := by
  have parents := fun id =>
    parentOf_substituted forest parent former replacement id can.inside
  constructor
  · intro parentless wasRoot
    have stays := (parentless replacement wasRoot).2
    rw [parentOf_bound, parents, if_neg (Ne.symm can.different), if_pos rfl] at stays
    cases stays
  · intro notRoot root rooted
    have stays := before root rooted
    have different : root ≠ replacement := by
      rintro rfl
      exact notRoot rooted
    rw [size_bound, size_substituted, parentOf_bound, parents, if_neg different,
      stays.2, ite_self]
    exact ⟨stays.1, rfl⟩

end CanSubstitute

theorem RootParentless.rekinded (before : forest.RootParentless) (id : NodeId)
    (change : Kind → Kind) : (forest.rekinded id change).RootParentless := by
  intro root rooted
  rw [size_rekinded, parentOf_rekinded]
  exact before root rooted

/-! ## Edits in steps -/

/-- A list of nodes goes to a parent step by step, up to one that is not in the
arena. -/
theorem CanTake.steps {parent : NodeId} {children : List NodeId}
    (canTake : forest.CanTake parent children) :
    forest.Steps (forest.edit (children.forM (Edit.attach parent))).2 := by
  induction children generalizing forest with
  | nil => exact .refl
  | cons head tail inductionHypothesis =>
      rw [List.forM]
      by_cases inside : head < forest.size
      · rw [edit_bind_of_ok _ (canTake.edit_attach inside)]
        have rest := inductionHypothesis (canTake.adopt inside)
        refine .head ?_ rest
        refine .placed canTake.inside inside
          (canTake.apart head List.mem_cons_self) fun kind known => ?_
        apply (canTake.room kind known).mono
        have fewer := List.length_filter_le (· != head) (forest.childrenOf parent)
        rw [List.length_cons]
        omega
      · rw [edit_bind_of_error _ (edit_attach_outside inside)]
        exact .refl

/-- The children of a node take over its field step by step. -/
theorem steps_forM_bindField {parent : NodeId} {children : List NodeId}
    (inside : parent < forest.size)
    (linked : ∀ child ∈ children, forest.parentOf child = some parent) :
    forest.Steps (forest.edit (children.forM (Edit.bindField parent))).2 := by
  induction children generalizing forest with
  | nil => exact .refl
  | cons head tail inductionHypothesis =>
      have headLinked := linked head List.mem_cons_self
      rw [List.forM,
        edit_bind_of_ok _ (edit_bindField inside (lt_size_of_parentOf headLinked))]
      refine .head (.bound headLinked) (inductionHypothesis ?_ ?_)
      · rwa [size_bound]
      · intro child member
        rw [parentOf_bound]
        exact linked child (List.mem_cons_of_mem head member)

end Forest

namespace Edit

variable {Result Other : Type}

/-- An edit that changes sound forests by plain steps, whether it ends well or
stops. -/
def GoesInSteps (change : Edit Result) : Prop :=
  ∀ forest : Forest, forest.Sound → forest.Steps (forest.edit change).2

namespace GoesInSteps

open Forest

theorem pure (result : Result) : (Pure.pure result : Edit Result).GoesInSteps :=
  fun _ _ => .refl

theorem bind {first : Edit Result} {next : Result → Edit Other}
    (firstGoes : first.GoesInSteps) (nextGoes : ∀ result, (next result).GoesInSteps) :
    (first >>= next).GoesInSteps := by
  intro forest sound
  have begins := firstGoes forest sound
  rw [edit_bind]
  rcases outcome : forest.edit first with ⟨halt | result, after⟩
  · rw [outcome] at begins
    exact begins
  · rw [outcome] at begins
    exact begins.trans (nextGoes result after (begins.sound sound))

theorem add (kind : Kind) : (Edit.add kind).GoesInSteps := by
  intro forest _
  rw [Edit.run_add]
  exact .single (.pushed forest kind)

theorem addChild (parent child : NodeId) :
    (Edit.addChild parent child).GoesInSteps := by
  intro forest sound
  by_cases parentInside : parent < forest.size
  · obtain ⟨node, present⟩ := exists_node_of_lt parentInside
    by_cases refused : ¬ node.kind.arity.admits (node.children.length + 1) ∨
        forest.IsAbove child parent
    · obtain ⟨action, stopped⟩ := sound.anchored.edit_addChild_of_refused present refused
      rw [stopped]
      exact .refl
    · obtain ⟨room, apart⟩ := not_or.mp refused
      have room := Classical.not_not.mp room
      rw [sound.anchored.edit_addChild_of_free present room apart]
      by_cases childInside : child < forest.size
      · have different : parent ≠ child := fun same => apart (same ▸ .self)
        rw [sound.edit_attach parentInside childInside different]
        refine .single (.placed parentInside childInside apart fun kind known => ?_)
        rw [kindOf_of_getElem? present] at known
        cases known
        rw [childrenOf_of_getElem? present]
        exact room.mono (Nat.succ_le_succ (List.length_filter_le ..))
      · rw [edit_attach_outside childInside]
        exact .refl
  · unfold Edit.addChild
    rw [edit_bind_of_error _ (edit_node_of_none (getElem?_of_not_lt parentInside))]
    exact .refl

theorem setChildren (parent : NodeId) (children : List NodeId) :
    (Edit.setChildren parent children).GoesInSteps := by
  intro forest sound
  by_cases inside : parent < forest.size
  · obtain ⟨node, present⟩ := exists_node_of_lt inside
    by_cases free : node.kind.arity.admits children.length ∧
        (∀ child ∈ children, ¬ forest.IsAbove child parent) ∧ children.Nodup
    · obtain ⟨room, apart, nodup⟩ := free
      rw [sound.edit_setChildren_of_free present room apart nodup]
      exact .head (.orphaned forest parent)
        (sound.canTake_orphaned present room apart).steps
    · obtain ⟨action, stopped⟩ := sound.anchored.edit_setChildren_of_refused present free
      rw [stopped]
      exact .refl
  · unfold Edit.setChildren
    rw [edit_bind_of_error _ (edit_node_of_none (getElem?_of_not_lt inside))]
    exact .refl

theorem addWithChildren (kind : Kind) (children : List NodeId) :
    (Edit.addWithChildren kind children).GoesInSteps :=
  (add kind).bind fun id => (setChildren id children).bind fun _ => .pure id

theorem bindFields (id : NodeId) : (Edit.bindFields id).GoesInSteps := by
  intro forest sound
  unfold Edit.bindFields
  by_cases inside : id < forest.size
  · obtain ⟨node, present⟩ := exists_node_of_lt inside
    rw [edit_bind_of_ok _ (edit_node_of_some present)]
    by_cases near : node.kind.proximity?.isSome
    · rw [if_pos near]
      apply steps_forM_bindField inside
      intro child member
      apply (sound.mem_childrenOf_iff id child).mp
      rwa [childrenOf_of_getElem? present]
    · rw [if_neg near]
      exact .refl
  · rw [edit_bind_of_error _ (edit_node_of_none (getElem?_of_not_lt inside))]
    exact .refl

theorem addProximity (near : Proximity) (children : List NodeId) :
    (Edit.addProximity near children).GoesInSteps :=
  (addWithChildren _ children).bind fun id => (bindFields id).bind fun _ => .pure id

theorem detach (id : NodeId) : (Edit.detach id).GoesInSteps := by
  intro forest sound
  by_cases inside : id < forest.size
  · rw [sound.edit_detach inside]
    exact .single (.severed forest id)
  · rw [edit_detach_outside inside]
    exact .refl

theorem setRoot (id : NodeId) : (Edit.setRoot id).GoesInSteps := by
  intro forest sound
  by_cases inside : id < forest.size
  · rw [sound.edit_setRoot inside]
    exact .single (.rooted inside)
  · rw [edit_setRoot_outside inside]
    exact .refl

theorem copyBranch (id : NodeId) : (Edit.copyBranch id).GoesInSteps := by
  intro forest sound
  by_cases inside : id < forest.size
  · obtain ⟨branch, read, _⟩ := sound.exists_branch inside
    rw [edit_copyBranch read]
    exact .single (.copied read)
  · rw [edit_copyBranch_outside inside]
    exact .refl

end GoesInSteps

end Edit

namespace Forest

/-- Replacing a node takes its place where that can be done. -/
theorem CanSubstitute.edit_replace {forest : Forest}
    {parent former replacement : NodeId}
    (can : forest.CanSubstitute parent former replacement) (sound : forest.Sound) :
    forest.edit (Edit.replace former replacement) =
      (.ok (), (forest.substituted parent former replacement).bound
        parent replacement) := by
  obtain ⟨node, present⟩ := exists_node_of_lt (lt_size_of_parentOf can.linked)
  rw [edit_replace_of_linked can.different present can.linked,
    sound.edit_replaceBelow can.different can.linked can.inside can.apart]

/-- Where no place can be taken, replacing a node changes nothing or makes the
replacement the root. -/
theorem Sound.edit_replace_of_cannot {forest : Forest} (sound : forest.Sound)
    {former replacement : NodeId}
    (cannot : ∀ parent, ¬ forest.CanSubstitute parent former replacement) :
    (forest.edit (Edit.replace former replacement)).2 = forest ∨
      replacement < forest.size ∧
        (forest.edit (Edit.replace former replacement)).2 =
          { forest.severed replacement with root := some replacement } := by
  by_cases same : former = replacement
  · unfold Edit.replace
    rw [if_pos same]
    exact .inl rfl
  by_cases formerInside : former < forest.size
  · obtain ⟨node, present⟩ := exists_node_of_lt formerInside
    cases linked : forest.parentOf former with
    | none =>
        by_cases isRoot : forest.root = some former
        · rw [edit_replace_of_root same present linked isRoot]
          by_cases inside : replacement < forest.size
          · rw [sound.edit_setRoot inside]
            exact .inr ⟨inside, rfl⟩
          · rw [edit_setRoot_outside inside]
            exact .inl rfl
        · rw [edit_replace_of_detached same present linked isRoot]
          exact .inl rfl
    | some parent =>
        have parentInside := sound.parent_lt linked
        rw [edit_replace_of_linked same present linked]
        by_cases above : forest.IsAbove replacement parent
        · obtain ⟨parentNode, parentPresent⟩ := exists_node_of_lt parentInside
          rw [sound.anchored.edit_replaceBelow_of_isAbove parentPresent above]
          exact .inl rfl
        · by_cases inside : replacement < forest.size
          · exact absurd ⟨same, linked, inside, above⟩ (cannot parent)
          · rw [sound.anchored.edit_replaceBelow_outside parentInside inside above]
            exact .inl rfl
  · unfold Edit.replace
    rw [if_neg same,
      edit_bind_of_error _ (edit_node_of_none (getElem?_of_not_lt formerInside))]
    exact .inl rfl

/-- Replacing a node goes in plain steps where no place can be taken. -/
theorem Sound.steps_replace {forest : Forest} (sound : forest.Sound)
    {former replacement : NodeId}
    (cannot : ∀ parent, ¬ forest.CanSubstitute parent former replacement) :
    forest.Steps (forest.edit (Edit.replace former replacement)).2 := by
  rcases sound.edit_replace_of_cannot cannot with unchanged | ⟨inside, becomesRoot⟩
  · rw [unchanged]
    exact .refl
  · rw [becomesRoot]
    exact .single (.rooted inside)

end Forest

end QueryForest
