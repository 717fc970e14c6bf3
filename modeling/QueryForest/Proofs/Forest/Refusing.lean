import QueryForest.Proofs.Forest.Gathering

/-!
# When edits fail

In a sound forest and for names of its arena, an edit of links fails exactly
where a new link would not fit: a leaf gets no child, a wrapper no second one,
nobody comes below itself or twice into one list, and a node that stands nowhere
has no place to give away.  All of this is found out before anything changes.
-/

namespace QueryForest.Forest

def arityOf (forest : Forest) (id : NodeId) : Option Arity :=
  (forest.kindOf id).map Kind.arity

/-- A node cannot be the next child of another one. -/
def RefusesChild (forest : Forest) (parent child : NodeId) : Prop :=
  forest.arityOf parent = some .leaf ∨
    (forest.arityOf parent = some .one ∧ forest.childrenOf parent ≠ []) ∨
    forest.IsAbove child parent

def RefusesChildren (forest : Forest) (parent : NodeId) (children : List NodeId) : Prop :=
  (forest.arityOf parent = some .leaf ∧ children ≠ []) ∨
    (forest.arityOf parent = some .one ∧ 1 < children.length) ∨
    (∃ child ∈ children, forest.IsAbove child parent) ∨
    ¬ children.Nodup

/-- A node cannot have the place of another one. -/
def RefusesReplacement (forest : Forest) (former replacement : NodeId) : Prop :=
  former ≠ replacement ∧
    ((forest.parentOf former = none ∧ forest.root ≠ some former) ∨
      ∃ parent, forest.parentOf former = some parent ∧ forest.IsAbove replacement parent)

/-- An edit fails under a condition and no other, as an action that is not
supported, and leaves a given forest when it fails. -/
structure FailsExactly {Result : Type} (forest : Forest) (change : Edit Result)
    (condition : Prop) (left : Forest) : Prop where
  fails_iff : (∃ halt, (forest.edit change).1 = .error halt) ↔ condition
  refused : ∀ halt, (forest.edit change).1 = .error halt →
    ∃ variant action, halt = .error (.actionNotSupported variant action)
  unchanged : ∀ halt, (forest.edit change).1 = .error halt → (forest.edit change).2 = left

variable {forest : Forest}

namespace FailsExactly

variable {Result Other : Type} {condition : Prop} {left : Forest}

theorem of_refused {change : Edit Result} (holds : condition)
    (stopped : ∃ variant action,
      forest.edit change = (.error (.error (.actionNotSupported variant action)), left)) :
    forest.FailsExactly change condition left := by
  obtain ⟨variant, action, stopped⟩ := stopped
  constructor
  · exact iff_of_true ⟨_, congrArg Prod.fst stopped⟩ holds
  · intro halt fails
    rw [stopped] at fails
    cases fails
    exact ⟨variant, action, rfl⟩
  · intro _ _
    rw [stopped]

theorem of_done {change : Edit Result} (fits : ¬ condition)
    (done : ∃ result after, forest.edit change = (.ok result, after)) :
    forest.FailsExactly change condition left := by
  obtain ⟨result, after, done⟩ := done
  have never : ∀ halt, (forest.edit change).1 ≠ .error halt := by
    intro halt fails
    rw [done] at fails
    cases fails
  constructor
  · exact iff_of_false (fun ⟨halt, fails⟩ => never halt fails) fits
  · exact fun halt fails => absurd fails (never halt)
  · exact fun halt fails => absurd fails (never halt)

theorem of_edit_eq {other : Forest} {change instead : Edit Result}
    (same : forest.edit change = other.edit instead)
    (exactly : other.FailsExactly instead condition left) :
    forest.FailsExactly change condition left := by
  constructor
  · rw [same]
    exact exactly.fails_iff
  · rw [same]
    exact exactly.refused
  · rw [same]
    exact exactly.unchanged

/-- What follows an edit does not change when it fails, as long as it always
ends well itself. -/
theorem bind {first : Edit Result} (exactly : forest.FailsExactly first condition left)
    {next : Result → Edit Other}
    (ends : ∀ result after, forest.edit first = (.ok result, after) →
      ∃ last final, after.edit (next result) = (.ok last, final)) :
    forest.FailsExactly (first >>= next) condition left := by
  cases outcome : forest.edit first with
  | mk result after =>
      cases result with
      | error halt =>
          have fails : (forest.edit first).1 = .error halt := congrArg Prod.fst outcome
          obtain ⟨variant, action, rfl⟩ := exactly.refused halt fails
          refine of_refused (exactly.fails_iff.mp ⟨_, fails⟩) ⟨variant, action, ?_⟩
          rw [edit_bind_of_error _ outcome, ← exactly.unchanged _ fails, outcome]
      | ok result =>
          have fits : ¬ condition := by
            intro holds
            obtain ⟨halt, fails⟩ := exactly.fails_iff.mpr holds
            rw [outcome] at fails
            cases fails
          refine of_done fits ?_
          rw [edit_bind_of_ok _ outcome]
          exact ends result after outcome

end FailsExactly

theorem arityOf_of_getElem? {id : NodeId} {node : Node}
    (present : forest.nodes[id]? = some node) :
    forest.arityOf id = some node.kind.arity := by
  rw [arityOf, kindOf_of_getElem? present, Option.map_some]

/-- A node takes no other child where it has no room or the child is above it. -/
theorem refusesChild_iff {parent child : NodeId} {node : Node}
    (present : forest.nodes[parent]? = some node) :
    forest.RefusesChild parent child ↔
      ¬ node.kind.arity.admits (node.children.length + 1) ∨ forest.IsAbove child parent := by
  rw [RefusesChild, arityOf_of_getElem? present, childrenOf_of_getElem? present, ← or_assoc]
  apply or_congr_left
  cases node.kind.arity with
  | leaf => simp [Arity.admits]
  | one => simp [Arity.admits]
  | many => simp [Arity.admits]

theorem refusesChildren_iff {parent : NodeId} {children : List NodeId} {node : Node}
    (present : forest.nodes[parent]? = some node) :
    forest.RefusesChildren parent children ↔
      ¬ (node.kind.arity.admits children.length ∧
        (∀ child ∈ children, ¬ forest.IsAbove child parent) ∧ children.Nodup) := by
  rw [RefusesChildren, arityOf_of_getElem? present, not_and_or, not_and_or, ← or_assoc]
  have unfit : (∃ child ∈ children, forest.IsAbove child parent) ↔
      ¬ ∀ child ∈ children, ¬ forest.IsAbove child parent := by
    simp
  rw [unfit]
  apply or_congr_left
  cases node.kind.arity with
  | leaf => simp [Arity.admits]
  | one => simp [Arity.admits]
  | many => simp [Arity.admits]

namespace Sound

theorem failsExactly_addChild (sound : forest.Sound) {parent child : NodeId}
    (parentInside : parent < forest.size) (childInside : child < forest.size) :
    forest.FailsExactly (Edit.addChild parent child)
      (forest.RefusesChild parent child) forest := by
  obtain ⟨node, present⟩ := exists_node_of_lt parentInside
  rw [refusesChild_iff present]
  by_cases refused : ¬ node.kind.arity.admits (node.children.length + 1) ∨
      forest.IsAbove child parent
  · exact .of_refused refused ⟨_, sound.anchored.edit_addChild_of_refused present refused⟩
  · obtain ⟨room, apart⟩ := not_or.mp refused
    have different : parent ≠ child := fun same => apart (same ▸ .self)
    have attached := sound.edit_attach parentInside childInside different
    have added :=
      sound.anchored.edit_addChild_of_free present (Classical.not_not.mp room) apart
    exact .of_done refused ⟨(), _, added.trans attached⟩

theorem failsExactly_setChildren (sound : forest.Sound) {parent : NodeId}
    {children : List NodeId} (parentInside : parent < forest.size)
    (inside : ∀ child ∈ children, child < forest.size) :
    forest.FailsExactly (Edit.setChildren parent children)
      (forest.RefusesChildren parent children) forest := by
  obtain ⟨node, present⟩ := exists_node_of_lt parentInside
  rw [refusesChildren_iff present]
  by_cases free : node.kind.arity.admits children.length ∧
      (∀ child ∈ children, ¬ forest.IsAbove child parent) ∧ children.Nodup
  · obtain ⟨room, apart, nodup⟩ := free
    have attached :=
      (sound.canTake_orphaned present room apart).edit_forM_attach (by simpa using inside)
    have set := sound.edit_setChildren_of_free present room apart nodup
    exact .of_done (not_not_intro ⟨room, apart, nodup⟩) ⟨(), _, set.trans attached⟩
  · exact .of_refused free ⟨_, sound.anchored.edit_setChildren_of_refused present free⟩

theorem failsExactly_replace (sound : forest.Sound) {former replacement : NodeId}
    (formerInside : former < forest.size) (inside : replacement < forest.size) :
    forest.FailsExactly (Edit.replace former replacement)
      (forest.RefusesReplacement former replacement) forest := by
  obtain ⟨node, present⟩ := exists_node_of_lt formerInside
  by_cases same : former = replacement
  · refine .of_done (fun refused => refused.1 same) ⟨(), forest, ?_⟩
    unfold Edit.replace
    rw [if_pos same]
    rfl
  cases linked : forest.parentOf former with
  | none =>
      by_cases isRoot : forest.root = some former
      · have fits : ¬ forest.RefusesReplacement former replacement := by
          rintro ⟨_, ⟨_, notRoot⟩ | ⟨parent, otherwise, _⟩⟩
          · exact notRoot isRoot
          · rw [linked] at otherwise
            cases otherwise
        have replaced := edit_replace_of_root same present linked isRoot
        exact .of_done fits ⟨(), _, replaced.trans (sound.edit_setRoot inside)⟩
      · exact .of_refused ⟨same, .inl ⟨linked, isRoot⟩⟩
          ⟨_, _, edit_replace_of_detached same present linked isRoot⟩
  | some parent =>
      have goesBelow : forest.edit (Edit.replace former replacement) = _ :=
        edit_replace_of_linked same present linked
      by_cases above : forest.IsAbove replacement parent
      · obtain ⟨parentNode, parentPresent⟩ := exists_node_of_lt (sound.parent_lt linked)
        have stopped : forest.edit (Edit.replaceBelow parent former replacement) = _ :=
          sound.anchored.edit_replaceBelow_of_isAbove parentPresent above
        exact .of_refused ⟨same, .inr ⟨parent, linked, above⟩⟩
          ⟨_, _, goesBelow.trans stopped⟩
      · have fits : ¬ forest.RefusesReplacement former replacement := by
          rintro ⟨_, ⟨parentless, _⟩ | ⟨other, otherLinked, otherAbove⟩⟩
          · rw [linked] at parentless
            cases parentless
          · rw [linked] at otherLinked
            cases otherLinked
            exact above otherAbove
        have replaced := sound.edit_replaceBelow same linked inside above
        exact .of_done fits ⟨(), _, goesBelow.trans replaced⟩

/-- A node is added before it is given children, so it is there when they are
refused. -/
theorem failsExactly_addWithChildren (sound : forest.Sound) (kind : Kind)
    {children : List NodeId} (inside : ∀ child ∈ children, child < forest.size + 1) :
    forest.FailsExactly (Edit.addWithChildren kind children)
      ((forest.push kind).RefusesChildren forest.size children) (forest.push kind) := by
  have fresh : forest.size < (forest.push kind).size := by
    rw [size_push]
    exact Nat.lt_succ_self _
  have set := (sound.push kind).failsExactly_setChildren fresh
    (fun child member => (size_push forest kind).symm ▸ inside child member)
  refine .of_edit_eq (edit_bind_of_ok _ (Edit.run_add forest kind)) (set.bind ?_)
  exact fun _ after _ => ⟨_, after, rfl⟩

theorem failsExactly_addProximity (sound : forest.Sound) (near : Proximity)
    {children : List NodeId} (inside : ∀ child ∈ children, child < forest.size + 1) :
    forest.FailsExactly (Edit.addProximity near children)
      ((forest.push (.composite (.proximity near))).RefusesChildren forest.size children)
      (forest.push (.composite (.proximity near))) := by
  refine (sound.failsExactly_addWithChildren _ inside).bind ?_
  intro id after added
  cases edit_addWithChildren_ok added
  obtain ⟨moved, gathers⟩ :=
    sound.gathers_addWithChildren (.composite (.proximity near)) children
  have afterSound := (Edit.GoesInSteps.addWithChildren (.composite (.proximity near)) children
    forest sound).sound sound
  rw [added] at gathers afterSound
  have fresh : forest.size < after.size := by
    have known := gathers.kindOf forest.size
    rw [kindOf_of_getElem? (getElem?_push_self ..), Option.map_some] at known
    obtain ⟨node, present, _⟩ := Option.map_eq_some_iff.mp known
    exact lt_size_of_getElem? present
  exact ⟨_, _, edit_bind_of_ok _ (afterSound.edit_bindFields fresh)⟩

/-- Edits of links fail exactly where the new links do not fit, and leave nothing
half done. -/
theorem fails_exactly (sound : forest.Sound) :
    (∀ parent child, parent < forest.size → child < forest.size →
      forest.FailsExactly (Edit.addChild parent child)
        (forest.RefusesChild parent child) forest) ∧
    (∀ parent children, parent < forest.size → (∀ child ∈ children, child < forest.size) →
      forest.FailsExactly (Edit.setChildren parent children)
        (forest.RefusesChildren parent children) forest) ∧
    (∀ former replacement, former < forest.size → replacement < forest.size →
      forest.FailsExactly (Edit.replace former replacement)
        (forest.RefusesReplacement former replacement) forest) ∧
    (∀ kind children, (∀ child ∈ children, child < forest.size + 1) →
      forest.FailsExactly (Edit.addWithChildren kind children)
        ((forest.push kind).RefusesChildren forest.size children) (forest.push kind)) ∧
    (∀ near children, (∀ child ∈ children, child < forest.size + 1) →
      forest.FailsExactly (Edit.addProximity near children)
        ((forest.push (.composite (.proximity near))).RefusesChildren forest.size children)
        (forest.push (.composite (.proximity near)))) :=
  ⟨fun _ _ => sound.failsExactly_addChild, fun _ _ => sound.failsExactly_setChildren,
    fun _ _ => sound.failsExactly_replace, fun kind _ => sound.failsExactly_addWithChildren kind,
    fun near _ => sound.failsExactly_addProximity near⟩

end Sound

def grouped : Forest :=
  Operation.runAll .empty
    [.add (.wrapper .group), .add (.leaf .matchAll), .add (.composite (.junction .conjunction)),
      .addChild 0 1, .addChild 2 0]

/-- A child above its parent, an attached one, a replacement above the place,
and a new node that is to be its own child. -/
theorem fails_exactly_grouped :
    grouped.Sound ∧
    (0 < grouped.size ∧ 2 < grouped.size ∧ grouped.RefusesChild 0 2 ∧
      grouped.FailsExactly (Edit.addChild 0 2) (grouped.RefusesChild 0 2) grouped) ∧
    ((∀ child ∈ [1], child < grouped.size) ∧ ¬ grouped.RefusesChildren 2 [1] ∧
      grouped.FailsExactly (Edit.setChildren 2 [1]) (grouped.RefusesChildren 2 [1])
        grouped) ∧
    (1 < grouped.size ∧ grouped.RefusesReplacement 1 2 ∧
      grouped.FailsExactly (Edit.replace 1 2) (grouped.RefusesReplacement 1 2) grouped) ∧
    (∀ child ∈ [3], child < grouped.size + 1) ∧
    (grouped.push (.composite (.junction .conjunction))).RefusesChildren grouped.size [3] ∧
    grouped.FailsExactly (Edit.addWithChildren (.composite (.junction .conjunction)) [3])
      ((grouped.push (.composite (.junction .conjunction))).RefusesChildren grouped.size [3])
      (grouped.push (.composite (.junction .conjunction))) := by
  have sound : grouped.Sound := Operation.sound_runAll sound_empty _
  obtain ⟨adds, sets, replaces, addsNew, _⟩ := sound.fails_exactly
  have twoInside : 2 < grouped.size := by decide +kernel
  have above : grouped.IsAbove 2 0 := .linked (by decide +kernel) .self
  have freshInside : ∀ child ∈ [3], child < grouped.size + 1 := by decide +kernel
  have leafInside : ∀ child ∈ [1], child < grouped.size := by decide +kernel
  have fits : ¬ grouped.RefusesChildren 2 [1] := by
    have isMany : grouped.arityOf 2 = some .many := by decide +kernel
    have parentless : grouped.parentOf 2 = none := by decide +kernel
    rw [RefusesChildren, isMany]
    rintro (⟨⟨⟩, _⟩ | ⟨⟨⟩, _⟩ | ⟨child, member, isAbove⟩ | twice)
    · rw [isAbove.eq_of_parentOf_none parentless] at member
      exact absurd member (by decide)
    · exact twice (List.nodup_singleton 1)
  refine ⟨sound, ⟨by decide +kernel, twoInside, .inr (.inr above), ?_⟩,
    ⟨leafInside, fits, ?_⟩, ⟨by decide +kernel, ?_, ?_⟩, freshInside, ?_, ?_⟩
  · exact adds 0 2 (by decide +kernel) twoInside
  · exact sets 2 [1] twoInside leafInside
  · exact ⟨by decide, .inr ⟨0, by decide +kernel, above⟩⟩
  · exact replaces 1 2 (by decide +kernel) twoInside
  · exact .inr (.inr (.inl ⟨3, List.mem_singleton_self 3, .self⟩))
  · exact addsNew (.composite (.junction .conjunction)) [3] freshInside

end QueryForest.Forest
