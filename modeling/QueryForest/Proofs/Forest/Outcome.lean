import QueryForest.Proofs.Forest.Running
import QueryForest.Proofs.Forest.Soundness

/-!
# What edits do to anchored and to sound forests

Each edit of links, run in an anchored forest, either stops without a change or
makes one of the moves.  The steps in between, where only one direction of a
link is written yet, are not seen from outside.  In a sound forest the move is
the one that leaves no stale place in any list.
-/

namespace QueryForest.Forest

variable {forest : Forest}

theorem modifyNode_kind (forest : Forest) (id : NodeId) (change : Kind → Kind) :
    (forest.modifyNode id fun node => { node with kind := change node.kind }) =
      forest.rekinded id change := by
  rw [modifyNode_eq_revise]
  apply revise_congr
  intro other node _
  by_cases same : other = id
  · rw [if_pos same, if_pos same]
  · rw [if_neg same, if_neg same]

theorem edit_modifyTerm_of_some {id : NodeId} {found : Node}
    (present : forest.nodes[id]? = some found) (change : Term → Term) :
    forest.edit (Edit.modifyTerm id change) =
      (.ok found.kind.term?.isSome,
        forest.rekinded id (Kind.mapTerm change)) := by
  unfold Edit.modifyTerm
  rw [edit_bind_of_ok _ (edit_node_of_some present),
    edit_bind_of_ok _ (edit_modifyNode (lt_size_of_getElem? present) _), modifyNode_kind,
    edit_pure]

theorem edit_modifyTerm_of_none {id : NodeId}
    (absent : forest.nodes[id]? = none) (change : Term → Term) :
    forest.edit (Edit.modifyTerm id change) =
      (.error (.breach (.missing id forest.size)), forest) := by
  unfold Edit.modifyTerm
  rw [edit_bind_of_error _ (edit_node_of_none absent)]

theorem proximityOf_of_getElem? {id : NodeId} {found : Node}
    (present : forest.nodes[id]? = some found) :
    forest.proximityOf id = found.kind.proximity? := by
  rw [proximityOf, kindOf_of_getElem? present, Option.bind_some]

theorem rekinded_eq_self {id : NodeId} {change : Kind → Kind}
    (same : ∀ kind, change kind = kind) : forest.rekinded id change = forest := by
  unfold rekinded
  apply revise_eq_self
  intro other node _
  rw [same, ite_self]

/-- Binding gives a child the field of a parent that is a proximity node. -/
theorem edit_bindField {parent child : NodeId}
    (parentInside : parent < forest.size) (childInside : child < forest.size) :
    forest.edit (Edit.bindField parent child) =
      (.ok (), forest.bound parent child) := by
  obtain ⟨parentNode, parentPresent⟩ := exists_node_of_lt parentInside
  obtain ⟨childNode, childPresent⟩ := exists_node_of_lt childInside
  unfold Edit.bindField
  rw [edit_bind_of_ok _ (edit_node_of_some parentPresent), bound,
    proximityOf_of_getElem? parentPresent]
  cases parentNode.kind.proximity? with
  | none =>
      have unbound : forest.rekinded child (Kind.bound none) = forest :=
        rekinded_eq_self fun _ => rfl
      rw [unbound]
      rfl
  | some near =>
      simp only
      rw [edit_bind_of_ok _ (edit_modifyTerm_of_some childPresent _)]
      rfl

/-- Releasing a node without a parent changes nothing. -/
theorem released_eq_self {child : NodeId} (parentless : forest.parentOf child = none) :
    forest.released child = forest := by
  rw [released]
  apply revise_eq_self
  intro id node present
  have unlinked : ¬ forest.parentOf child = some id := by simp [parentless]
  by_cases isChild : id = child
  · subst isChild
    rw [parentOf_of_getElem? present] at parentless
    rw [if_pos rfl, if_neg unlinked, ← parentless]
  · rw [if_neg isChild, if_neg unlinked]

/-- Only the parent of a node of a sound forest lists it, so that leaving the
parent is leaving all lists. -/
theorem Sound.released_eq_severed (sound : forest.Sound) (child : NodeId) :
    forest.released child = forest.severed child := by
  apply revise_congr
  intro id node present
  by_cases linked : forest.parentOf child = some id
  · rw [if_pos linked]
  · have unlisted : child ∉ node.children := by
      rwa [← childrenOf_of_getElem? present, sound.mem_childrenOf_iff]
    have kept : node.children.filter (· != child) = node.children := by
      apply List.filter_eq_self.mpr
      intro other member
      exact bne_iff_ne.mpr (ne_of_mem_of_not_mem member unlisted)
    rw [if_neg linked, kept]

/-- Detaching a node of an anchored forest is releasing it. -/
theorem Anchored.edit_detach (anchored : forest.Anchored) {child : NodeId}
    (inside : child < forest.size) :
    forest.edit (Edit.detach child) = (.ok (), forest.released child) := by
  obtain ⟨childNode, childPresent⟩ := exists_node_of_lt inside
  unfold Edit.detach
  rw [edit_bind_of_ok _ (edit_node_of_some childPresent)]
  have childParent := parentOf_of_getElem? childPresent
  cases linked : childNode.parent with
  | none =>
      rw [linked] at childParent
      simp only [edit_pure, released_eq_self childParent]
  | some parent =>
      rw [linked] at childParent
      have different : parent ≠ child := by
        rintro rfl
        exact (anchored.endsAbove parent).not_isAbove_parent childParent .self
      simp only
      rw [edit_bind_of_ok _ (edit_modifyNode inside _),
        edit_modifyNode (by simpa using anchored.parent_lt childParent),
        modifyNode_eq_revise, modifyNode_eq_revise, revise_revise]
      refine congrArg (Prod.mk _) (revise_congr fun id node _ => ?_)
      by_cases isParent : id = parent
      · subst isParent
        simp [different, childParent]
      · by_cases isChild : id = child
        · simp [isChild, childParent, Ne.symm different, different]
        · simp [isParent, isChild, childParent, Ne.symm isParent]

theorem Sound.edit_detach (sound : forest.Sound) {child : NodeId}
    (inside : child < forest.size) :
    forest.edit (Edit.detach child) = (.ok (), forest.severed child) := by
  rw [sound.anchored.edit_detach inside, sound.released_eq_severed]

theorem edit_detach_outside {child : NodeId} (outside : ¬ child < forest.size) :
    forest.edit (Edit.detach child) =
      (.error (.breach (.missing child forest.size)), forest) := by
  unfold Edit.detach
  rw [edit_bind_of_error _ (edit_node_of_none (getElem?_of_not_lt outside))]

theorem Sound.edit_setRoot (sound : forest.Sound) {root : NodeId}
    (inside : root < forest.size) :
    forest.edit (Edit.setRoot root) =
      (.ok (), { forest.severed root with root := some root }) := by
  unfold Edit.setRoot
  rw [edit_bind_of_ok _ (sound.edit_detach inside), edit_modify]

theorem edit_setRoot_outside {root : NodeId} (outside : ¬ root < forest.size) :
    forest.edit (Edit.setRoot root) =
      (.error (.breach (.missing root forest.size)), forest) := by
  unfold Edit.setRoot
  rw [edit_bind_of_error _ (edit_detach_outside outside)]

/-- Attaching a node of an anchored forest to another one puts it at the end of
the list there. -/
theorem Anchored.edit_attach (anchored : forest.Anchored) {parent child : NodeId}
    (parentInside : parent < forest.size) (childInside : child < forest.size)
    (different : parent ≠ child) :
    forest.edit (Edit.attach parent child) =
      (.ok (), ((forest.released child).attached parent child).bound parent child) := by
  have relinked :
      ((((forest.released child).unrooted child).modifyNode child fun node =>
        { node with parent := some parent }).modifyNode parent fun node =>
          { node with children := node.children ++ [child] }) =
      (forest.released child).attached parent child := by
    rw [modifyNode_eq_revise, modifyNode_eq_revise, revise_revise]
    apply revise_congr
    intro id node _
    by_cases isChild : id = child
    · subst isChild
      simp [Ne.symm different]
    · by_cases isParent : id = parent
      · subst isParent
        simp [isChild]
      · simp [isChild, isParent]
  unfold Edit.attach
  rw [edit_bind_of_ok _ (anchored.edit_detach childInside),
    edit_bind_of_ok _ (edit_modify _ _), ← unrooted_eq,
    edit_bind_of_ok _ (edit_modifyNode (by simpa using childInside) _),
    edit_bind_of_ok _ (edit_modifyNode (by simpa using parentInside) _), relinked,
    edit_bindField (by simpa using parentInside) (by simpa using childInside)]

theorem attached_severed (forest : Forest) (parent child : NodeId) :
    (forest.severed child).attached parent child = forest.placed parent child := by
  show ((forest.unrooted child).revise _).revise _ = _
  rw [revise_revise]
  apply revise_congr
  intro id node _
  by_cases isChild : id = child
  · simp [isChild]
  · simp [isChild]

theorem Sound.edit_attach (sound : forest.Sound) {parent child : NodeId}
    (parentInside : parent < forest.size) (childInside : child < forest.size)
    (different : parent ≠ child) :
    forest.edit (Edit.attach parent child) =
      (.ok (), (forest.placed parent child).bound parent child) := by
  rw [sound.anchored.edit_attach parentInside childInside different,
    sound.released_eq_severed, attached_severed]

theorem edit_attach_outside {parent child : NodeId}
    (outside : ¬ child < forest.size) :
    forest.edit (Edit.attach parent child) =
      (.error (.breach (.missing child forest.size)), forest) := by
  unfold Edit.attach
  rw [edit_bind_of_error _ (edit_detach_outside outside)]

end QueryForest.Forest
