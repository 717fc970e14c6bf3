import QueryForest.Proofs.Forest.Gathering

/-!
# What an edit makes of the lists

An edit of links that ends well does what it would do to ordered trees on
paper.  It gathers nodes below one parent, and every list of children is known
afterwards: whoever moves is taken out of all lists, and stands at the end of
the new list or in the place of the node that gives way.  The same holds when
the node that moves already stands somewhere in the list it goes to, in the list
of another node, or below the node that gives way.
-/

namespace QueryForest

namespace Forest

variable {forest after last : Forest}

/-- An edit gathers nodes below a parent, no node comes or goes, and the root and
all lists of children are known. -/
structure Rearranges (forest after : Forest) (parent : NodeId) (freed moved : List NodeId)
    (root : Option NodeId) (lists : NodeId → List NodeId) : Prop
    extends Gathers forest after parent freed moved where
  size : after.size = forest.size
  root_eq : after.root = root
  childrenOf : ∀ id, after.childrenOf id = lists id

theorem root_unrooted (forest : Forest) (child : NodeId) :
    (forest.unrooted child).root = forest.root.filter (· != child) := by
  show (if forest.root = some child then none else forest.root) = _
  cases forest.root with
  | none => rfl
  | some root =>
      by_cases same : root = child
      · simp [same, Option.filter_some]
      · simp [same, Option.filter_some]

theorem decide_not_mem_cons (head : NodeId) (tail : List NodeId) (id : NodeId) :
    decide (id ∉ head :: tail) = (id != head && decide (id ∉ tail)) := by
  by_cases isHead : id = head
  · simp [isHead]
  · simp [isHead]

namespace Rearranges

variable {parent : NodeId}

theorem severed (forest : Forest) (parent child : NodeId) :
    forest.Rearranges (forest.severed child) parent [child] [] forest.root
      fun id => (forest.childrenOf id).filter (· != child) where
  toGathers := .severed forest parent child
  size := size_severed ..
  root_eq := root_revise ..
  childrenOf := childrenOf_severed forest child

theorem orphaned (sound : forest.Sound) (parent : NodeId) :
    forest.Rearranges (forest.orphaned parent) parent (forest.childrenOf parent) [] forest.root
      fun id => if id = parent then [] else forest.childrenOf id where
  toGathers := .orphaned sound parent
  size := size_orphaned ..
  root_eq := root_revise ..
  childrenOf := childrenOf_orphaned forest parent

theorem placed_bound {child : NodeId} (parentInside : parent < forest.size)
    (childInside : child < forest.size) :
    forest.Rearranges ((forest.placed parent child).bound parent child) parent [] [child]
      (forest.root.filter (· != child))
      fun id => (forest.childrenOf id).filter (· != child) ++
        if id = parent then [child] else [] where
  toGathers := .placed_bound childInside
  size := (size_bound ..).trans (size_placed ..)
  root_eq := (root_revise ..).trans ((root_revise ..).trans (root_unrooted ..))
  childrenOf _ := (childrenOf_bound ..).trans (childrenOf_placed _ _ _ _ parentInside)

theorem substituted_bound {former replacement : NodeId}
    (can : forest.CanSubstitute parent former replacement) :
    forest.Rearranges ((forest.substituted parent former replacement).bound parent replacement)
      parent [former] [replacement] forest.root
      fun id =>
        if id = parent then
          ((forest.childrenOf id).filter (· != replacement)).map fun child =>
            if child = former then replacement else child
        else (forest.childrenOf id).filter (· != replacement) where
  toGathers := .substituted_bound can
  size := (size_bound ..).trans (size_substituted ..)
  root_eq := (root_revise ..).trans (root_revise ..)
  childrenOf _ := (childrenOf_bound ..).trans (childrenOf_substituted ..)

/-- Two edits in a row, of which the second only gathers more nodes below the same
parent. -/
theorem trans {freed moved others : List NodeId} {middleRoot root : Option NodeId}
    {middleLists lists : NodeId → List NodeId}
    (first : forest.Rearranges after parent freed moved middleRoot middleLists)
    (second : after.Rearranges last parent [] others root lists) :
    forest.Rearranges last parent freed (moved ++ others) root lists where
  toGathers := first.toGathers.trans second.toGathers
  size := second.size.trans first.size
  root_eq := second.root_eq
  childrenOf := second.childrenOf

end Rearranges

/-- Nodes that go to a parent one by one stand at the end of its list in their
order. -/
theorem CanTake.rearranges {parent : NodeId} {children : List NodeId}
    (canTake : forest.CanTake parent children) (nodup : children.Nodup)
    (done : forest.edit (children.forM (Edit.attach parent)) = (.ok (), after)) :
    forest.Rearranges after parent [] children (forest.root.filter (· ∉ children))
      fun id => (forest.childrenOf id).filter (· ∉ children) ++
        if id = parent then children else [] := by
  induction children generalizing forest with
  | nil =>
      cases done
      refine ⟨.refl _ parent, rfl, ?_, fun id => by simp⟩
      cases after.root <;> rfl
  | cons head tail inductionHypothesis =>
      rw [List.forM] at done
      by_cases inside : head < forest.size
      · rw [edit_bind_of_ok _ (canTake.edit_attach inside)] at done
        obtain ⟨notLater, tailNodup⟩ := List.nodup_cons.mp nodup
        have placed := Rearranges.placed_bound canTake.inside inside
        have rest := inductionHypothesis (canTake.adopt inside) tailNodup done
        have both := placed.trans rest
        refine ⟨both.toGathers, both.size, both.root_eq.trans ?_, fun id => ?_⟩
        · rw [placed.root_eq, Option.filter_filter]
          simp only [decide_not_mem_cons]
        · -- The first node stays where it is put, as it does not come again.
          rw [both.childrenOf, placed.childrenOf, List.filter_append, List.filter_filter,
            List.append_assoc]
          simp only [decide_not_mem_cons, Bool.and_comm]
          congr 1
          by_cases isParent : id = parent
          · simp [isParent, notLater]
          · simp [isParent]
      · rw [edit_bind_of_error _ (edit_attach_outside inside)] at done
        cases done

namespace Sound

variable {parent : NodeId}

/-- A child that is added leaves all lists and stands last in its new one. -/
theorem rearranges_addChild (sound : forest.Sound) {child : NodeId}
    (done : forest.edit (Edit.addChild parent child) = (.ok (), after)) :
    forest.Rearranges after parent [] [child] (forest.root.filter (· != child))
      fun id => (forest.childrenOf id).filter (· != child) ++
        if id = parent then [child] else [] := by
  by_cases parentInside : parent < forest.size
  · obtain ⟨node, present⟩ := exists_node_of_lt parentInside
    by_cases refused : ¬ node.kind.arity.admits (node.children.length + 1) ∨
        forest.IsAbove child parent
    · obtain ⟨action, stopped⟩ := sound.anchored.edit_addChild_of_refused present refused
      rw [stopped] at done
      cases done
    · obtain ⟨room, apart⟩ := not_or.mp refused
      rw [sound.anchored.edit_addChild_of_free present (Classical.not_not.mp room) apart] at done
      by_cases childInside : child < forest.size
      · have different : parent ≠ child := fun same => apart (same ▸ .self)
        rw [sound.edit_attach parentInside childInside different] at done
        cases done
        exact .placed_bound parentInside childInside
      · rw [edit_attach_outside childInside] at done
        cases done
  · unfold Edit.addChild at done
    rw [edit_bind_of_error _ (edit_node_of_none (getElem?_of_not_lt parentInside))] at done
    cases done

/-- Children that are set leave all lists and are the new one; the former children
are free. -/
theorem rearranges_setChildren (sound : forest.Sound) {children : List NodeId}
    (done : forest.edit (Edit.setChildren parent children) = (.ok (), after)) :
    forest.Rearranges after parent (forest.childrenOf parent) children
      (forest.root.filter (· ∉ children))
      fun id =>
        if id = parent then children else (forest.childrenOf id).filter (· ∉ children) := by
  by_cases inside : parent < forest.size
  · obtain ⟨node, present⟩ := exists_node_of_lt inside
    by_cases free : node.kind.arity.admits children.length ∧
        (∀ child ∈ children, ¬ forest.IsAbove child parent) ∧ children.Nodup
    · obtain ⟨room, apart, nodup⟩ := free
      rw [sound.edit_setChildren_of_free present room apart nodup] at done
      have cleared := Rearranges.orphaned sound parent
      have taken := (sound.canTake_orphaned present room apart).rearranges nodup done
      have both := cleared.trans taken
      refine ⟨both.toGathers, both.size, both.root_eq.trans ?_, fun id => ?_⟩
      · rw [cleared.root_eq]
      · rw [both.childrenOf, cleared.childrenOf]
        by_cases isParent : id = parent
        · simp [isParent]
        · simp [isParent]
    · obtain ⟨action, stopped⟩ := sound.anchored.edit_setChildren_of_refused present free
      rw [stopped] at done
      cases done
  · unfold Edit.setChildren at done
    rw [edit_bind_of_error _ (edit_node_of_none (getElem?_of_not_lt inside))] at done
    cases done

/-- The children of a node can be set in any other order. -/
theorem exists_setChildren_of_perm (sound : forest.Sound) (inside : parent < forest.size)
    {order : List NodeId} (perm : order.Perm (forest.childrenOf parent)) :
    ∃ after, forest.edit (Edit.setChildren parent order) = (.ok (), after) := by
  obtain ⟨node, present⟩ := exists_node_of_lt inside
  have linked : ∀ child ∈ order, forest.parentOf child = some parent := fun child member =>
    (sound.mem_childrenOf_iff parent child).mp (perm.mem_iff.mp member)
  have room : node.kind.arity.admits order.length := by
    rw [perm.length_eq, childrenOf_of_getElem? present]
    exact sound.admits parent node present
  have apart : ∀ child ∈ order, ¬ forest.IsAbove child parent := fun child member =>
    (sound.endsAbove child).not_isAbove_parent (linked child member)
  have nodup : order.Nodup := perm.nodup_iff.mpr (sound.nodup_childrenOf parent)
  have known : ∀ child ∈ order, child < (forest.orphaned parent).size := by
    intro child member
    rw [size_orphaned]
    exact lt_size_of_parentOf (linked child member)
  rw [sound.edit_setChildren_of_free present room apart nodup]
  exact ⟨_, (sound.canTake_orphaned present room apart).edit_forM_attach known⟩

/-- A node that replaces a child of a parent leaves all lists and has the place of
that child. -/
theorem rearranges_replace (sound : forest.Sound) {former replacement : NodeId}
    (different : former ≠ replacement) (linked : forest.parentOf former = some parent)
    (done : forest.edit (Edit.replace former replacement) = (.ok (), after)) :
    forest.Rearranges after parent [former] [replacement] forest.root
      fun id =>
        if id = parent then
          ((forest.childrenOf id).filter (· != replacement)).map fun child =>
            if child = former then replacement else child
        else (forest.childrenOf id).filter (· != replacement) := by
  obtain ⟨node, present⟩ := exists_node_of_lt (lt_size_of_parentOf linked)
  obtain ⟨parentNode, parentPresent⟩ := exists_node_of_lt (sound.parent_lt linked)
  rw [edit_replace_of_linked different present linked] at done
  by_cases above : forest.IsAbove replacement parent
  · rw [sound.anchored.edit_replaceBelow_of_isAbove parentPresent above] at done
    cases done
  · by_cases inside : replacement < forest.size
    · rw [sound.edit_replaceBelow different linked inside above] at done
      cases done
      exact .substituted_bound ⟨different, linked, inside, above⟩
    · rw [sound.anchored.edit_replaceBelow_outside (sound.parent_lt linked) inside above] at done
      cases done

theorem rearranges_detach (sound : forest.Sound) {child : NodeId}
    (done : forest.edit (Edit.detach child) = (.ok (), after)) (parent : NodeId) :
    forest.Rearranges after parent [child] [] forest.root
      fun id => (forest.childrenOf id).filter (· != child) := by
  by_cases inside : child < forest.size
  · rw [sound.edit_detach inside] at done
    cases done
    exact .severed forest parent child
  · rw [edit_detach_outside inside] at done
    cases done

/-- What each edit of links makes of a sound forest when it ends well.  Links to
parents change for the nodes that are freed or moved and for no others, and kinds
only for those that come below a proximity node, whose field their terms take
over. -/
theorem edits_rearrange (sound : forest.Sound) :
    (∀ parent child after,
      forest.edit (Edit.addChild parent child) = (.ok (), after) →
      forest.Rearranges after parent [] [child] (forest.root.filter (· != child))
        fun id => (forest.childrenOf id).filter (· != child) ++
          if id = parent then [child] else []) ∧
    (∀ parent children after,
      forest.edit (Edit.setChildren parent children) = (.ok (), after) →
      forest.Rearranges after parent (forest.childrenOf parent) children
        (forest.root.filter (· ∉ children))
        fun id =>
          if id = parent then children else (forest.childrenOf id).filter (· ∉ children)) ∧
    (∀ parent former replacement after,
      former ≠ replacement → forest.parentOf former = some parent →
      forest.edit (Edit.replace former replacement) = (.ok (), after) →
      forest.Rearranges after parent [former] [replacement] forest.root
        fun id =>
          if id = parent then
            ((forest.childrenOf id).filter (· != replacement)).map fun child =>
              if child = former then replacement else child
          else (forest.childrenOf id).filter (· != replacement)) ∧
    ∀ child after,
      forest.edit (Edit.detach child) = (.ok (), after) →
      ∀ parent, forest.Rearranges after parent [child] [] forest.root
        fun id => (forest.childrenOf id).filter (· != child) := by
  refine ⟨?_, ?_, ?_, ?_⟩
  · exact fun _ _ _ done => sound.rearranges_addChild done
  · exact fun _ _ _ done => sound.rearranges_setChildren done
  · exact fun _ _ _ _ different linked done => sound.rearranges_replace different linked done
  · exact fun _ _ done parent => sound.rearranges_detach done parent

end Sound

def titleWords : Forest :=
  Operation.runAll .empty
    [.add (.leaf (.field { text := "red" })), .add (.leaf (.field { text := "fox" })),
      .addProximity ⟨some "title", .sentence, true⟩ [0, 1],
      .add (.leaf (.field { text := "dog" })), .addWithChildren (.wrapper .group) [3]]

/-- The third word takes the place of the first one and the field of the title, and
leaves its group; the other edits are about nodes that are in the list already. -/
theorem edits_rearrange_titleWords :
    titleWords.Sound ∧ titleWords.childrenOf 2 = [0, 1] ∧
      (∃ after, titleWords.edit (Edit.addChild 2 0) = (.ok (), after) ∧
        after.childrenOf 2 = [1, 0]) ∧
      (∃ after, titleWords.edit (Edit.setChildren 2 [3, 0]) = (.ok (), after) ∧
        after.childrenOf 2 = [3, 0] ∧ after.childrenOf 4 = [] ∧ after.parentOf 1 = none) ∧
      (0 ≠ 3 ∧ titleWords.parentOf 0 = some 2 ∧
        ∃ after, titleWords.edit (Edit.replace 0 3) = (.ok (), after) ∧
          after.childrenOf 2 = [3, 1] ∧ after.childrenOf 4 = [] ∧ after.parentOf 0 = none ∧
          after.kindOf 3 =
            some (.leaf (.field { field := some "title", text := "dog", ignoreField := true }))) ∧
      ∃ after, titleWords.edit (Edit.detach 0) = (.ok (), after) ∧
        after.childrenOf 2 = [1] := by
  have sound : titleWords.Sound := Operation.sound_runAll sound_empty _
  obtain ⟨added, set, replaced, detached⟩ := sound.edits_rearrange
  have afterAdd := added 2 0 _ rfl
  have afterSet := set 2 [3, 0] _ rfl
  have afterReplace := replaced 2 0 3 _ (by decide) rfl rfl
  have afterDetach := detached 0 _ rfl 2
  refine ⟨sound, rfl, ⟨_, rfl, afterAdd.childrenOf 2⟩, ⟨_, rfl, afterSet.childrenOf 2,
    afterSet.childrenOf 4, afterSet.parentOf 1⟩, ⟨by decide, rfl, _, rfl,
    afterReplace.childrenOf 2, afterReplace.childrenOf 4, afterReplace.parentOf 0,
    afterReplace.kindOf 3⟩, _, rfl, afterDetach.childrenOf 2⟩

end Forest

end QueryForest
