import QueryForest.Proofs.Compile.Occurrences

/-!
# Compiling without a group

When the child of a group takes its place at the root, in a junction or in a
wrapper, the tree still compiles to the same query, unless the group has kept a
modifier from its junction.  A root that has a parent is no root of what replaces it.
-/

namespace QueryForest

def Kind.IsJunctionOrWrapper (kind : Kind) : Prop :=
  (∃ operator, kind = .composite (.junction operator)) ∨ ∃ around, kind = .wrapper around

theorem Compiler.compile_of_root {Artifact : Type} {compiler : Compiler Artifact}
    {forest : Forest} {root : NodeId} (rooted : forest.root = some root) :
    compiler.compile forest = compiler.compileNode forest root := by
  rw [compile, rooted]

namespace Standard

/-- In the place of a group in a junction only a modifier can change the occurrence of
a clause. -/
theorem occurrenceOf_ne_group_iff {operator : Operator} {inner : Kind} :
    occurrenceOf (.composite (.junction operator)) inner ≠
        occurrenceOf (.composite (.junction operator)) (.wrapper .group) ↔
      inner = .wrapper (.modifier .negated) ∨
        operator ≠ .conjunction ∧ inner = .wrapper (.modifier .required) := by
  cases inner with
  | leaf _ | composite _ | extension _ => cases operator <;> simp [occurrenceOf]
  | wrapper around =>
      cases around with
      | group | boost _ | slop _ => cases operator <;> simp [occurrenceOf]
      | modifier modifier => cases modifier <;> cases operator <;> simp [occurrenceOf]

end Standard

namespace Forest

/-- A group keeps the modifier that it is around from the junction that it is in. -/
def HidesOccurrence (forest : Forest) (group child : NodeId) : Prop :=
  ∃ parent operator, forest.parentOf group = some parent ∧
    forest.kindOf parent = some (.composite (.junction operator)) ∧
    (forest.kindOf child = some (.wrapper (.modifier .negated)) ∨
      operator ≠ .conjunction ∧ forest.kindOf child = some (.wrapper (.modifier .required)))

variable {forest : Forest} {group child : NodeId}

theorem hidesBelow_iff_hidesOccurrence {branch : Branch} (mirrors : branch.Mirrors forest)
    (sound : forest.Sound) {inner : Kind} (known : forest.kindOf child = some inner)
    (within : ∀ parent, forest.parentOf group = some parent →
      forest.IsAbove branch.id parent) :
    branch.HidesBelow group inner ↔ forest.HidesOccurrence group child := by
  unfold HidesOccurrence
  rw [known]
  simp only [Option.some.injEq, ← Standard.occurrenceOf_ne_group_iff]
  constructor
  · rintro ⟨part, inside, hides⟩
    obtain ⟨operator, isJunction⟩ := hides.isJunction
    obtain ⟨clause, member, isGroup⟩ := hides.listed
    have mirrored := mirrors.within part inside
    refine ⟨part.id, operator, ?_, isJunction ▸ mirrored.kindOf_id, isJunction ▸ hides.differs⟩
    rw [← sound.mem_childrenOf_iff, mirrored.childrenOf_id, ← isGroup]
    exact List.mem_map_of_mem member
  · rintro ⟨parent, operator, linked, isJunction, differs⟩
    have named := (mirrors.mem_names_iff sound).mpr (within parent linked)
    obtain ⟨part, inside, rfl⟩ := List.mem_map.mp named
    have mirrored := mirrors.within part inside
    have kind := Option.some.inj (mirrored.kindOf_id.symm.trans isJunction)
    have listed := (sound.mem_childrenOf_iff part.id group).mpr linked
    rw [mirrored.childrenOf_id] at listed
    exact ⟨part, inside, ⟨operator, kind⟩, kind ▸ differs, List.mem_map.mp listed⟩

/-- A tree that compiles does so without a group, to the same query exactly if the
group hid no occurrence. -/
theorem Ungroups.exists_compileNode {after : Forest} (ungroups : forest.Ungroups after group child)
    (wraps : forest.IsGroupOver group child) (sound : forest.Sound) (afterSound : after.Sound)
    {inner : Kind} (known : forest.kindOf child = some inner) {options : CompileOptions}
    {id : NodeId} {branch : Branch} (read : forest.branch id = .ok branch)
    (builtIn : branch.IsBuiltIn) (inside : successor group child id < after.size) {query : Query}
    (compiled : (Standard.compiler options).compileNode forest id = .ok query) :
    ∃ ungrouped, (Standard.compiler options).compileNode after (successor group child id) =
        .ok ungrouped ∧
      (ungrouped = query ↔ ¬ branch.HidesBelow group inner) := by
  obtain ⟨rfl, mirrors⟩ := mirrors_of_branchWithin read
  obtain ⟨acceptable, rfl⟩ :=
    (Standard.compileNode_eq_ok_iff_queryOf sound read builtIn).mp compiled
  obtain ⟨twin, twinRead, named, twinMirrors⟩ := afterSound.exists_branch inside
  have pair : branch.Corresponds forest after group child twin := ⟨mirrors, twinMirrors, named⟩
  have compilable : branch.IsCompilable options :=
    fun part within => ⟨builtIn part within, acceptable part within⟩
  have twinCompilable := ungroups.isCompilable wraps sound pair compilable
  have twinCompiled := (Standard.compileNode_eq_ok_iff_queryOf afterSound twinRead
    fun part within => (twinCompilable part within).1).mpr
      ⟨fun part within => (twinCompilable part within).2, rfl⟩
  refine ⟨Standard.queryOf options twin, twinCompiled, ?_⟩
  rcases ungroups.areSettled wraps sound known pair compilable with ⟨hides, apart⟩ | ⟨bare, same⟩
  · exact iff_of_false apart.ne.symm (not_not_intro hides)
  · exact iff_of_true same.symm bare

/-- A wrapper without a child does not compile. -/
theorem Sound.not_compileNode_of_childless (sound : forest.Sound) {id : NodeId}
    {around : Wrapper} (known : forest.kindOf id = some (.wrapper around))
    (childless : forest.childrenOf id = []) (options : CompileOptions) (query : Query) :
    (Standard.compiler options).compileNode forest id ≠ .ok query := by
  intro compiled
  obtain ⟨node, present, _⟩ := Option.map_eq_some_iff.mp known
  obtain ⟨branch, read, rfl, mirrors⟩ := sound.exists_branch (lt_size_of_getElem? present)
  have isWrapper := Option.some.inj (mirrors.kindOf_id.symm.trans known)
  rw [mirrors.childrenOf_id, List.map_eq_nil_iff] at childless
  have builtIn : branch.IsBuiltIn := by
    intro part within
    rcases Branch.mem_postOrder.mp within with rfl | ⟨child, member, _⟩
    · rw [isWrapper]
      exact nofun
    · rw [childless] at member
      exact absurd member List.not_mem_nil
  obtain ⟨acceptable, _⟩ :=
    (Standard.compileNode_eq_ok_iff_queryOf sound read builtIn).mp compiled
  exact (acceptable branch branch.self_mem_postOrder).filled around isWrapper childless

section Trees

variable {options : CompileOptions} {root : NodeId} {branch : Branch} {query : Query}

/-- A tree whose root is not left behind compiles without a group, to the same query
exactly if the group hid no occurrence. -/
theorem Ungroups.compile_iff {after : Forest} (ungroups : forest.Ungroups after group child)
    (wraps : forest.IsGroupOver group child) (sound : forest.Sound) (afterSound : after.Sound)
    (sameSize : after.size = forest.size) (rooted : forest.root = some root)
    (read : forest.branch root = .ok branch) (builtIn : branch.IsBuiltIn)
    (compiled : (Standard.compiler options).compile forest = .ok query)
    (within : ∀ parent, forest.parentOf group = some parent → forest.IsAbove root parent) :
    (Standard.compiler options).compile after = .ok query ↔
      ¬ forest.HidesOccurrence group child := by
  obtain ⟨node, present⟩ := exists_node_of_lt (wraps.inside sound)
  obtain ⟨rfl, mirrors⟩ := mirrors_of_branchWithin read
  have inside : successor group child branch.id < after.size := by
    rw [sameSize, successor]
    split
    · exact wraps.inside sound
    · exact mirrors.id_lt_size
  have afterRooted : after.root = some (successor group child branch.id) := by
    rw [ungroups.root, rooted, Option.map_some]
  rw [Compiler.compile_of_root rooted] at compiled
  obtain ⟨ungrouped, twinCompiled, same⟩ := ungroups.exists_compileNode wraps sound afterSound
    (kindOf_of_getElem? present) read builtIn inside compiled
  rw [Compiler.compile_of_root afterRooted, twinCompiled, Except.ok.injEq, same,
    hidesBelow_iff_hidesOccurrence mirrors sound (kindOf_of_getElem? present) within]

/-- In a junction or a wrapper a group is replaced. -/
theorem IsGroupOver.compile_placed (wraps : forest.IsGroupOver group child) (sound : forest.Sound)
    (rooted : forest.root = some root) (read : forest.branch root = .ok branch)
    (builtIn : branch.IsBuiltIn)
    (compiled : (Standard.compiler options).compile forest = .ok query)
    (within : forest.IsAbove root group) (below : root ≠ group) {parent : NodeId} {kind : Kind}
    (placed : forest.parentOf group = some parent) (known : forest.kindOf parent = some kind)
    (takesAny : kind.IsJunctionOrWrapper) :
    ∃ after, forest.edit (Edit.replace group child) = (.ok (), after) ∧
      ((Standard.compiler options).compile after = .ok query ↔
        ¬ forest.HidesOccurrence group child) := by
  have can := wraps.canSubstitute sound placed
  have lendsNothing : forest.proximityOf parent = none := by
    unfold proximityOf
    rw [known]
    obtain ⟨operator, rfl⟩ | ⟨around, rfl⟩ := takesAny <;> rfl
  have notRoot : forest.root ≠ some group :=
    fun isRoot => below (Option.some.inj (rooted.symm.trans isRoot))
  refine ⟨_, can.edit_replace sound, ?_⟩
  refine (wraps.ungroups_substituted sound placed lendsNothing notRoot).compile_iff wraps sound
    (can.sound sound) ?_ rooted read builtIn compiled ?_
  · rw [size_bound, size_substituted]
  · intro _ linked
    exact within.parent_of_ne below linked

/-- At a root without a parent a group is replaced, and hides nothing. -/
theorem IsGroupOver.compile_rooted (wraps : forest.IsGroupOver group child) (sound : forest.Sound)
    (rooted : forest.root = some group) (read : forest.branch group = .ok branch)
    (builtIn : branch.IsBuiltIn)
    (compiled : (Standard.compiler options).compile forest = .ok query)
    (parentless : forest.parentOf group = none) :
    ∃ after, forest.edit (Edit.replace group child) = (.ok (), after) ∧
      ((Standard.compiler options).compile after = .ok query ↔
        ¬ forest.HidesOccurrence group child) := by
  obtain ⟨node, present⟩ := exists_node_of_lt (sound.root_lt group rooted)
  have replaced := edit_replace_of_root (wraps.different sound) present parentless rooted
  rw [sound.edit_setRoot (wraps.inside sound)] at replaced
  refine ⟨_, replaced, ?_⟩
  refine (wraps.ungroups_rooted sound rooted parentless).compile_iff wraps sound
    ((sound.severed child).rooted ?_) ?_ rooted read builtIn compiled ?_
  · rw [size_severed]
    exact wraps.inside sound
  · exact size_severed ..
  · intro _ linked
    exact nomatch parentless.symm.trans linked

/-- A root that has a parent stays the root, and is left without a child. -/
theorem IsGroupOver.compile_captured (wraps : forest.IsGroupOver group child)
    (sound : forest.Sound) (rooted : forest.root = some group) {parent : NodeId}
    (placed : forest.parentOf group = some parent) (options : CompileOptions) (query : Query) :
    ∃ after, forest.edit (Edit.replace group child) = (.ok (), after) ∧
      (Standard.compiler options).compile after ≠ .ok query := by
  have can := wraps.canSubstitute sound placed
  have notParent : group ≠ parent := by
    rintro rfl
    exact (sound.endsAbove group).not_isAbove_parent placed .self
  refine ⟨_, can.edit_replace sound, ?_⟩
  have afterRooted : ((forest.substituted parent group child).bound parent child).root =
    some group := rooted
  rw [Compiler.compile_of_root afterRooted]
  have stays : ((forest.substituted parent group child).bound parent child).kindOf group =
      some (.wrapper .group) := by
    rw [kindOf_bound, kindOf_substituted, wraps.kindOf, Option.map_some,
      if_neg (wraps.different sound)]
  refine (can.sound sound).not_compileNode_of_childless stays ?_ options query
  rw [childrenOf_bound, childrenOf_substituted, if_neg notParent, wraps.childrenOf sound]
  simp

/-- A group at the root of a tree that compiles, in a junction or in a wrapper can be
replaced by its child.  The tree compiles to the same query then exactly if the group
is no root that has a parent and hid no occurrence. -/
theorem compile_ungrouped_iff (sound : forest.Sound) (rooted : forest.root = some root)
    (read : forest.branch root = .ok branch) (builtIn : branch.IsBuiltIn)
    (compiled : (Standard.compiler options).compile forest = .ok query)
    (wraps : forest.IsGroupOver group child) (within : forest.IsAbove root group)
    (stands : root = group ∨ ∃ parent kind, forest.parentOf group = some parent ∧
      forest.kindOf parent = some kind ∧ kind.IsJunctionOrWrapper) :
    ∃ after, forest.edit (Edit.replace group child) = (.ok (), after) ∧
      ((Standard.compiler options).compile after = .ok query ↔
        (root = group → forest.parentOf group = none) ∧
          ¬ forest.HidesOccurrence group child) := by
  by_cases isRoot : root = group
  · subst isRoot
    simp only [forall_const]
    cases linked : forest.parentOf root with
    | none =>
        obtain ⟨after, replaced, same⟩ :=
          wraps.compile_rooted sound rooted read builtIn compiled linked
        exact ⟨after, replaced, same.trans (and_iff_right rfl).symm⟩
    | some parent =>
        obtain ⟨after, replaced, fails⟩ := wraps.compile_captured sound rooted linked options query
        exact ⟨after, replaced, iff_of_false fails fun both => nomatch both.1⟩
  · obtain ⟨parent, kind, placed, known, takesAny⟩ := stands.resolve_left isRoot
    obtain ⟨after, replaced, same⟩ := wraps.compile_placed sound rooted read builtIn compiled within
      isRoot placed known takesAny
    refine ⟨after, replaced, same.trans (and_iff_right ?_).symm⟩
    exact fun same => absurd same isRoot

/-- Two clauses, of which the first is a term with a modifier in a group. -/
def guarded (operator : Operator) (modifier : Modifier) : Forest :=
  Operation.runAll .empty
    [.add (.leaf (.field { text := "a" })), .addWithChildren (.wrapper (.modifier modifier)) [0],
      .addWithChildren (.wrapper .group) [1], .add (.leaf (.field { text := "b" })),
      .addWithChildren (.composite (.junction operator)) [2, 3], .setRoot 4]

def guardedBranch (operator : Operator) (modifier : Modifier) : Branch :=
  .node 4 (.composite (.junction operator)) none
    [.node 2 (.wrapper .group) (some (.composite (.junction operator)))
        [.node 1 (.wrapper (.modifier modifier)) (some (.wrapper .group))
          [.node 0 (.leaf (.field { text := "a" })) (some (.wrapper (.modifier modifier))) []]],
      .node 3 (.leaf (.field { text := "b" })) (some (.composite (.junction operator))) []]

/-- A conjunction requires its clauses anyway. -/
theorem compile_ungrouped_iff_guarded :
    (guarded .conjunction .required).IsGroupOver 2 1 ∧
      ∃ after, (guarded .conjunction .required).edit (Edit.replace 2 1) = (.ok (), after) ∧
        (Standard.compiler).compile after =
          .ok (.boolean [(.must, .term ⟨plainField, "a"⟩), (.must, .term ⟨plainField, "b"⟩)]) := by
  have sound : (guarded .conjunction .required).Sound := Operation.sound_runAll sound_empty _
  have wraps : (guarded .conjunction .required).IsGroupOver 2 1 :=
    ⟨rfl, List.mem_singleton_self 1⟩
  have read : (guarded .conjunction .required).branch 4 =
    .ok (guardedBranch .conjunction .required) := rfl
  have builtIn : (guardedBranch .conjunction .required).IsBuiltIn := by
    simp [guardedBranch, Branch.isBuiltIn_node]
  have compiled : (Standard.compiler).compile (guarded .conjunction .required) =
    .ok (.boolean [(.must, .term ⟨plainField, "a"⟩), (.must, .term ⟨plainField, "b"⟩)]) := rfl
  obtain ⟨after, replaced, same⟩ := compile_ungrouped_iff sound rfl read builtIn compiled wraps
    (.linked rfl .self) (.inr ⟨4, _, rfl, rfl, .inl ⟨_, rfl⟩⟩)
  refine ⟨wraps, after, replaced, same.mpr ⟨nofun, ?_⟩⟩
  rintro ⟨parent, operator, linked, isJunction, hidden⟩
  cases linked
  cases isJunction
  rcases hidden with negated | ⟨differs, _⟩
  · exact nomatch negated
  · exact differs rfl

/-- A negated clause counts as negated only without the group around it. -/
theorem compile_changed_without_group :
    (guarded .disjunction .negated).Sound ∧
      (guarded .disjunction .negated).IsGroupOver 2 1 ∧
      (guarded .disjunction .negated).root = some 4 ∧
      (guarded .disjunction .negated).branch 4 = .ok (guardedBranch .disjunction .negated) ∧
      (Standard.compiler).compile (guarded .disjunction .negated) =
        .ok (.boolean [(.should, .term ⟨plainField, "a"⟩),
          (.should, .term ⟨plainField, "b"⟩)]) ∧
      ((guarded .disjunction .negated).edit (Edit.replace 2 1)).1 = .ok () ∧
      (Standard.compiler).compile ((guarded .disjunction .negated).edit (Edit.replace 2 1)).2 =
        .ok (.boolean [(.mustNot, .term ⟨plainField, "a"⟩),
          (.should, .term ⟨plainField, "b"⟩)]) :=
  ⟨Operation.sound_runAll sound_empty _, ⟨rfl, List.mem_singleton_self 1⟩,
    rfl, rfl, rfl, rfl, rfl⟩

end Trees

end Forest

end QueryForest
