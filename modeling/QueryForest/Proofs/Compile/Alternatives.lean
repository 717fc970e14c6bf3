import QueryForest.Proofs.Compile.Made
import QueryForest.Proofs.Compile.Occurrences
import QueryForest.Proofs.Forest.Rearranging
import QueryForest.Proofs.Grouping

/-!
# Phrases with alternatives

A phrase with alternatives has a step for each position at which one of its children
stands, in ascending order, and a step holds the terms of the children that stand
there, in their order.  So children at different positions may come in any order.
A child stands at a position when it is a leaf with a term of its own.  A group
around such a leaf compiles to the same term, but does not stand anywhere, and a
phrase does not take it.
-/

namespace QueryForest

/-- The position at which a child of a phrase stands, if it has a term of its own. -/
def Branch.position? (branch : Branch) : Option UInt32 :=
  branch.term?.map Term.position

def Forest.positionOf (forest : Forest) (id : NodeId) : Option UInt32 :=
  (forest.termOf id).map Term.position

namespace Standard

section Contributions

variable {context : BuildContext Query} {children : List Branch}
  {items : List (UInt32 × FieldTerm)}

theorem Contributes.position? {child : Branch} {item : UInt32 × FieldTerm}
    (contributes : Contributes context child item) : child.position? = some item.1 := by
  obtain ⟨_, term, termed, placed⟩ := contributes
  rw [Branch.position?, termed, Option.map_some, placed]

theorem exists_contributes {child : Branch} (standing : child.position? ≠ none)
    (built : ∃ term, context.artifacts.get? child.id builderLabel = some (.term term)) :
    ∃ item, Contributes context child item := by
  obtain ⟨position, placed⟩ := Option.ne_none_iff_exists'.mp standing
  obtain ⟨own, termed, rfl⟩ := Option.map_eq_some_iff.mp placed
  obtain ⟨term, found⟩ := built
  exact ⟨(own.position, term), found, own, termed, rfl⟩

/-- The items of a position come from the children that stand there, one by one. -/
theorem forall₂_itemsAt (contributed : List.Forall₂ (Contributes context) children items)
    (position : UInt32) :
    List.Forall₂ (fun child term => context.artifacts.get? child.id builderLabel = some (.term term))
      (children.filter (·.position? = some position)) (itemsAt position items) := by
  have standing : List.Forall₂ (Contributes context)
      (children.filter (·.position? = some position)) (items.filter (·.1 = position)) := by
    refine List.rel_filter (fun child item contributes => ?_) contributed
    simp [Contributes.position? contributes]
  rw [itemsAt, List.forall₂_map_right_iff]
  exact standing.imp fun _ _ contributes => contributes.1

/-- A position occurs among the items when a child stands there. -/
theorem mem_positions_items (contributed : List.Forall₂ (Contributes context) children items)
    (position : UInt32) :
    position ∈ items.map Prod.fst ↔ ∃ child ∈ children, child.position? = some position := by
  constructor
  · intro member
    obtain ⟨item, itemMember, rfl⟩ := List.mem_map.mp member
    obtain ⟨child, childMember, contributes⟩ :=
      exists_related_of_mem contributed.flip itemMember
    exact ⟨child, childMember, Contributes.position? contributes⟩
  · rintro ⟨child, childMember, placed⟩
    obtain ⟨item, itemMember, contributes⟩ := exists_related_of_mem contributed childMember
    cases contributes.position?.symm.trans placed
    exact List.mem_map_of_mem itemMember

end Contributions

/-- Steps are the terms of some children by position: their positions ascend and are
those at which a child stands, each step has the terms of the children that stand at
its position, in their order, and no term is lost or comes twice. -/
structure GroupsTerms (context : BuildContext Query) (children : List Branch)
    (steps : List PhraseStep) : Prop where
  ascending : (steps.map PhraseStep.position).Pairwise (· < ·)
  mem_positions_iff : ∀ position, position ∈ steps.map PhraseStep.position ↔
    ∃ child ∈ children, child.position? = some position
  terms : ∀ step ∈ steps,
    List.Forall₂ (fun child term => context.artifacts.get? child.id builderLabel = some (.term term))
      (children.filter (·.position? = some step.position)) step.terms
  once : ∃ terms,
    List.Forall₂ (fun child term => context.artifacts.get? child.id builderLabel = some (.term term))
      children terms ∧ (steps.flatMap PhraseStep.terms).Perm terms

section Steps

variable {context twinContext : BuildContext Query} {branch twin : Branch}

theorem map_position_stepsOf (items : List (UInt32 × FieldTerm)) :
    (stepsOf items).map PhraseStep.position = (groupByPosition items).map Prod.fst := by
  rw [stepsOf, List.map_map]
  rfl

theorem groupsTerms_stepsOf {children : List Branch} {items : List (UInt32 × FieldTerm)}
    (contributed : List.Forall₂ (Contributes context) children items) :
    GroupsTerms context children (stepsOf items) where
  ascending := by
    rw [map_position_stepsOf]
    exact ascending_groupByPosition items
  mem_positions_iff position := by
    rw [map_position_stepsOf, mem_positions_groupByPosition, mem_positions_items contributed]
  terms step member := by
    obtain ⟨group, groupMember, rfl⟩ := List.mem_map.mp member
    rw [eq_itemsAt_of_mem_groupByPosition groupMember]
    exact forall₂_itemsAt contributed group.1
  once := by
    refine ⟨items.map Prod.snd, ?_, terms_stepsOf_perm items⟩
    rw [List.forall₂_map_right_iff]
    exact contributed.imp fun _ _ contributes => contributes.1

/-- Where each child stands somewhere and has been built to a term, the builder groups
the terms. -/
theorem exists_groupsTerms
    (each : ∀ child ∈ branch.children, child.position? ≠ none ∧
      ∃ term, context.artifacts.get? child.id builderLabel = some (.term term)) :
    ∃ steps, multiPhrase branch context = .ok (.multiPhrase steps 0) ∧
      GroupsTerms context branch.children steps := by
  obtain ⟨items, contributed⟩ := exists_forall₂ fun child member =>
    exists_contributes (each child member).1 (each child member).2
  exact ⟨stepsOf items, multiPhrase_eq_ok.mpr ⟨items, contributed, rfl⟩,
    groupsTerms_stepsOf contributed⟩

/-- The builder does not see in which order children at different positions come. -/
theorem multiPhrase_of_perm (perm : twin.children.Perm branch.children)
    (same : ∀ position, twin.children.filter (·.position? = some position) =
      branch.children.filter (·.position? = some position))
    (kept : ∀ child ∈ branch.children,
      twinContext.artifacts.get? child.id builderLabel = context.artifacts.get? child.id builderLabel)
    {query : Query} (made : multiPhrase branch context = .ok query) :
    multiPhrase twin twinContext = .ok query := by
  obtain ⟨items, contributed, rfl⟩ := multiPhrase_eq_ok.mp made
  have contributedThere : List.Forall₂ (Contributes twinContext) branch.children items := by
    refine (forall₂_members contributed).imp fun child item related => ?_
    obtain ⟨member, _, found, placed⟩ := related
    exact ⟨(kept child member).trans found, placed⟩
  obtain ⟨others, reordered⟩ := exists_forall₂ fun child member =>
    have ⟨item, _, contributes⟩ :=
      exists_related_of_mem contributedThere (perm.mem_iff.mp member)
    ⟨item, contributes⟩
  -- What a child contributes is settled by the child, so the same children in the same
  -- order at a position have the same terms there.
  have grouped : groupByPosition others = groupByPosition items := by
    refine groupByPosition_congr fun position => ?_
    have found := forall₂_itemsAt reordered position
    rw [same] at found
    have unique : Relator.RightUnique fun (child : Branch) (term : FieldTerm) =>
        twinContext.artifacts.get? child.id builderLabel = some (.term term) := by
      intro child term other termFound otherFound
      cases termFound.symm.trans otherFound
      rfl
    exact unique.forall₂ found (forall₂_itemsAt contributedThere position)
  refine multiPhrase_eq_ok.mpr ⟨others, reordered, ?_⟩
  rw [stepsOf, stepsOf, grouped]

end Steps

/-! ## Phrases of trees -/

section Trees

variable {forest after : Forest} {options : CompileOptions} {id : NodeId}

theorem term?_of_mirrors {child : Branch} (mirrors : child.Mirrors forest) :
    child.term? = forest.termOf child.id := by
  rw [Forest.termOf, mirrors.kindOf_id]
  rfl

theorem terms_of_mirrors {children : List Branch}
    (mirrors : ∀ child ∈ children, child.Mirrors forest) :
    Branch.terms children = (children.map Branch.id).filterMap forest.termOf := by
  rw [List.filterMap_map]
  exact List.filterMap_congr fun child member => term?_of_mirrors (mirrors child member)

theorem itemsAt_terms (ids : List NodeId) (position : UInt32) :
    itemsAt position ((ids.filterMap forest.termOf).map fun term =>
        (term.position, fieldTerm options term)) =
      ((ids.filter (forest.positionOf · = some position)).filterMap forest.termOf).map
        (fieldTerm options) := by
  induction ids with
  | nil => rfl
  | cons head tail inductionHypothesis =>
      unfold itemsAt at inductionHypothesis ⊢
      cases termed : forest.termOf head with
      | none =>
          have nowhere : forest.positionOf head = none := by rw [Forest.positionOf, termed]; rfl
          simp [termed, nowhere, inductionHypothesis]
      | some term =>
          have placed : forest.positionOf head = some term.position := by
            rw [Forest.positionOf, termed]
            rfl
          by_cases here : term.position = position
          · simp [termed, placed, here, inductionHypothesis]
          · simp [termed, placed, here, inductionHypothesis]

def IsWordAt (forest : Forest) (id : NodeId) : Prop :=
  ∃ term, forest.kindOf id = some (.leaf (.field term)) ∨
    forest.kindOf id = some (.leaf (.quotedField term))

theorem isWordAt_iff {child : Branch} (mirrors : child.Mirrors forest) :
    IsWordAt forest child.id ↔ child.IsWord := by
  unfold IsWordAt Branch.IsWord
  rw [mirrors.kindOf_id]
  simp only [Option.some.injEq]

theorem isAcceptable_of_leaf {branch : Branch} {bottom : Leaf Similarity}
    (isLeaf : branch.kind = .leaf bottom) : branch.IsAcceptable options := by
  rcases branch with ⟨name, _, enclosing, children⟩
  cases isLeaf
  rw [← Branch.fault?_eq_none]
  rfl

theorem isAcceptable_of_words {branch : Branch} (kind : branch.kind = .composite .multiPhrase)
    (words : ∀ child ∈ branch.children, child.IsWord) : branch.IsAcceptable options where
  filled _ isWrapper := by cases kind.symm.trans isWrapper
  few _ isJunction := by cases kind.symm.trans isJunction
  words _ := words
  ordered isRow := by cases kind.symm.trans isRow

/-- What is below a phrase of leaves is the leaves. -/
theorem mem_postOrder_of_leaves (sound : forest.Sound) {branch : Branch}
    (mirrors : branch.Mirrors forest)
    (leaves : ∀ child ∈ branch.children, ∃ bottom, child.kind = .leaf bottom) {part : Branch}
    (member : part ∈ branch.postOrder) : part = branch ∨ ∃ bottom, part.kind = .leaf bottom := by
  rcases Branch.mem_postOrder.mp member with rfl | ⟨child, childMember, within⟩
  · exact .inl rfl
  · obtain ⟨bottom, isLeaf⟩ := leaves child childMember
    have childless := (mirrors.child_mirrors childMember).children_of_leaf sound isLeaf
    rcases Branch.mem_postOrder.mp within with rfl | ⟨inner, innerMember, _⟩
    · exact .inr ⟨bottom, isLeaf⟩
    · rw [childless] at innerMember
      exact absurd innerMember List.not_mem_nil

theorem isBuiltIn_of_leaves (sound : forest.Sound) {branch : Branch}
    (mirrors : branch.Mirrors forest) (kind : branch.kind = .composite .multiPhrase)
    (leaves : ∀ child ∈ branch.children, ∃ bottom, child.kind = .leaf bottom) :
    branch.IsBuiltIn := by
  intro part member custom isCustom
  rcases mem_postOrder_of_leaves sound mirrors leaves member with rfl | ⟨bottom, isLeaf⟩
  · cases kind.symm.trans isCustom
  · cases isLeaf.symm.trans isCustom

theorem leaves_of_compileNode {branch : Branch} (read : forest.branch id = .ok branch)
    (kind : branch.kind = .composite .multiPhrase) {query : Query}
    (compiled : (compiler options).compileNode forest id = .ok query) :
    ∀ child ∈ branch.children, ∃ bottom, child.kind = .leaf bottom := by
  have holds := @Compiler.holds_of_compileNode _ _ _ _ _ compiled _ read
    fun part _ => part.kind = .composite .multiPhrase →
      ∀ child ∈ part.children, ∃ bottom, child.kind = .leaf bottom
  refine holds (fun part _ artifacts _ query made kind child member => ?_) kind
  obtain ⟨items, _, found⟩ := made_of_multiPhrase made kind
  obtain ⟨item, _, _, term, termed, _⟩ := exists_related_of_mem found member
  rcases child with ⟨name, childKind, enclosing, children⟩
  cases childKind with
  | leaf bottom => exact ⟨bottom, rfl⟩
  | wrapper _ | composite _ | extension _ => cases termed

theorem queryOf_multiPhrase {branch : Branch} (kind : branch.kind = .composite .multiPhrase) :
    queryOf options branch =
      .multiPhrase (phraseSteps options (Branch.terms branch.children)) 0 := by
  rcases branch with ⟨name, _, enclosing, children⟩
  cases kind
  rw [queryOf, compositeQuery]
  rfl

/-- A phrase with alternatives compiles when all its children are words, and then to
their terms by position. -/
theorem compileNode_multiPhrase_iff (sound : forest.Sound)
    (kind : forest.kindOf id = some (.composite .multiPhrase)) {query : Query} :
    (compiler options).compileNode forest id = .ok query ↔
      (∀ child ∈ forest.childrenOf id, IsWordAt forest child) ∧
        query = .multiPhrase
          (phraseSteps options ((forest.childrenOf id).filterMap forest.termOf)) 0 := by
  obtain ⟨node, present, _⟩ := Option.map_eq_some_iff.mp kind
  obtain ⟨branch, read, rfl, mirrors⟩ := sound.exists_branch (Forest.lt_size_of_getElem? present)
  have branchKind : branch.kind = .composite .multiPhrase :=
    Option.some.inj (mirrors.kindOf_id.symm.trans kind)
  have words : (∀ child ∈ forest.childrenOf branch.id, IsWordAt forest child) ↔
      ∀ child ∈ branch.children, child.IsWord := by
    rw [mirrors.childrenOf_id, List.forall_mem_map]
    exact forall₂_congr fun child member => isWordAt_iff (mirrors.child_mirrors member)
  rw [words, mirrors.childrenOf_id, ← terms_of_mirrors fun child => mirrors.child_mirrors,
    ← queryOf_multiPhrase branchKind]
  constructor
  · intro compiled
    have leaves := leaves_of_compileNode read branchKind compiled
    obtain ⟨acceptable, same⟩ := eq_queryOf_of_compileNode sound read
      (isBuiltIn_of_leaves sound mirrors branchKind leaves) compiled
    exact ⟨(acceptable branch branch.self_mem_postOrder).words (.inr branchKind), same⟩
  · rintro ⟨words, same⟩
    have leaves : ∀ child ∈ branch.children, ∃ bottom, child.kind = .leaf bottom := by
      intro child member
      obtain ⟨term, plain | quoted⟩ := words child member
      · exact ⟨_, plain⟩
      · exact ⟨_, quoted⟩
    refine (compileNode_eq_ok_iff_queryOf sound read
      (isBuiltIn_of_leaves sound mirrors branchKind leaves)).mpr ⟨fun part member => ?_, same⟩
    rcases mem_postOrder_of_leaves sound mirrors leaves member with rfl | ⟨bottom, isLeaf⟩
    · exact isAcceptable_of_words branchKind words
    · exact isAcceptable_of_leaf isLeaf

/-! ### Other orders -/

variable {order : List NodeId}

theorem phraseSteps_congr {ids : List NodeId}
    (same : ∀ position, order.filter (forest.positionOf · = some position) =
      ids.filter (forest.positionOf · = some position)) :
    phraseSteps options (order.filterMap forest.termOf) =
      phraseSteps options (ids.filterMap forest.termOf) := by
  unfold phraseSteps
  rw [groupByPosition_congr fun position => ?_]
  rw [itemsAt_terms, itemsAt_terms, same]

/-- Setting the children of a phrase in an order in which those at the same position
come as before does not change what the phrase compiles to. -/
theorem compileNode_reordered (sound : forest.Sound)
    (kind : forest.kindOf id = some (.composite .multiPhrase))
    (perm : order.Perm (forest.childrenOf id))
    (same : ∀ position, order.filter (forest.positionOf · = some position) =
      (forest.childrenOf id).filter (forest.positionOf · = some position))
    (done : forest.edit (Edit.setChildren id order) = (.ok (), after)) (query : Query) :
    (compiler options).compileNode after id = .ok query ↔
      (compiler options).compileNode forest id = .ok query := by
  have rearranged := sound.rearranges_setChildren done
  have afterSound : after.Sound := by
    have kept := Operation.sound_run sound (.setChildren id order)
    rwa [Operation.run, done] at kept
  -- A phrase lends no field, so setting its children changes no kind.
  have lendsNothing : forest.proximityOf id = none := by
    rw [Forest.proximityOf, kind]
    rfl
  have kinds : after.kindOf = forest.kindOf := by
    funext other
    rw [rearranged.kindOf, lendsNothing]
    simp only [Kind.bound, ite_self, Option.map_id']
  have words : (∀ child ∈ order, IsWordAt after child) ↔
      ∀ child ∈ forest.childrenOf id, IsWordAt forest child := by
    unfold IsWordAt
    rw [kinds]
    exact forall_congr' fun child => imp_congr_left perm.mem_iff
  have terms : after.termOf = forest.termOf := by
    funext other
    rw [Forest.termOf, kinds]
    rfl
  rw [compileNode_multiPhrase_iff afterSound ((congrFun kinds id).trans kind),
    compileNode_multiPhrase_iff sound kind, rearranged.childrenOf, if_pos rfl, words, terms,
    phraseSteps_congr same]

end Trees

/-- Where all children of a phrase with alternatives stand somewhere and have been built
to terms, the builder makes the steps that group those terms by position.  It makes the
same of the children in any order in which those at the same position come as before,
and a phrase of a tree compiles to the same query when its children are set in such an
order. -/
theorem multiPhrase_groups_stably :
    (∀ branch context, (∀ child ∈ branch.children, child.position? ≠ none ∧
        ∃ term, context.artifacts.get? child.id builderLabel = some (.term term)) →
      ∃ steps, multiPhrase branch context = .ok (.multiPhrase steps 0) ∧
        GroupsTerms context branch.children steps) ∧
    (∀ branch twin context twinContext, twin.children.Perm branch.children →
      (∀ position, twin.children.filter (·.position? = some position) =
        branch.children.filter (·.position? = some position)) →
      (∀ child ∈ branch.children,
        twinContext.artifacts.get? child.id builderLabel = context.artifacts.get? child.id builderLabel) →
      ∀ query, multiPhrase twin twinContext = .ok query ↔
        multiPhrase branch context = .ok query) ∧
    ∀ options forest id order, forest.Sound →
      forest.kindOf id = some (.composite .multiPhrase) →
      order.Perm (forest.childrenOf id) →
      (∀ position, order.filter (forest.positionOf · = some position) =
        (forest.childrenOf id).filter (forest.positionOf · = some position)) →
      ∃ after, forest.edit (Edit.setChildren id order) = (.ok (), after) ∧
        ∀ query, (compiler options).compileNode after id = .ok query ↔
          (compiler options).compileNode forest id = .ok query := by
  refine ⟨fun branch context => exists_groupsTerms, ?_, ?_⟩
  · intro branch twin context twinContext perm same kept query
    refine ⟨multiPhrase_of_perm perm.symm (fun position => (same position).symm) ?_,
      multiPhrase_of_perm perm same kept⟩
    exact fun child member => (kept child (perm.mem_iff.mp member)).symm
  · intro options forest id order sound kind perm same
    obtain ⟨node, present, _⟩ := Option.map_eq_some_iff.mp kind
    obtain ⟨after, done⟩ :=
      sound.exists_setChildren_of_perm (Forest.lt_size_of_getElem? present) perm
    exact ⟨after, done, compileNode_reordered sound kind perm same done⟩

/-- A word at the second position before two words at the first one. -/
def scattered : Forest :=
  Operation.runAll .empty
    [.add (.leaf (.field { text := "fox", position := 2 })),
      .add (.leaf (.field { text := "quick" })), .add (.leaf (.field { text := "brown" })),
      .addWithChildren (.composite .multiPhrase) [0, 1, 2]]

def scatteredWord (id : NodeId) (term : Term) : Branch :=
  .node id (.leaf (.field term)) (some (.composite .multiPhrase)) []

def scatteredPhrase : Branch :=
  .node 3 (.composite .multiPhrase) none
    [scatteredWord 0 { text := "fox", position := 2 }, scatteredWord 1 { text := "quick" },
      scatteredWord 2 { text := "brown" }]

def swappedPhrase : Branch :=
  .node 3 (.composite .multiPhrase) none
    [scatteredWord 1 { text := "quick" }, scatteredWord 0 { text := "fox", position := 2 },
      scatteredWord 2 { text := "brown" }]

def scatteredContext : BuildContext Query where
  forest := scattered
  artifacts :=
    artifactsOf
      [(scatteredWord 0 { text := "fox", position := 2 }, .term ⟨"body", "fox"⟩),
        (scatteredWord 1 { text := "quick" }, .term ⟨"body", "quick"⟩),
        (scatteredWord 2 { text := "brown" }, .term ⟨"body", "brown"⟩)]
  options := { defaultField := "body" }

theorem multiPhrase_groups_stably_scattered :
    (∃ steps, multiPhrase scatteredPhrase scatteredContext = .ok (.multiPhrase steps 0) ∧
      GroupsTerms scatteredContext scatteredPhrase.children steps ∧
      steps = [⟨1, [⟨"body", "quick"⟩, ⟨"body", "brown"⟩]⟩, ⟨2, [⟨"body", "fox"⟩]⟩] ∧
      multiPhrase swappedPhrase scatteredContext = .ok (.multiPhrase steps 0)) ∧
    scattered.Sound ∧ scattered.kindOf 3 = some (.composite .multiPhrase) ∧
      [1, 0, 2].Perm (scattered.childrenOf 3) ∧
      (∀ position, [1, 0, 2].filter (scattered.positionOf · = some position) =
        (scattered.childrenOf 3).filter (scattered.positionOf · = some position)) ∧
      ∃ after, scattered.edit (Edit.setChildren 3 [1, 0, 2]) = (.ok (), after) ∧
        ∀ query, (compiler).compileNode after 3 = .ok query ↔
          (compiler).compileNode scattered 3 = .ok query := by
  obtain ⟨grouped, swapped, reordered⟩ := multiPhrase_groups_stably
  have standing : ∀ child ∈ scatteredPhrase.children, child.position? ≠ none ∧
      ∃ term, scatteredContext.artifacts.get? child.id builderLabel = some (.term term) :=
    List.forall_mem_cons.mpr ⟨⟨Option.some_ne_none _, _, rfl⟩,
      List.forall_mem_cons.mpr ⟨⟨Option.some_ne_none _, _, rfl⟩,
        List.forall_mem_singleton.mpr ⟨Option.some_ne_none _, _, rfl⟩⟩⟩
  obtain ⟨steps, made, groups⟩ := grouped scatteredPhrase scatteredContext standing
  have known : steps =
      [⟨1, [⟨"body", "quick"⟩, ⟨"body", "brown"⟩]⟩, ⟨2, [⟨"body", "fox"⟩]⟩] := by
    cases made
    rfl
  have sameBranches : ∀ position, swappedPhrase.children.filter (·.position? = some position) =
      scatteredPhrase.children.filter (·.position? = some position) := by
    intro position
    by_cases first : 1 = position
    · subst first
      rfl
    · simp [swappedPhrase, scatteredPhrase, Branch.children, Branch.position?, scatteredWord,
        Branch.term?, Branch.kind, Kind.term?, Leaf.term?, first, List.filter_cons]
  have madeAgain := (swapped scatteredPhrase swappedPhrase scatteredContext scatteredContext
    (List.Perm.swap _ _ _) sameBranches (fun _ _ => rfl) _).mpr made
  have sound : scattered.Sound := Operation.sound_runAll Forest.sound_empty _
  have perm : [1, 0, 2].Perm (scattered.childrenOf 3) := List.Perm.swap 0 1 [2]
  have same : ∀ position, [1, 0, 2].filter (scattered.positionOf · = some position) =
      (scattered.childrenOf 3).filter (scattered.positionOf · = some position) := by
    have listed : scattered.childrenOf 3 = [0, 1, 2] := rfl
    have fox : scattered.positionOf 0 = some 2 := rfl
    have quick : scattered.positionOf 1 = some 1 := rfl
    have brown : scattered.positionOf 2 = some 1 := rfl
    intro position
    rw [listed]
    by_cases first : 1 = position
    · simp [fox, quick, brown, ← first]
    · simp [List.filter_cons, fox, quick, brown, first]
  exact ⟨⟨steps, made, groups, known, madeAgain⟩, sound, rfl, perm, same,
    reordered {} scattered 3 [1, 0, 2] sound rfl perm same⟩

/-- A word in a group in a phrase with alternatives. -/
def groupedWord : Forest :=
  Operation.runAll .empty
    [.add (.leaf (.field { text := "fox" })), .addWithChildren (.wrapper .group) [0],
      .addWithChildren (.composite .multiPhrase) [1], .setRoot 2]

def groupOfWord : Branch :=
  .node 1 (.wrapper .group) (some (.composite .multiPhrase))
    [.node 0 (.leaf (.field { text := "fox" })) (some (.wrapper .group)) []]

/-- The only child of the phrase compiles to a term, and yet the phrase does not
compile. -/
theorem multiPhrase_refuses_groupedWord :
    groupedWord.Sound ∧
      groupedWord.branch 2 = .ok (.node 2 (.composite .multiPhrase) none [groupOfWord]) ∧
      (compiler).compileNode groupedWord 1 = .ok (.term ⟨"_plain", "fox"⟩) ∧
      (compiler).compileNode groupedWord 2 = .fail (.unexpectedNode .multiPhrase groupOfWord) ∧
      ¬ ∀ branch context, branch.kind = .composite .multiPhrase →
        (∀ child ∈ branch.children,
          ∃ term, context.artifacts.get? child.id builderLabel = some (Query.term term)) →
        ∃ steps, multiPhrase branch context = .ok (.multiPhrase steps 0) := by
  refine ⟨Operation.sound_runAll Forest.sound_empty _, rfl, rfl, rfl, fun makes => ?_⟩
  obtain ⟨steps, made⟩ := makes (.node 2 (.composite .multiPhrase) none [groupOfWord])
    ⟨groupedWord, artifactsOf [(groupOfWord, .term ⟨"_plain", "fox"⟩)], {}⟩ rfl
    (List.forall_mem_singleton.mpr ⟨_, rfl⟩)
  cases made

end Standard

end QueryForest
