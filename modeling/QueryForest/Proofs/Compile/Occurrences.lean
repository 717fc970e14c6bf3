import QueryForest.Proofs.Compile.Denotation
import QueryForest.Proofs.Forest.Ungrouping

/-!
# What groups hide

A group adds nothing to the query of its child, but the junction around it reads the
occurrence of a clause from the kind of its own child, which is the group.  So a
modifier inside the group counts only once the group is taken away, and that is the
only thing that can change when it is.
-/

namespace QueryForest

/-- What stands at a node once the group has been taken away. -/
structure Branch.Corresponds (forest after : Forest) (group child : NodeId)
    (part twin : Branch) : Prop where
  mirrors : part.Mirrors forest
  twinMirrors : twin.Mirrors after
  id : twin.id = Forest.successor group child part.id

namespace Forest.Ungroups

variable {forest after : Forest} {group child : NodeId} {part twin : Branch}

/-- In the place of the group stands its child. -/
theorem corresponds_of_group (wraps : forest.IsGroupOver group child) (sound : forest.Sound)
    (pair : part.Corresponds forest after group child twin) (isGroup : part.id = group) :
    part.kind = .wrapper .group ∧ ∃ inner, part.children = [inner] ∧ inner.id = child ∧
      inner.Corresponds forest after group child twin := by
  have known := pair.mirrors.kindOf_id
  have listed := pair.mirrors.childrenOf_id
  rw [isGroup, wraps.kindOf] at known
  rw [isGroup, wraps.childrenOf sound] at listed
  obtain ⟨inner, alone, named⟩ := List.map_eq_singleton_iff.mp listed.symm
  refine ⟨(Option.some.inj known).symm, inner, alone, named, ?_, pair.twinMirrors, ?_⟩
  · exact pair.mirrors.child_mirrors (alone ▸ List.mem_singleton_self inner)
  · rw [pair.id, isGroup, named, successor, successor, if_pos rfl,
      if_neg (wraps.different sound).symm]

/-- Any other node has its kind and what corresponds to its children. -/
theorem corresponds_of_ne (ungroups : forest.Ungroups after group child)
    (pair : part.Corresponds forest after group child twin) (apart : part.id ≠ group) :
    twin.kind = part.kind ∧ List.Forall₂ (fun inner innerTwin => inner ∈ part.children ∧
      inner.Corresponds forest after group child innerTwin) part.children twin.children := by
  have same : twin.id = part.id := by rw [pair.id, successor, if_neg apart]
  have known := pair.twinMirrors.kindOf_id
  have listed := pair.twinMirrors.childrenOf_id
  rw [same, ungroups.kindOf, pair.mirrors.kindOf_id] at known
  rw [same, ungroups.childrenOf _ apart, pair.mirrors.childrenOf_id, List.map_map] at listed
  refine ⟨(Option.some.inj known).symm, ?_⟩
  rw [← List.forall₂_eq_eq_eq, List.forall₂_map_left_iff, List.forall₂_map_right_iff] at listed
  refine (forall₂_members listed).imp fun inner innerTwin related => ⟨related.1, ?_, ?_, ?_⟩
  · exact pair.mirrors.child_mirrors related.1
  · exact pair.twinMirrors.child_mirrors related.2.1
  · exact related.2.2.symm

theorem kind_of_ne (ungroups : forest.Ungroups after group child)
    (pair : part.Corresponds forest after group child twin) (apart : part.id ≠ group) :
    twin.kind = part.kind :=
  (ungroups.corresponds_of_ne pair apart).1

theorem kind_of_group (ungroups : forest.Ungroups after group child) {inner : Kind}
    (known : forest.kindOf child = some inner)
    (pair : part.Corresponds forest after group child twin) (isGroup : part.id = group) :
    twin.kind = inner := by
  have twinKnown := pair.twinMirrors.kindOf_id
  rw [pair.id, isGroup, successor, if_pos rfl, ungroups.kindOf, known] at twinKnown
  exact (Option.some.inj twinKnown).symm

end Forest.Ungroups

namespace Branch

/-- The standard compiler knows every node of a branch and accepts it. -/
def IsCompilable (options : CompileOptions) (branch : Branch) : Prop :=
  ∀ part ∈ branch.postOrder,
    (∀ custom, part.kind ≠ .extension custom) ∧ part.IsAcceptable options

theorem IsCompilable.self {options : CompileOptions} {branch : Branch}
    (compilable : branch.IsCompilable options) :
    (∀ custom, branch.kind ≠ .extension custom) ∧ branch.IsAcceptable options :=
  compilable branch branch.self_mem_postOrder

theorem IsCompilable.child {options : CompileOptions} {branch child : Branch}
    (compilable : branch.IsCompilable options) (member : child ∈ branch.children) :
    child.IsCompilable options :=
  fun part within => compilable part (mem_postOrder_of_child member within)

theorem terms_eq_of_forall₂ {children twins : List Branch}
    (each : List.Forall₂ (fun child twin => twin.kind = child.kind) children twins) :
    terms twins = terms children := by
  induction each with
  | nil => rfl
  | cons same _ inductionHypothesis =>
      unfold terms at inductionHypothesis ⊢
      rw [List.filterMap_cons, List.filterMap_cons, inductionHypothesis, term?, term?, same]

/-- What is asked of a node is asked of its kind, of how many children it has and, in
phrases, of the kinds of these. -/
theorem IsAcceptable.of_alike {options : CompileOptions} {branch twin : Branch}
    (acceptable : branch.IsAcceptable options) (sameKind : twin.kind = branch.kind)
    (each : List.Forall₂ (fun child twinChild => child.IsWord → twinChild.kind = child.kind)
      branch.children twin.children) : twin.IsAcceptable options where
  filled around isWrapper empty := by
    rw [sameKind] at isWrapper
    rw [empty, List.forall₂_nil_right_iff] at each
    exact acceptable.filled around isWrapper each
  few operator isJunction := by
    rw [sameKind] at isJunction
    rw [← each.length_eq]
    exact acceptable.few operator isJunction
  words isPhrase child member := by
    rw [sameKind] at isPhrase
    obtain ⟨original, originalMember, same⟩ := exists_related_of_mem each.flip member
    obtain ⟨term, isWord⟩ := acceptable.words isPhrase original originalMember
    exact ⟨term, same ⟨term, isWord⟩ ▸ isWord⟩
  ordered isPhrase := by
    rw [sameKind] at isPhrase
    have words := acceptable.words (.inl isPhrase)
    have alike := (forall₂_members each).imp fun child twinChild related =>
      related.2.2 (words child related.1)
    have same := terms_eq_of_forall₂ alike
    unfold positions
    unfold terms at same
    rw [same]
    exact acceptable.ordered isPhrase

theorem Mirrors.children_of_leaf {forest : Forest} {branch : Branch}
    (mirrors : branch.Mirrors forest) (sound : forest.Sound) {bottom : Leaf Similarity}
    (isLeaf : branch.kind = .leaf bottom) : branch.children = [] := by
  have admitted := mirrors.admits_children sound.anchored
  rw [isLeaf] at admitted
  exact List.eq_nil_of_length_eq_zero admitted

/-- A wrapper that is accepted has one child. -/
theorem Mirrors.children_of_wrapper {forest : Forest} {branch : Branch}
    (mirrors : branch.Mirrors forest) (sound : forest.Sound) {options : CompileOptions}
    (acceptable : branch.IsAcceptable options) {around : Wrapper}
    (isWrapper : branch.kind = .wrapper around) : ∃ inner, branch.children = [inner] := by
  have admitted := mirrors.admits_children sound.anchored
  rw [isWrapper] at admitted
  obtain ⟨inner, others, listed⟩ := List.exists_cons_of_ne_nil (acceptable.filled around isWrapper)
  have few : (inner :: others).length ≤ 1 := listed ▸ admitted
  refine ⟨inner, ?_⟩
  rw [listed, List.eq_nil_of_length_eq_zero (Nat.le_zero.mp (Nat.le_of_succ_le_succ few))]

/-- A branch is a junction that reads another occurrence from the group than it would
read from a node of the kind of the group's child. -/
structure HidesAt (group : NodeId) (inner : Kind) (branch : Branch) : Prop where
  isJunction : ∃ operator, branch.kind = .composite (.junction operator)
  differs : Standard.occurrenceOf branch.kind inner ≠
    Standard.occurrenceOf branch.kind (.wrapper .group)
  listed : ∃ child ∈ branch.children, child.id = group

/-- Such a junction is somewhere within a branch. -/
def HidesBelow (group : NodeId) (inner : Kind) (branch : Branch) : Prop :=
  ∃ part ∈ branch.postOrder, part.HidesAt group inner

theorem hidesBelow_iff {group : NodeId} {inner : Kind} {branch : Branch} :
    branch.HidesBelow group inner ↔
      branch.HidesAt group inner ∨ ∃ child ∈ branch.children, child.HidesBelow group inner := by
  constructor
  · rintro ⟨part, within, hides⟩
    rcases mem_postOrder.mp within with rfl | ⟨child, member, below⟩
    · exact .inl hides
    · exact .inr ⟨child, member, part, below, hides⟩
  · rintro (hides | ⟨child, member, part, below, hides⟩)
    · exact ⟨branch, branch.self_mem_postOrder, hides⟩
    · exact ⟨part, mem_postOrder_of_child member below, hides⟩

theorem hidesBelow_node {group id : NodeId} {inner kind : Kind} {enclosing : Option Kind}
    {children : List Branch} (noJunction : ∀ operator, kind ≠ .composite (.junction operator)) :
    (node id kind enclosing children).HidesBelow group inner ↔
      ∃ child ∈ children, child.HidesBelow group inner := by
  rw [hidesBelow_iff]
  refine or_iff_right fun hides => ?_
  obtain ⟨operator, isJunction⟩ := hides.isJunction
  exact noJunction operator isJunction

theorem hidesBelow_wrapper {group id : NodeId} {inner : Kind} {around : Wrapper}
    {enclosing : Option Kind} {child : Branch} :
    (node id (.wrapper around) enclosing [child]).HidesBelow group inner ↔
      child.HidesBelow group inner := by
  have noJunction : ∀ operator, Kind.wrapper around ≠ .composite (.junction operator) := nofun
  simp only [hidesBelow_node noJunction, List.mem_singleton, exists_eq_left]

theorem Mirrors.not_hidesBelow_of_leaf {forest : Forest} {branch : Branch}
    (mirrors : branch.Mirrors forest) (sound : forest.Sound) {bottom : Leaf Similarity}
    (isLeaf : branch.kind = .leaf bottom) {group : NodeId} {inner : Kind} :
    ¬ branch.HidesBelow group inner := by
  rw [hidesBelow_iff]
  rintro (hides | ⟨child, member, _⟩)
  · obtain ⟨operator, isJunction⟩ := hides.isJunction
    cases isLeaf.symm.trans isJunction
  · rw [mirrors.children_of_leaf sound isLeaf] at member
    exact absurd member List.not_mem_nil

theorem Mirrors.not_hidesBelow_of_words {forest : Forest} {branch : Branch}
    (mirrors : branch.Mirrors forest) (sound : forest.Sound)
    (isPhrase : branch.kind = .composite .tokenizedPhrase ∨
      branch.kind = .composite .multiPhrase)
    (words : ∀ child ∈ branch.children, child.IsWord) {group : NodeId} {inner : Kind} :
    ¬ branch.HidesBelow group inner := by
  rw [hidesBelow_iff]
  rintro (hides | ⟨child, member, hides⟩)
  · obtain ⟨operator, isJunction⟩ := hides.isJunction
    rcases isPhrase with tokenized | multiple
    · cases tokenized.symm.trans isJunction
    · cases multiple.symm.trans isJunction
  · have mirrored := mirrors.child_mirrors member
    obtain ⟨term, plain | quoted⟩ := words child member
    · exact mirrored.not_hidesBelow_of_leaf sound plain hides
    · exact mirrored.not_hidesBelow_of_leaf sound quoted hides

end Branch

/-- Two queries differ, and would differ with any slop around them. -/
structure Query.AreApart (first second : Query) : Prop where
  ne : first ≠ second
  withSlop_first : ∀ slop, Standard.withSlop slop first = first
  withSlop_second : ∀ slop, Standard.withSlop slop second = second

namespace Standard

variable {options : CompileOptions} {group : NodeId} {inner : Kind}

/-- Two branches have different queries if an occurrence is hidden in the first one,
and else the same. -/
def AreSettled (options : CompileOptions) (group : NodeId) (inner : Kind)
    (part twin : Branch) : Prop :=
  (part.HidesBelow group inner ∧ (queryOf options part).AreApart (queryOf options twin)) ∨
    (¬ part.HidesBelow group inner ∧ queryOf options part = queryOf options twin)

namespace AreSettled

variable {part twin : Branch}

theorem areApart (settled : AreSettled options group inner part twin)
    (hides : part.HidesBelow group inner) :
    (queryOf options part).AreApart (queryOf options twin) := by
  rcases settled with ⟨_, apart⟩ | ⟨bare, _⟩
  · exact apart
  · exact absurd hides bare

theorem eq (settled : AreSettled options group inner part twin)
    (bare : ¬ part.HidesBelow group inner) : queryOf options part = queryOf options twin := by
  rcases settled with ⟨hides, _⟩ | ⟨_, same⟩
  · exact absurd hides bare
  · exact same

variable {id twinId : NodeId} {enclosing around : Option Kind} {children twins : List Branch}

/-- A junction tells its clauses apart by their queries and their occurrences. -/
theorem junction {operator : Operator}
    (each : List.Forall₂ (fun child twinChild => AreSettled options group inner child twinChild ∧
      (child.id ≠ group → twinChild.kind = child.kind) ∧
      (child.id = group → child.kind = .wrapper .group ∧ twinChild.kind = inner))
        children twins) :
    AreSettled options group inner (.node id (.composite (.junction operator)) enclosing children)
      (.node twinId (.composite (.junction operator)) around twins) := by
  unfold AreSettled
  rw [queryOf_junction, queryOf_junction, Branch.hidesBelow_iff]
  by_cases own : (Branch.node id (.composite (.junction operator)) enclosing children).HidesAt
      group inner
  · refine .inl ⟨.inl own, ⟨fun same => ?_, fun _ => rfl, fun _ => rfl⟩⟩
    obtain ⟨child, member, isGroup⟩ := own.listed
    refine map_ne_map_of_forall₂ each member (fun twinChild related clauses => ?_)
      (Query.boolean.inj same)
    obtain ⟨childKind, twinKind⟩ := related.2.2 isGroup
    -- The clause of the group differs in its occurrence, whatever its query is.
    have occurrences := congrArg Prod.fst clauses
    simp only [childKind, twinKind] at occurrences
    exact own.differs occurrences.symm
  · by_cases below : ∃ child ∈ children, child.HidesBelow group inner
    · obtain ⟨child, member, hides⟩ := below
      refine .inl ⟨.inr ⟨child, member, hides⟩, ⟨fun same => ?_, fun _ => rfl, fun _ => rfl⟩⟩
      refine map_ne_map_of_forall₂ each member (fun twinChild related clauses => ?_)
        (Query.boolean.inj same)
      exact (related.1.areApart hides).ne (congrArg Prod.snd clauses)
    · refine .inr ⟨not_or.mpr ⟨own, below⟩, congrArg Query.boolean ?_⟩
      refine map_eq_map_of_forall₂ (forall₂_members each) fun child twinChild related => ?_
      obtain ⟨member, _, settled, others, groups⟩ := related
      rw [settled.eq fun hides => below ⟨child, member, hides⟩]
      by_cases isGroup : child.id = group
      · obtain ⟨childKind, twinKind⟩ := groups isGroup
        by_contra clauses
        refine own ⟨⟨operator, rfl⟩, fun same => clauses ?_, child, member, isGroup⟩
        rw [childKind, twinKind]
        exact Prod.ext same.symm rfl
      · rw [others isGroup]

/-- A proximity node tells its clauses apart by their queries. -/
theorem proximity {near : Proximity}
    (each : List.Forall₂ (AreSettled options group inner) children twins) :
    AreSettled options group inner (.node id (.composite (.proximity near)) enclosing children)
      (.node twinId (.composite (.proximity near)) around twins) := by
  have noJunction : ∀ operator,
      Kind.composite (.proximity near) ≠ .composite (.junction operator) := nofun
  unfold AreSettled
  rw [queryOf, queryOf, compositeQuery, compositeQuery, queriesOf_eq_map, queriesOf_eq_map,
    Branch.hidesBelow_node noJunction]
  by_cases below : ∃ child ∈ children, child.HidesBelow group inner
  · obtain ⟨child, member, hides⟩ := below
    refine .inl ⟨⟨child, member, hides⟩, ⟨fun same => ?_, fun _ => rfl, fun _ => rfl⟩⟩
    refine map_ne_map_of_forall₂ each member (fun twinChild settled => ?_)
      (Query.near.inj same).1
    exact (settled.areApart hides).ne
  · refine .inr ⟨below, ?_⟩
    rw [map_eq_map_of_forall₂ (forall₂_members each) fun child twinChild related =>
      related.2.2.eq fun hides => below ⟨child, related.1, hides⟩]

/-- The query of a phrase is made of its terms, and nothing is hidden below it. -/
theorem phrase {above : Composite Proximity}
    (isPhrase : above = .tokenizedPhrase ∨ above = .multiPhrase)
    (unchanged : Branch.terms twins = Branch.terms children)
    (bare : ¬ Branch.HidesBelow group inner (.node id (.composite above) enclosing children)) :
    AreSettled options group inner (.node id (.composite above) enclosing children)
      (.node twinId (.composite above) around twins) := by
  refine .inr ⟨bare, ?_⟩
  rcases isPhrase with rfl | rfl <;>
    rw [queryOf, queryOf, compositeQuery, compositeQuery, unchanged]

/-- A wrapper keeps two queries as they are to each other. -/
theorem wrapper {wrapping : Wrapper} (settled : AreSettled options group inner part twin) :
    AreSettled options group inner (.node id (.wrapper wrapping) enclosing [part])
      (.node twinId (.wrapper wrapping) around [twin]) := by
  unfold AreSettled
  rw [Branch.hidesBelow_wrapper, queryOf_wrapper, queryOf_wrapper]
  rcases settled with ⟨hides, apart⟩ | ⟨bare, equal⟩
  · refine .inl ⟨hides, ?_⟩
    cases wrapping with
    | group | modifier _ => exact apart
    | boost factor =>
        exact ⟨fun boosted => apart.ne (Query.boost.inj boosted).1, fun _ => rfl, fun _ => rfl⟩
    | slop value =>
        show (withSlop value _).AreApart (withSlop value _)
        rw [apart.withSlop_first, apart.withSlop_second]
        exact apart
  · exact .inr ⟨bare, by rw [equal]⟩

end AreSettled

end Standard

namespace Forest.Ungroups

variable {forest after : Forest} {group child : NodeId} {inner : Kind} {options : CompileOptions}

/-- No word is a group, so words stay. -/
theorem kind_of_isWord (ungroups : forest.Ungroups after group child)
    (wraps : forest.IsGroupOver group child) (sound : forest.Sound) {part twin : Branch}
    (pair : part.Corresponds forest after group child twin) (isWord : part.IsWord) :
    twin.kind = part.kind := by
  refine ungroups.kind_of_ne pair fun isGroup => ?_
  obtain ⟨isWrapper, _⟩ := corresponds_of_group wraps sound pair isGroup
  obtain ⟨term, plain | quoted⟩ := isWord
  · exact nomatch isWrapper.symm.trans plain
  · exact nomatch isWrapper.symm.trans quoted

/-- A tree stays accepted. -/
theorem isCompilable (ungroups : forest.Ungroups after group child)
    (wraps : forest.IsGroupOver group child) (sound : forest.Sound) {part : Branch} :
    ∀ {twin : Branch}, part.Corresponds forest after group child twin →
      part.IsCompilable options → twin.IsCompilable options := by
  induction part with
  | node id kind enclosing children inductionHypothesis =>
      intro twin pair compilable
      by_cases isGroup : id = group
      · obtain ⟨_, inner, alone, _, innerPair⟩ := corresponds_of_group wraps sound pair isGroup
        have member : inner ∈ children := by
          rw [show children = [inner] from alone]
          exact List.mem_singleton_self inner
        exact inductionHypothesis inner member innerPair (compilable.child member)
      · obtain ⟨sameKind, each⟩ := ungroups.corresponds_of_ne pair isGroup
        obtain ⟨builtIn, acceptable⟩ := compilable.self
        intro part within
        rcases Branch.mem_postOrder.mp within with rfl | ⟨innerTwin, member, below⟩
        · refine ⟨fun custom => sameKind ▸ builtIn custom, acceptable.of_alike sameKind ?_⟩
          exact each.imp fun inner innerTwin related =>
            ungroups.kind_of_isWord wraps sound related.2
        · obtain ⟨inner, _, innerMember, innerPair⟩ := exists_related_of_mem each.flip member
          exact inductionHypothesis inner innerMember innerPair
            (compilable.child innerMember) part below

/-- Without the group a branch has another query exactly where an occurrence was
hidden. -/
theorem areSettled (ungroups : forest.Ungroups after group child)
    (wraps : forest.IsGroupOver group child) (sound : forest.Sound)
    (known : forest.kindOf child = some inner) {part : Branch} :
    ∀ {twin : Branch}, part.Corresponds forest after group child twin →
      part.IsCompilable options → Standard.AreSettled options group inner part twin := by
  induction part with
  | node id kind enclosing children inductionHypothesis =>
      intro twin pair compilable
      by_cases isGroup : id = group
      · -- The twin of the group is that of its child, so nothing but the name changes.
        obtain ⟨isWrapper, only, alone, _, onlyPair⟩ :=
          corresponds_of_group wraps sound pair isGroup
        cases isWrapper
        cases alone
        have member := List.mem_singleton_self only
        have settled := inductionHypothesis only member onlyPair (compilable.child member)
        unfold Standard.AreSettled at settled ⊢
        rwa [Branch.hidesBelow_wrapper, Standard.queryOf_wrapper]
      · obtain ⟨sameKind, each⟩ := ungroups.corresponds_of_ne pair isGroup
        obtain ⟨builtIn, acceptable⟩ := compilable.self
        rcases twin with ⟨twinId, twinKind, around, twins⟩
        cases sameKind
        have settled := each.imp fun inner innerTwin related =>
          inductionHypothesis inner related.1 related.2 (compilable.child related.1)
        have unchanged (words : ∀ child ∈ children, child.IsWord) :
            Branch.terms twins = Branch.terms children :=
          Branch.terms_eq_of_forall₂ <| each.imp fun inner innerTwin related =>
            ungroups.kind_of_isWord wraps sound related.2 (words inner related.1)
        cases kind with
        | leaf bottom => exact .inr ⟨pair.mirrors.not_hidesBelow_of_leaf sound rfl, rfl⟩
        | wrapper wrapping =>
            obtain ⟨only, alone⟩ := pair.mirrors.children_of_wrapper sound acceptable rfl
            cases alone
            cases settled with
            | cons first others =>
                cases others
                exact first.wrapper
        | extension custom => exact absurd rfl (builtIn custom)
        | composite above =>
            cases above with
            | proximity near => exact .proximity settled
            | junction operator =>
                refine .junction (each.imp fun inner innerTwin related => ⟨?_, ?_, ?_⟩)
                · exact inductionHypothesis inner related.1 related.2 (compilable.child related.1)
                · exact ungroups.kind_of_ne related.2
                · intro isGroup
                  have isWrapper := (corresponds_of_group wraps sound related.2 isGroup).1
                  exact ⟨isWrapper, ungroups.kind_of_group known related.2 isGroup⟩
            | tokenizedPhrase =>
                have words := acceptable.words (.inl rfl)
                exact .phrase (.inl rfl) (unchanged words)
                  (pair.mirrors.not_hidesBelow_of_words sound (.inl rfl) words)
            | multiPhrase =>
                have words := acceptable.words (.inr rfl)
                exact .phrase (.inr rfl) (unchanged words)
                  (pair.mirrors.not_hidesBelow_of_words sound (.inr rfl) words)

end Forest.Ungroups

end QueryForest
