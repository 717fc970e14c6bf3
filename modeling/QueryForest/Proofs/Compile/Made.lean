import QueryForest.Proofs.Compile.Denotation
import QueryForest.Proofs.Compile.Runs
import QueryForest.Proofs.Grouping

namespace QueryForest

namespace Standard

def leafBuilder : Leaf Similarity → QueryBuilder
  | .field _ | .quotedField _ => field
  | .fuzzy _ _ _ => fuzzy
  | .matchAll => matchAll
  | .matchNone => matchNone

def wrapperBuilder : Wrapper → QueryBuilder
  | .group | .modifier _ => transparent
  | .boost _ => boost
  | .slop _ => slop

def compositeBuilder : Composite Proximity → QueryBuilder
  | .junction _ => boolean
  | .tokenizedPhrase => tokenizedPhrase
  | .multiPhrase => multiPhrase
  | .proximity _ => proximity

theorem builder?_leaf (bottom : Leaf Similarity) :
    registry.builder? (.leaf bottom) = some (leafBuilder bottom) := by
  rw [builder?_eq]
  cases bottom <;> rfl

theorem builder?_wrapper (around : Wrapper) :
    registry.builder? (.wrapper around) = some (wrapperBuilder around) := by
  rw [builder?_eq]
  cases around <;> rfl

theorem builder?_composite (above : Composite Proximity) :
    registry.builder? (.composite above) = some (compositeBuilder above) := by
  rw [builder?_eq]
  cases above with
  | junction operator => cases operator <;> rfl
  | tokenizedPhrase | multiPhrase | proximity _ => rfl

theorem artifact_eq_ok {context : BuildContext Query} {branch : Branch} {query : Query} :
    context.artifact branch = .ok query ↔ context.artifacts.get? branch.id builderLabel = some query := by
  unfold BuildContext.artifact
  cases context.artifacts.get? branch.id builderLabel with
  | none => simp [Build.fail]
  | some artifact => simp

/-- A wrapper is made from the first of its children. -/
theorem childArtifact_eq_ok {context : BuildContext Query} {branch : Branch} {query : Query}
    (found : context.childArtifact branch = .ok query) :
    ∃ child others, branch.children = child :: others ∧
      context.artifacts.get? child.id builderLabel = some query := by
  unfold BuildContext.childArtifact at found
  cases listed : branch.children with
  | nil =>
      rw [listed] at found
      cases found
  | cons child others =>
      rw [listed] at found
      exact ⟨child, others, rfl, artifact_eq_ok.mp found⟩

theorem termOf_eq_ok {phrase : Branch} {query : Query} {term : FieldTerm}
    (taken : termOf phrase query = .ok term) : query = .term term := by
  cases query <;> cases taken
  rfl

theorem positionOf_eq_ok {phrase child : Branch} {position : UInt32}
    (positioned : positionOf phrase child = .ok position) :
    ∃ term, child.term? = some term ∧ term.position = position := by
  unfold positionOf at positioned
  cases termed : child.term? with
  | none =>
      rw [termed] at positioned
      cases positioned
  | some term =>
      rw [termed] at positioned
      cases positioned
      exact ⟨term, rfl, rfl⟩

/-! ## Builders of composites -/

section Composites

variable {context : BuildContext Query} {branch : Branch} {query : Query}

/-- A junction has a clause for each child, as far as it may. -/
theorem boolean_eq_ok (made : boolean branch context = .ok query) :
    branch.children.length ≤ context.options.maxClauses ∧
      ∃ clauses, query = .boolean clauses ∧
        List.Forall₂ (fun child clause => context.artifacts.get? child.id builderLabel = some clause.2)
          branch.children clauses := by
  unfold boolean at made
  by_cases many : context.options.maxClauses < branch.children.length
  · rw [if_pos many] at made
    cases made
  · rw [if_neg many] at made
    obtain ⟨clauses, found, same⟩ := bind_eq_ok.mp made
    cases same
    refine ⟨Nat.not_lt.mp many, clauses, rfl, (mapM_eq_ok.mp found).imp ?_⟩
    intro child clause clauseMade
    obtain ⟨inner, innerFound, same⟩ := bind_eq_ok.mp clauseMade
    cases same
    exact artifact_eq_ok.mp innerFound

/-- The clauses of a proximity node are those of its children. -/
theorem proximity_eq_ok (made : proximity branch context = .ok query) :
    ∃ near clauses, branch.kind = .composite (.proximity near) ∧
      query = .near clauses (nearnessOf near.reach) near.inOrder ∧
        List.Forall₂ (fun child clause => context.artifacts.get? child.id builderLabel = some clause)
          branch.children clauses := by
  unfold proximity at made
  split at made
  · next near kind =>
      obtain ⟨clauses, found, same⟩ := bind_eq_ok.mp made
      cases same
      exact ⟨near, clauses, kind, rfl,
        (mapM_eq_ok.mp found).imp fun _ _ => artifact_eq_ok.mp⟩
  · cases made

/-- A phrase begins with the term of its first child, and goes on from the position of
that child with the terms of the others. -/
theorem phraseTerms_cons_eq_ok {phrase child : Branch} {last : Option UInt32}
    {others : List Branch} {terms : List (FieldTerm × UInt32)}
    (made : phraseTerms context phrase last (child :: others) = .ok terms) :
    ∃ position term later, positionOf phrase child = .ok position ∧
      (∀ former, last = some former → former ≤ position) ∧
      context.artifacts.get? child.id builderLabel = some (.term term) ∧
      phraseTerms context phrase (some position) others = .ok later ∧
      terms = (term, position) :: later := by
  rw [phraseTerms] at made
  obtain ⟨position, positioned, afterPosition⟩ := bind_eq_ok.mp made
  have ordered : (∀ former, last = some former → former ≤ position) ∧ (do
      let term ← termOf phrase (← context.artifact child)
      return (term, position)
        :: (← phraseTerms context phrase (some position) others)) = .ok terms := by
    cases last with
    | none => exact ⟨fun _ never => absurd never.symm (Option.some_ne_none _), afterPosition⟩
    | some last =>
        by_cases down : position < last
        · simp only [if_pos down] at afterPosition
          cases afterPosition
        · refine ⟨fun former same => ?_, by simpa only [if_neg down] using afterPosition⟩
          cases same
          exact UInt32.not_lt.mp down
  obtain ⟨artifact, found, afterArtifact⟩ := bind_eq_ok.mp ordered.2
  obtain ⟨term, taken, afterTerm⟩ := bind_eq_ok.mp afterArtifact
  obtain ⟨later, laterMade, same⟩ := bind_eq_ok.mp afterTerm
  cases same
  rw [termOf_eq_ok taken] at found
  exact ⟨position, term, later, positioned, ordered.1, artifact_eq_ok.mp found, laterMade, rfl⟩

/-- A phrase is made from terms, one for each child and in their order. -/
theorem forall₂_of_phraseTerms {phrase : Branch} {last : Option UInt32}
    {children : List Branch} {terms : List (FieldTerm × UInt32)}
    (made : phraseTerms context phrase last children = .ok terms) :
    List.Forall₂ (fun child term => context.artifacts.get? child.id builderLabel = some (.term term.1))
      children terms := by
  induction children generalizing last terms with
  | nil =>
      cases made
      exact .nil
  | cons child others inductionHypothesis =>
      obtain ⟨_, _, _, _, _, found, rest, rfl⟩ := phraseTerms_cons_eq_ok made
      exact .cons found (inductionHypothesis rest)

theorem tokenizedPhrase_eq_ok (made : tokenizedPhrase branch context = .ok query) :
    ∃ terms, query = .phrase terms 0 ∧
      phraseTerms context branch none branch.children = .ok terms := by
  obtain ⟨terms, found, same⟩ := bind_eq_ok.mp made
  cases same
  exact ⟨terms, rfl, found⟩

def stepsOf (items : List (UInt32 × FieldTerm)) : List PhraseStep :=
  (groupByPosition items).map fun group => ⟨group.1, group.2⟩

theorem terms_stepsOf_perm (items : List (UInt32 × FieldTerm)) :
    ((stepsOf items).flatMap PhraseStep.terms).Perm (items.map Prod.snd) := by
  rw [stepsOf, List.flatMap_map]
  exact flatMap_groupByPosition_perm items

/-- A child of a phrase contributes a term at a position. -/
def Contributes (context : BuildContext Query) (child : Branch) (item : UInt32 × FieldTerm) :
    Prop :=
  context.artifacts.get? child.id builderLabel = some (.term item.2) ∧
    ∃ term, child.term? = some term ∧ term.position = item.1

/-- A phrase with alternatives is made from what each of its children contributes. -/
theorem multiPhrase_eq_ok :
    multiPhrase branch context = .ok query ↔
      ∃ items, List.Forall₂ (Contributes context) branch.children items ∧
        query = .multiPhrase (stepsOf items) 0 := by
  have contributes (child : Branch) (item : UInt32 × FieldTerm) :
      (do
        let position ← positionOf branch child
        return (position, ← termOf branch (← context.artifact child))) = .ok item ↔
        Contributes context child item := by
    constructor
    · intro made
      obtain ⟨position, positioned, afterPosition⟩ := bind_eq_ok.mp made
      obtain ⟨artifact, found, afterArtifact⟩ := bind_eq_ok.mp afterPosition
      obtain ⟨term, taken, same⟩ := bind_eq_ok.mp afterArtifact
      cases same
      rw [termOf_eq_ok taken] at found
      exact ⟨artifact_eq_ok.mp found, positionOf_eq_ok positioned⟩
    · rintro ⟨found, term, termed, placed⟩
      obtain ⟨position, fieldTerm⟩ := item
      cases placed
      rw [positionOf, termed, artifact_eq_ok.mpr found]
      rfl
  unfold multiPhrase
  rw [bind_eq_ok]
  refine exists_congr fun items => and_congr ?_ ?_
  · rw [mapM_eq_ok]
    simp only [contributes]
  · simp only [pure, Except.pure, Except.ok.injEq, eq_comm, stepsOf]

end Composites

variable {options : CompileOptions} {forest : Forest} {artifacts : Annotations Table Query}
  {part : Branch} {query : Query}

theorem builder_made {kind : Kind} (isKind : part.kind = kind) {builder : QueryBuilder}
    (known : registry.builder? kind = some builder)
    (made : (compiler options).Makes forest artifacts part query) :
    builder part ⟨forest, artifacts, options⟩ = .ok query := by
  obtain ⟨other, found, made⟩ := made
  cases found.symm.trans ((congrArg registry.builder? isKind).trans known)
  exact made

theorem made_of_leaf {bottom : Leaf Similarity}
    (made : (compiler options).Makes forest artifacts part query)
    (kind : part.kind = .leaf bottom) : query = leafQuery options bottom := by
  have made := builder_made kind (builder?_leaf bottom) made
  rcases part with ⟨id, _, enclosing, children⟩
  cases kind
  cases bottom with
  | field _ | quotedField _ | fuzzy _ _ _ | matchAll | matchNone =>
      cases made
      rfl

theorem made_of_wrapper {around : Wrapper}
    (made : (compiler options).Makes forest artifacts part query)
    (kind : part.kind = .wrapper around) :
    ∃ child others inner, part.children = child :: others ∧
      artifacts.get? child.id builderLabel = some inner ∧ query = wrapped around inner := by
  have made := builder_made kind (builder?_wrapper around) made
  have inside : ∃ inner, BuildContext.childArtifact ⟨forest, artifacts, options⟩ part =
      .ok inner ∧ query = wrapped around inner := by
    cases around with
    | group | modifier _ => exact ⟨query, made, rfl⟩
    | boost factor =>
        simp only [wrapperBuilder, boost, kind] at made
        obtain ⟨inner, found, same⟩ := bind_eq_ok.mp made
        cases same
        exact ⟨inner, found, rfl⟩
    | slop value =>
        simp only [wrapperBuilder, slop, kind] at made
        obtain ⟨inner, found, same⟩ := bind_eq_ok.mp made
        cases same
        exact ⟨inner, found, rfl⟩
  obtain ⟨inner, found, same⟩ := inside
  obtain ⟨child, others, listed, present⟩ := childArtifact_eq_ok found
  exact ⟨child, others, inner, listed, present, same⟩

theorem made_of_junction {operator : Operator}
    (made : (compiler options).Makes forest artifacts part query)
    (kind : part.kind = .composite (.junction operator)) :
    ∃ clauses, query = .boolean clauses ∧
      List.Forall₂ (fun child clause => artifacts.get? child.id builderLabel = some clause.2)
        part.children clauses :=
  (boolean_eq_ok (builder_made kind (builder?_composite _) made)).2

theorem made_of_proximity {near : Proximity}
    (made : (compiler options).Makes forest artifacts part query)
    (kind : part.kind = .composite (.proximity near)) :
    ∃ clauses, query = .near clauses (nearnessOf near.reach) near.inOrder ∧
      List.Forall₂ (fun child clause => artifacts.get? child.id builderLabel = some clause)
        part.children clauses := by
  obtain ⟨other, clauses, otherKind, same, found⟩ :=
    proximity_eq_ok (builder_made kind (builder?_composite _) made)
  cases kind.symm.trans otherKind
  exact ⟨clauses, same, found⟩

theorem made_of_tokenizedPhrase
    (made : (compiler options).Makes forest artifacts part query)
    (kind : part.kind = .composite .tokenizedPhrase) :
    ∃ terms, query = .phrase terms 0 ∧
      List.Forall₂ (fun child term => artifacts.get? child.id builderLabel = some (.term term.1))
        part.children terms := by
  obtain ⟨terms, same, found⟩ :=
    tokenizedPhrase_eq_ok (builder_made kind (builder?_composite _) made)
  exact ⟨terms, same, forall₂_of_phraseTerms found⟩

theorem made_of_multiPhrase
    (made : (compiler options).Makes forest artifacts part query)
    (kind : part.kind = .composite .multiPhrase) :
    ∃ items : List (UInt32 × FieldTerm),
      query = .multiPhrase ((groupByPosition items).map fun group => ⟨group.1, group.2⟩) 0 ∧
      List.Forall₂ (fun child item => artifacts.get? child.id builderLabel = some (.term item.2) ∧
        ∃ term, child.term? = some term ∧ term.position = item.1) part.children items := by
  obtain ⟨items, found, same⟩ :=
    multiPhrase_eq_ok.mp (builder_made kind (builder?_composite _) made)
  exact ⟨items, same, found⟩

end Standard

end QueryForest
