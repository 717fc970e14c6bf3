import QueryForest.Proofs.Compile.Made
import QueryForest.Proofs.Forest.Operation
import QueryForest.Proofs.Grouping

/-!
# What an engine can rely on

A search engine takes some facts about queries for granted: limits on clauses and
edits, phrases whose positions go up, steps that hold a term, distances of a word
at least, and fields that are no stand-in for the default field.  Every standard
builder keeps them, whatever node it is given and under whatever variant or field
it is registered, as long as the queries that it finds for other nodes have them.
So they hold everywhere in all queries that are made of nothing else.
-/

namespace QueryForest

/-- The field of a term is the plain field only if that is the default field. -/
def FieldTerm.IsResolved (options : CompileOptions) (term : FieldTerm) : Prop :=
  term.field = plainField → options.defaultField = plainField

/-- A query has everywhere what an engine relies on. -/
inductive Query.WellFormed (options : CompileOptions) : Query → Prop where
  | term {term : FieldTerm} :
      term.IsResolved options → Query.WellFormed options (.term term)
  | boolean {clauses : List (Occurrence × Query)} :
      clauses.length ≤ options.maxClauses →
      (∀ clause ∈ clauses, Query.WellFormed options clause.2) →
      Query.WellFormed options (.boolean clauses)
  | phrase {terms : List (FieldTerm × UInt32)} {slop : UInt32} :
      (terms.map Prod.snd).Pairwise (· ≤ ·) →
      (∀ placed ∈ terms, placed.1.IsResolved options) →
      Query.WellFormed options (.phrase terms slop)
  | multiPhrase {steps : List PhraseStep} {slop : UInt32} :
      (steps.map PhraseStep.position).Pairwise (· < ·) →
      (∀ step ∈ steps, step.terms ≠ [] ∧ ∀ term ∈ step.terms, term.IsResolved options) →
      Query.WellFormed options (.multiPhrase steps slop)
  | fuzzy {term : FieldTerm} {maxEdits exactStart : UInt32} :
      maxEdits ≤ 2 → term.IsResolved options →
      Query.WellFormed options (.fuzzy term maxEdits exactStart)
  | near {clauses : List Query} {nearness : Nearness} {inOrder : Bool} :
      (∀ distance, nearness = .words distance → 1 ≤ distance) →
      (∀ clause ∈ clauses, Query.WellFormed options clause) →
      Query.WellFormed options (.near clauses nearness inOrder)
  | boost {query : Query} {factor : Number.Single} :
      Query.WellFormed options query → Query.WellFormed options (.boost query factor)
  | matchAll : Query.WellFormed options .matchAll
  | matchNone : Query.WellFormed options .matchNone

namespace Standard

variable {options : CompileOptions}

/-- The field of a term is resolved when its query is made. -/
theorem isResolved_fieldTerm (options : CompileOptions) (term : Term) :
    (fieldTerm options term).IsResolved options := by
  unfold FieldTerm.IsResolved fieldTerm CompileOptions.resolve
  cases term.field with
  | none => exact id
  | some field =>
      by_cases plain : field = plainField
      · simp [plain]
      · simp [plain]

theorem wellFormed_withSlop (slop : UInt32) {query : Query} (wellFormed : query.WellFormed options) :
    (withSlop slop query).WellFormed options := by
  cases wellFormed with
  | phrase ordered resolved => exact .phrase ordered resolved
  | multiPhrase ascending filled => exact .multiPhrase ascending filled
  | term resolved => exact .term resolved
  | boolean few clauses => exact .boolean few clauses
  | fuzzy close resolved => exact .fuzzy close resolved
  | near positive clauses => exact .near positive clauses
  | boost inner => exact .boost inner
  | matchAll => exact .matchAll
  | matchNone => exact .matchNone

theorem editsAllowed_le (similarity : Number.Single) (length : Nat) :
    editsAllowed similarity length ≤ mostEdits := by
  unfold editsAllowed
  split
  · exact Nat.zero_le _
  · split <;> exact Nat.min_le_right _ _

/-! ## What a builder keeps -/

/-- A builder finds well-formed queries for other nodes, if it finds any. -/
def FindsWellFormed (context : BuildContext Query) : Prop :=
  ∀ id query, context.artifacts.get? id builderLabel = some query → query.WellFormed context.options

/-- A builder that finds well-formed queries makes a well-formed query, whatever node
it is given. -/
def KeepsWellFormed (builder : QueryBuilder) : Prop :=
  ∀ branch context, FindsWellFormed context → ∀ query,
    builder branch context = .ok query → query.WellFormed context.options

theorem FindsWellFormed.isResolved {context : BuildContext Query}
    (finds : FindsWellFormed context) {id : NodeId} {term : FieldTerm}
    (found : context.artifacts.get? id builderLabel = some (.term term)) : term.IsResolved context.options := by
  cases finds id _ found with
  | term resolved => exact resolved

theorem FindsWellFormed.forall_mem {context : BuildContext Query} (finds : FindsWellFormed context)
    {Result : Type} (made : Result → Query) {children : List Branch} {results : List Result}
    (found : List.Forall₂ (fun child result =>
      context.artifacts.get? child.id builderLabel = some (made result)) children results) :
    ∀ result ∈ results, (made result).WellFormed context.options := by
  intro result member
  obtain ⟨child, _, present⟩ := exists_related_of_mem found.flip member
  exact finds child.id _ present

theorem keepsWellFormed_field : KeepsWellFormed field := by
  intro branch context _ query made
  unfold field at made
  split at made
  · next term _ =>
      cases made
      exact .term (isResolved_fieldTerm context.options term)
  · cases made

theorem keepsWellFormed_fuzzy : KeepsWellFormed fuzzy := by
  intro branch context _ query made
  unfold fuzzy at made
  split at made
  · next term similarity exactStart _ =>
      cases made
      have few := editsAllowed_le similarity.value term.text.length
      -- So few edits fit their 32 bits as they are.
      have small : (UInt32.ofNat (editsAllowed similarity.value term.text.length)).toNat ≤ 2 := by
        rw [UInt32.toNat_ofNat']
        exact (Nat.mod_le _ _).trans few
      exact .fuzzy (UInt32.le_iff_toNat_le.mpr small) (isResolved_fieldTerm context.options term)
  · cases made

theorem keepsWellFormed_matchAll : KeepsWellFormed matchAll := by
  intro branch context _ query made
  cases made
  exact .matchAll

theorem keepsWellFormed_matchNone : KeepsWellFormed matchNone := by
  intro branch context _ query made
  cases made
  exact .matchNone

theorem keepsWellFormed_boolean : KeepsWellFormed boolean := by
  intro branch context finds query made
  obtain ⟨few, clauses, rfl, found⟩ := boolean_eq_ok made
  refine .boolean ?_ (finds.forall_mem Prod.snd found)
  rwa [← found.length_eq]

theorem keepsWellFormed_transparent : KeepsWellFormed transparent := by
  intro branch context finds query made
  obtain ⟨child, _, _, found⟩ := childArtifact_eq_ok made
  exact finds child.id query found

theorem keepsWellFormed_boost : KeepsWellFormed boost := by
  intro branch context finds query made
  unfold boost at made
  split at made
  · obtain ⟨inner, innerMade, same⟩ := bind_eq_ok.mp made
    cases same
    exact .boost (keepsWellFormed_transparent branch context finds inner innerMade)
  · cases made

theorem keepsWellFormed_slop : KeepsWellFormed slop := by
  intro branch context finds query made
  unfold slop at made
  split at made
  · next value _ =>
      obtain ⟨inner, innerMade, same⟩ := bind_eq_ok.mp made
      cases same
      exact wellFormed_withSlop value
        (keepsWellFormed_transparent branch context finds inner innerMade)
  · cases made

/-- No position of a phrase is below the one before it. -/
theorem pairwise_of_phraseTerms {context : BuildContext Query} {phrase : Branch}
    {last : Option UInt32} {children : List Branch} {terms : List (FieldTerm × UInt32)}
    (made : phraseTerms context phrase last children = .ok terms) :
    (last.toList ++ terms.map Prod.snd).Pairwise (· ≤ ·) := by
  induction children generalizing last terms with
  | nil =>
      cases made
      cases last <;> simp
  | cons child others inductionHypothesis =>
      obtain ⟨position, term, later, _, onward, _, rest, rfl⟩ := phraseTerms_cons_eq_ok made
      have ordered : (position :: later.map Prod.snd).Pairwise (· ≤ ·) := inductionHypothesis rest
      cases last with
      | none => exact ordered
      | some former =>
          refine List.pairwise_cons.mpr ⟨fun other member => ?_, ordered⟩
          rcases List.mem_cons.mp member with rfl | behind
          · exact onward former rfl
          · exact UInt32.le_trans (onward former rfl)
              ((List.pairwise_cons.mp ordered).1 other behind)

theorem keepsWellFormed_tokenizedPhrase : KeepsWellFormed tokenizedPhrase := by
  intro branch context finds query made
  obtain ⟨terms, rfl, found⟩ := tokenizedPhrase_eq_ok made
  refine .phrase (pairwise_of_phraseTerms found) fun placed member => ?_
  obtain ⟨child, _, present⟩ :=
    exists_related_of_mem (forall₂_of_phraseTerms found).flip member
  exact finds.isResolved present

theorem keepsWellFormed_multiPhrase : KeepsWellFormed multiPhrase := by
  intro branch context finds query made
  obtain ⟨items, contributed, rfl⟩ := multiPhrase_eq_ok.mp made
  have resolved : ∀ item ∈ items, item.2.IsResolved context.options := by
    intro item member
    obtain ⟨child, _, present, _⟩ := exists_related_of_mem contributed.flip member
    exact finds.isResolved present
  have gathered : ∀ group ∈ groupByPosition items,
      IsGathered (fun _ term => term.IsResolved context.options) group :=
    isGathered_groupByPosition resolved
  refine .multiPhrase ?_ fun step member => ?_
  · rw [stepsOf, List.map_map]
    exact ascending_groupByPosition items
  · obtain ⟨group, groupMember, rfl⟩ := List.mem_map.mp member
    exact gathered group groupMember

theorem keepsWellFormed_proximity : KeepsWellFormed proximity := by
  intro branch context finds query made
  obtain ⟨near, clauses, _, rfl, found⟩ := proximity_eq_ok made
  refine .near (fun distance counted => ?_) (finds.forall_mem id found)
  cases reach : near.reach with
  | paragraph | sentence =>
      rw [reach] at counted
      cases counted
  | words limit =>
      rw [reach] at counted
      cases counted
      exact UInt32.le_iff_toNat_le.mpr limit.positive

/-- Every standard builder keeps queries well formed. -/
theorem keepsWellFormed_of_mem {builder : QueryBuilder} (member : builder ∈ builders.map Prod.snd) :
    KeepsWellFormed builder := by
  simp only [builders, List.map_cons, List.map_nil, List.mem_cons, List.not_mem_nil,
    or_false] at member
  rcases member with rfl | rfl | rfl | rfl | rfl | rfl | rfl | rfl | rfl | rfl | rfl | rfl
  · exact keepsWellFormed_field
  · exact keepsWellFormed_fuzzy
  · exact keepsWellFormed_matchAll
  · exact keepsWellFormed_matchNone
  · exact keepsWellFormed_boolean
  · exact keepsWellFormed_transparent
  · exact keepsWellFormed_transparent
  · exact keepsWellFormed_boost
  · exact keepsWellFormed_slop
  · exact keepsWellFormed_tokenizedPhrase
  · exact keepsWellFormed_multiPhrase
  · exact keepsWellFormed_proximity

end Standard

namespace Registry

open Standard

/-- Only standard builders are registered, under whichever variants and fields. -/
structure IsStandard (registry : Registry Query) : Prop where
  variants : ∀ variant builder, registry.variants.get? variant = some builder →
    builder ∈ builders.map Prod.snd
  fields : ∀ field builder, registry.fields.get? field = some builder →
    builder ∈ builders.map Prod.snd

theorem isStandard_empty : (empty : Registry Query).IsStandard where
  variants _ _ found := by cases found
  fields _ _ found := by cases found

namespace IsStandard

variable {registry : Registry Query} {builder : QueryBuilder}

theorem register (standard : registry.IsStandard) (variant : Variant)
    (member : builder ∈ builders.map Prod.snd) :
    (registry.register variant builder).IsStandard where
  variants other found present := by
    rw [Registry.register, Table.get?_insert] at present
    split at present
    · cases present
      exact member
    · exact standard.variants other found present
  fields := standard.fields

theorem registerField (standard : registry.IsStandard) (field : String)
    (member : builder ∈ builders.map Prod.snd) :
    (registry.registerField field builder).IsStandard where
  variants := standard.variants
  fields other found present := by
    rw [Registry.registerField, Table.get?_insert] at present
    split at present
    · cases present
      exact member
    · exact standard.fields other found present

/-- Whichever builder is chosen for a node is a standard one. -/
theorem mem_builders (standard : registry.IsStandard) {kind : Kind}
    (chosen : registry.builder? kind = some builder) : builder ∈ builders.map Prod.snd := by
  unfold Registry.builder? at chosen
  split at chosen
  · next fieldBuilder forField =>
      cases chosen
      obtain ⟨term, _, named⟩ := Option.bind_eq_some_iff.mp forField
      obtain ⟨field, _, found⟩ := Option.bind_eq_some_iff.mp named
      exact standard.fields field builder found
  · obtain ⟨variant, _, found⟩ := List.exists_of_findSome?_eq_some chosen
    exact standard.variants variant builder found

end IsStandard

end Registry

/-! ## Whole trees -/

namespace Compiler

open Standard

variable {compiler : Compiler Query}

/-- The artifacts stay well-formed queries when a standard builder is used. -/
theorem wellFormed_set (standard : compiler.registry.IsStandard) {forest : Forest}
    {artifacts : Annotations Table Query} {branch : Branch} {query : Query}
    (finds : FindsWellFormed ⟨forest, artifacts, compiler.options⟩)
    (made : compiler.Makes forest artifacts branch query) :
    FindsWellFormed
      ⟨forest, (artifacts.set branch.id builderLabel query).2, compiler.options⟩ := by
  obtain ⟨builder, chosen, made⟩ := made
  intro id other found
  change (artifacts.set branch.id builderLabel query).2.get? id builderLabel = some other at found
  rw [Annotations.get?_set] at found
  split at found
  · cases found
    exact keepsWellFormed_of_mem (standard.mem_builders chosen) branch _ finds query made
  · exact finds id other found

/-- Where only standard builders are registered, under whichever variants and fields,
everything that is made of any tree is well formed: all queries that are kept for its
nodes, and what a node or the whole tree is compiled to. -/
theorem wellFormed_of_compile (standard : compiler.registry.IsStandard) (forest : Forest) :
    (∀ root artifacts, compiler.artifacts forest root = .ok artifacts →
      ∀ id query, artifacts.get? id builderLabel = some query →
        query.WellFormed compiler.options) ∧
    (∀ id query, compiler.compileNode forest id = .ok query →
      query.WellFormed compiler.options) ∧
    ∀ query, compiler.compile forest = .ok query → query.WellFormed compiler.options := by
  have throughout {branches : List Branch} {artifacts : Annotations Table Query}
      (done : branches.foldlM (compiler.buildNode forest) .empty = .ok artifacts) :
      FindsWellFormed ⟨forest, artifacts, compiler.options⟩ :=
    keeps_foldlM (fun artifacts => FindsWellFormed ⟨forest, artifacts, compiler.options⟩)
      (fun _ _ _ => wellFormed_set standard) (fun _ _ found => by cases found) done
  have ofNode : ∀ id query, compiler.compileNode forest id = .ok query →
      query.WellFormed compiler.options := by
    intro id query compiled
    obtain ⟨branch, read⟩ := exists_branch_of_compileNode compiled
    obtain ⟨artifacts, done, found⟩ := (compileNode_eq_ok_iff read).mp compiled
    exact throughout done id query found
  refine ⟨fun root artifacts made => ?_, ofNode, fun query compiled => ?_⟩
  · obtain ⟨branch, _, done⟩ := bind_eq_ok.mp made
    exact throughout done
  · unfold compile at compiled
    split at compiled
    · cases compiled
    · exact ofNode _ query compiled

/-- Terms are built as usual, and junctions as phrases with alternatives. -/
def phrasing : Compiler Query where
  registry := (Registry.empty.register .field field).register .boolean multiPhrase
  options := { defaultField := "body" }

def wordsBackwards : Forest :=
  Operation.runAll .empty
    [.add (.leaf (.field { text := "fox", position := 2 })),
      .add (.leaf (.field { field := some "_plain", text := "red", position := 1 })),
      .addWithChildren (.composite (.junction .disjunction)) [0, 1], .setRoot 2]

theorem isStandard_phrasing : phrasing.registry.IsStandard :=
  (Registry.isStandard_empty.register .field (by simp [builders])).register .boolean
    (by simp [builders])

theorem wellFormed_of_compile_phrasing :
    phrasing.registry.IsStandard ∧
      phrasing.compile wordsBackwards =
        .ok (.multiPhrase [⟨1, [⟨"body", "red"⟩]⟩, ⟨2, [⟨"body", "fox"⟩]⟩] 0) ∧
      (Query.multiPhrase [⟨1, [⟨"body", "red"⟩]⟩, ⟨2, [⟨"body", "fox"⟩]⟩] 0).WellFormed
        phrasing.options := by
  have compiled : phrasing.compile wordsBackwards =
      .ok (.multiPhrase [⟨1, [⟨"body", "red"⟩]⟩, ⟨2, [⟨"body", "fox"⟩]⟩] 0) := by
    with_unfolding_all rfl
  have shown := wellFormed_of_compile isStandard_phrasing wordsBackwards
  exact ⟨isStandard_phrasing, compiled, shown.2.2 _ compiled⟩

end Compiler

end QueryForest
