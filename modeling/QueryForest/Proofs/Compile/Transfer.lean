import Mathlib.Logic.Relator
import QueryForest.Proofs.Compile.Criterion
import QueryForest.Proofs.Compile.Runs
import QueryForest.Proofs.View.Spoken

/-!
# Runs that go alike

Two runs of compilers go through related branches step by step.  As long as each
node is built from artifacts that its related node is built from as well, all
that one run builds is built by the other one.  The standard builders look at
nothing but the kind of their node and at the kinds and artifacts of its
children, so where a node stands and what it is called makes no difference.
-/

namespace QueryForest

def ArtifactsAgree {Artifact : Type} (related : NodeId → NodeId → Prop)
    (first second : Annotations Table Artifact) : Prop :=
  ∀ id twin, related id twin → first.get? id builderLabel = second.get? twin builderLabel

theorem ArtifactsAgree.set {Artifact : Type} {related : NodeId → NodeId → Prop}
    {first second : Annotations Table Artifact} (agree : ArtifactsAgree related first second)
    (unique : Relator.BiUnique related) {id twin : NodeId} (pair : related id twin)
    (artifact : Artifact) :
    ArtifactsAgree related (first.set id builderLabel artifact).2
      (second.set twin builderLabel artifact).2 := by
  intro other otherTwin otherPair
  rw [Annotations.get?_set, Annotations.get?_set]
  by_cases same : other = id
  · subst same
    rw [if_pos rfl, if_pos (unique.2 otherPair pair)]
  · have twinOther : otherTwin ≠ twin := by
      rintro rfl
      exact same (unique.1 otherPair pair)
    rw [if_neg same, if_neg twinOther]
    exact agree other otherTwin otherPair

namespace Compiler

variable {Artifact : Type} {compiler : Compiler Artifact} {forest twinForest : Forest}
  {related : NodeId → NodeId → Prop}

/-- Whatever a node is built to, its twin is built to as well, if the artifacts of
related nodes are the same. -/
def Transfers (compiler : Compiler Artifact) (forest twinForest : Forest)
    (related : NodeId → NodeId → Prop) (branch twin : Branch) : Prop :=
  ∀ artifacts twinArtifacts : Annotations Table Artifact, ArtifactsAgree related artifacts twinArtifacts →
    ∀ artifact, compiler.Makes forest artifacts branch artifact →
      compiler.Makes twinForest twinArtifacts twin artifact

/-- A run over branches that transfer to their twins succeeds for the twins with
the same artifacts. -/
theorem foldlM_buildNode_transfers (unique : Relator.BiUnique related)
    {branches twins : List Branch}
    (each : List.Forall₂ (fun branch twin => related branch.id twin.id ∧
      compiler.Transfers forest twinForest related branch twin) branches twins)
    {artifacts twinArtifacts built : Annotations Table Artifact}
    (agrees : ArtifactsAgree related artifacts twinArtifacts)
    (done : branches.foldlM (compiler.buildNode forest) artifacts = .ok built) :
    ∃ twinBuilt, twins.foldlM (compiler.buildNode twinForest) twinArtifacts = .ok twinBuilt ∧
      ArtifactsAgree related built twinBuilt := by
  induction each generalizing artifacts twinArtifacts with
  | nil =>
      cases done
      exact ⟨twinArtifacts, rfl, agrees⟩
  | cons pair _ inductionHypothesis =>
      rw [List.foldlM_cons] at done
      obtain ⟨next, stepDone, rest⟩ := bind_eq_ok.mp done
      obtain ⟨artifact, made, rfl⟩ := buildNode_eq_ok.mp stepDone
      have twinMade := pair.2 _ _ agrees artifact made
      obtain ⟨twinBuilt, twinDone, twinAgrees⟩ :=
        inductionHypothesis (agrees.set unique pair.1 artifact) rest
      refine ⟨twinBuilt, ?_, twinAgrees⟩
      rw [List.foldlM_cons]
      exact bind_eq_ok.mpr ⟨_, buildNode_eq_ok.mpr ⟨artifact, twinMade, rfl⟩, twinDone⟩

/-- What a node compiles to, its twin compiles to, if all nodes below transfer to
their twins. -/
theorem compileNode_transfers (unique : Relator.BiUnique related) {branch twin : Branch}
    (read : forest.branch branch.id = .ok branch) (twinRead : twinForest.branch twin.id = .ok twin)
    (pair : related branch.id twin.id)
    (each : List.Forall₂ (fun branch twin => related branch.id twin.id ∧
      compiler.Transfers forest twinForest related branch twin) branch.postOrder twin.postOrder)
    {artifact : Artifact} (compiled : compiler.compileNode forest branch.id = .ok artifact) :
    compiler.compileNode twinForest twin.id = .ok artifact := by
  obtain ⟨artifacts, done, found⟩ := (compileNode_eq_ok_iff read).mp compiled
  have agrees : ArtifactsAgree related (.empty : Annotations Table Artifact) .empty :=
    fun _ _ _ => rfl
  obtain ⟨twinArtifacts, twinDone, twinAgrees⟩ :=
    foldlM_buildNode_transfers unique each agrees done
  refine (compileNode_eq_ok_iff twinRead).mpr ⟨twinArtifacts, twinDone, ?_⟩
  rw [← twinAgrees _ _ pair, found]

end Compiler

namespace Standard

/-- A term means its field, whether it is the default one by name or not. -/
theorem fieldTerm_spoken (options : CompileOptions) (term : Term) :
    fieldTerm options ((Rewording.spoken options.defaultField).term term) =
      fieldTerm options term := by
  simp only [fieldTerm, Rewording.term, Rewording.spoken]
  cases term.field with
  | none => simp [spokenField, CompileOptions.resolve]
  | some field =>
      simp only [spokenField, CompileOptions.resolve]
      split <;> simp_all

theorem fieldTerm_congr {options : CompileOptions} {term twin : Term}
    (alike : term.IsAlike options.defaultField twin) :
    fieldTerm options twin = fieldTerm options term := by
  rw [← fieldTerm_spoken, ← alike, fieldTerm_spoken]

@[simp]
theorem occurrenceOf_reworded (rewording : Rewording) (junction child : Kind) :
    occurrenceOf (junction.reworded rewording) (child.reworded rewording) =
      occurrenceOf junction child := by
  rcases child with _ | (_ | (_ | _ | _) | _ | _) | _ | _ <;>
    rcases junction with _ | _ | ((_ | _ | _) | _ | _ | _) | _ <;> rfl

theorem occurrenceOf_congr {defaultField : String} {junction twinJunction child twinChild : Kind}
    (alike : junction.IsAlike defaultField twinJunction)
    (alikeChild : child.IsAlike defaultField twinChild) :
    occurrenceOf twinJunction twinChild = occurrenceOf junction child := by
  rw [← occurrenceOf_reworded (.spoken defaultField) twinJunction, ← alike, ← alikeChild,
    occurrenceOf_reworded]

/-! ## What the standard builders look at -/

/-- Two branches look alike to builders: their kinds are alike, and so are those of
their children, which have the same artifacts. -/
structure LooksLike (context twinContext : BuildContext Query) (branch twin : Branch) :
    Prop where
  options : twinContext.options = context.options
  kind : branch.kind.IsAlike context.options.defaultField twin.kind
  children : List.Forall₂ (fun child twinChild =>
    child.kind.IsAlike context.options.defaultField twinChild.kind ∧
      ∀ query, context.artifact child = .ok query → twinContext.artifact twinChild = .ok query)
        branch.children twin.children

/-- Steps that carry over item by item carry over for lists. -/
theorem mapM_transfers {Error Item Result : Type} {step twinStep : Item → Except Error Result}
    {items twins : List Item} (each : List.Forall₂ (fun item twin => ∀ result,
      step item = .ok result → twinStep twin = .ok result) items twins)
    {results : List Result} (done : items.mapM step = .ok results) :
    twins.mapM twinStep = .ok results := by
  have steps := mapM_eq_ok.mp done
  clear done
  rw [mapM_eq_ok]
  induction each generalizing results with
  | nil =>
      cases steps
      exact .nil
  | cons first _ inductionHypothesis =>
      cases steps with
      | cons firstDone rest => exact .cons (first _ firstDone) (inductionHypothesis rest)

section Builders

variable {context twinContext : BuildContext Query} {branch twin : Branch} {query : Query}

theorem field_transfers (alike : LooksLike context twinContext branch twin)
    (made : field branch context = .ok query) : field twin twinContext = .ok query := by
  unfold field Branch.term? at made ⊢
  cases termed : branch.kind.term? with
  | none =>
      rw [termed] at made
      cases made
  | some term =>
      obtain ⟨twinTerm, twinTermed, termAlike⟩ := alike.kind.exists_term termed
      rw [termed] at made
      rw [twinTermed, alike.options, ← made]
      simp only [fieldTerm_congr termAlike]

theorem fuzzy_transfers (alike : LooksLike context twinContext branch twin)
    (made : fuzzy branch context = .ok query) : fuzzy twin twinContext = .ok query := by
  have kindAlike := alike.kind
  unfold fuzzy at made ⊢
  split at made
  · next term similarity exactStart kind =>
      rw [kind] at kindAlike
      obtain ⟨twinTerm, twinKind, termAlike⟩ := kindAlike.exists_fuzzy
      rw [twinKind, alike.options, ← made]
      simp only [fieldTerm_congr termAlike, termAlike.text]
  · cases made

theorem boolean_transfers (alike : LooksLike context twinContext branch twin)
    (made : boolean branch context = .ok query) : boolean twin twinContext = .ok query := by
  unfold boolean at made ⊢
  rw [alike.options, ← alike.children.length_eq]
  by_cases many : context.options.maxClauses < branch.children.length
  · rw [if_pos many] at made
    cases made
  · rw [if_neg many] at made ⊢
    obtain ⟨clauses, done, same⟩ := bind_eq_ok.mp made
    refine bind_eq_ok.mpr ⟨clauses, mapM_transfers (alike.children.imp ?_) done, same⟩
    rintro child twinChild ⟨childAlike, carried⟩ clause clauseMade
    obtain ⟨found, artifact, clauseSame⟩ := bind_eq_ok.mp clauseMade
    rw [occurrenceOf_congr alike.kind childAlike]
    exact bind_eq_ok.mpr ⟨found, carried found artifact, clauseSame⟩

theorem childArtifact_transfers (alike : LooksLike context twinContext branch twin)
    (made : context.childArtifact branch = .ok query) :
    twinContext.childArtifact twin = .ok query := by
  have children := alike.children
  unfold BuildContext.childArtifact at made ⊢
  cases listed : branch.children with
  | nil =>
      rw [listed] at made
      cases made
  | cons child others =>
      rw [listed] at made children
      obtain ⟨twinChild, twinOthers, ⟨_, carried⟩, _, twinListed⟩ :=
        List.forall₂_cons_left_iff.mp children
      rw [twinListed]
      exact carried query made

theorem boost_transfers (alike : LooksLike context twinContext branch twin)
    (made : boost branch context = .ok query) : boost twin twinContext = .ok query := by
  have kindAlike := alike.kind
  unfold boost at made ⊢
  split at made
  · next kind =>
      rw [kind] at kindAlike
      rw [kindAlike.eq_wrapper]
      obtain ⟨inner, found, same⟩ := bind_eq_ok.mp made
      exact bind_eq_ok.mpr ⟨inner, childArtifact_transfers alike found, same⟩
  · cases made

theorem slop_transfers (alike : LooksLike context twinContext branch twin)
    (made : slop branch context = .ok query) : slop twin twinContext = .ok query := by
  have kindAlike := alike.kind
  unfold slop at made ⊢
  split at made
  · next kind =>
      rw [kind] at kindAlike
      rw [kindAlike.eq_wrapper]
      obtain ⟨inner, found, same⟩ := bind_eq_ok.mp made
      exact bind_eq_ok.mpr ⟨inner, childArtifact_transfers alike found, same⟩
  · cases made

theorem positionOf_transfers {phrase twinPhrase child twinChild : Branch} {defaultField : String}
    (alike : child.kind.IsAlike defaultField twinChild.kind) {position : UInt32}
    (found : positionOf phrase child = .ok position) :
    positionOf twinPhrase twinChild = .ok position := by
  unfold positionOf Branch.term? at found ⊢
  cases termed : child.kind.term? with
  | none =>
      rw [termed] at found
      cases found
  | some term =>
      obtain ⟨twinTerm, twinTermed, termAlike⟩ := alike.exists_term termed
      rw [termed] at found
      simpa only [twinTermed, termAlike.position] using found

theorem termOf_transfers {phrase twinPhrase : Branch} {part : Query} {term : FieldTerm}
    (found : termOf phrase part = .ok term) : termOf twinPhrase part = .ok term := by
  cases part with
  | term own => exact found
  | boolean _ | phrase _ _ | multiPhrase _ _ | fuzzy _ _ _ | near _ _ _ | boost _ _ | matchAll
    | matchNone => cases found

theorem phraseTerms_transfers {phrase twinPhrase : Branch} {children twinChildren : List Branch}
    {defaultField : String} (each : List.Forall₂ (fun child twinChild =>
      child.kind.IsAlike defaultField twinChild.kind ∧
        ∀ query, context.artifact child = .ok query → twinContext.artifact twinChild = .ok query)
          children twinChildren)
    {last : Option UInt32} {terms : List (FieldTerm × UInt32)}
    (made : phraseTerms context phrase last children = .ok terms) :
    phraseTerms twinContext twinPhrase last twinChildren = .ok terms := by
  induction each generalizing last terms with
  | nil => exact made
  | @cons child twinChild others twinOthers pair _ inductionHypothesis =>
      rw [phraseTerms] at made ⊢
      obtain ⟨position, positioned, afterPosition⟩ := bind_eq_ok.mp made
      refine bind_eq_ok.mpr ⟨position, positionOf_transfers pair.1 positioned, ?_⟩
      have rest (made : (do
            let term ← termOf phrase (← context.artifact child)
            return (term, position) :: (← phraseTerms context phrase (some position) others)) =
          .ok terms) : (do
            let term ← termOf twinPhrase (← twinContext.artifact twinChild)
            return (term, position)
              :: (← phraseTerms twinContext twinPhrase (some position) twinOthers)) =
          .ok terms := by
        obtain ⟨artifact, found, afterArtifact⟩ := bind_eq_ok.mp made
        obtain ⟨term, termed, afterTerm⟩ := bind_eq_ok.mp afterArtifact
        obtain ⟨later, laterMade, same⟩ := bind_eq_ok.mp afterTerm
        refine bind_eq_ok.mpr ⟨artifact, pair.2 artifact found, ?_⟩
        refine bind_eq_ok.mpr ⟨term, termOf_transfers termed, ?_⟩
        exact bind_eq_ok.mpr ⟨later, inductionHypothesis laterMade, same⟩
      cases last with
      | none => exact rest afterPosition
      | some before =>
          change (if position < before then _ else _) = _ at afterPosition
          show (if position < before then _ else _) = _
          by_cases down : position < before
          · rw [if_pos down] at afterPosition
            cases afterPosition
          · rw [if_neg down] at afterPosition ⊢
            exact rest afterPosition

theorem tokenizedPhrase_transfers (alike : LooksLike context twinContext branch twin)
    (made : tokenizedPhrase branch context = .ok query) :
    tokenizedPhrase twin twinContext = .ok query := by
  unfold tokenizedPhrase at made ⊢
  obtain ⟨terms, found, same⟩ := bind_eq_ok.mp made
  exact bind_eq_ok.mpr ⟨terms, phraseTerms_transfers alike.children found, same⟩

theorem multiPhrase_transfers (alike : LooksLike context twinContext branch twin)
    (made : multiPhrase branch context = .ok query) :
    multiPhrase twin twinContext = .ok query := by
  unfold multiPhrase at made ⊢
  obtain ⟨terms, found, same⟩ := bind_eq_ok.mp made
  refine bind_eq_ok.mpr ⟨terms, mapM_transfers (alike.children.imp ?_) found, same⟩
  rintro child twinChild ⟨childAlike, carried⟩ part partMade
  obtain ⟨position, positioned, afterPosition⟩ := bind_eq_ok.mp partMade
  obtain ⟨artifact, artifactFound, afterArtifact⟩ := bind_eq_ok.mp afterPosition
  obtain ⟨term, termed, partSame⟩ := bind_eq_ok.mp afterArtifact
  refine bind_eq_ok.mpr ⟨position, positionOf_transfers childAlike positioned, ?_⟩
  refine bind_eq_ok.mpr ⟨artifact, carried artifact artifactFound, ?_⟩
  exact bind_eq_ok.mpr ⟨term, termOf_transfers termed, partSame⟩

theorem proximity_transfers (alike : LooksLike context twinContext branch twin)
    (made : proximity branch context = .ok query) : proximity twin twinContext = .ok query := by
  have kindAlike := alike.kind
  unfold proximity BuildContext.childArtifacts at made ⊢
  split at made
  · next kind =>
      rw [kind] at kindAlike
      obtain ⟨twinNear, twinKind, reach, order⟩ := kindAlike.exists_proximity
      rw [twinKind]
      simp only [reach, order]
      obtain ⟨queries, found, same⟩ := bind_eq_ok.mp made
      exact bind_eq_ok.mpr
        ⟨queries, mapM_transfers (alike.children.imp fun _ _ pair => pair.2) found, same⟩
  · cases made

theorem entries_registry : registry.variants.entries = builders :=
  rfl

theorem builder?_congr {defaultField : String} {kind twinKind : Kind}
    (alike : kind.IsAlike defaultField twinKind) :
    registry.builder? kind = registry.builder? twinKind := by
  rw [builder?_eq, builder?_eq, ← Kind.variant_reworded (.spoken defaultField) kind,
    ← Kind.fallbacks_reworded (.spoken defaultField) kind, alike, Kind.variant_reworded,
    Kind.fallbacks_reworded]

theorem exists_mem_builders {kind : Kind} {builder : QueryBuilder}
    (found : registry.builder? kind = some builder) :
    ∃ variant, (variant, builder) ∈ builders := by
  rw [builder?_eq] at found
  obtain ⟨variant, _, registered⟩ := List.exists_of_findSome?_eq_some found
  rw [Table.get?, entries_registry] at registered
  obtain ⟨before, after, listed, _⟩ := List.lookup_eq_some_iff.mp registered
  exact ⟨variant, by rw [listed]; simp⟩

/-- No registered builder tells apart what looks alike, whatever kind of node it
is used for. -/
theorem builder_transfers {kind : Kind} {builder : QueryBuilder}
    (found : registry.builder? kind = some builder)
    (alike : LooksLike context twinContext branch twin)
    (made : builder branch context = .ok query) : builder twin twinContext = .ok query := by
  obtain ⟨variant, registered⟩ := exists_mem_builders found
  simp only [builders, List.mem_cons, Prod.mk.injEq, List.not_mem_nil, or_false] at registered
  rcases registered with ⟨_, rfl⟩ | ⟨_, rfl⟩ | ⟨_, rfl⟩ | ⟨_, rfl⟩ | ⟨_, rfl⟩ | ⟨_, rfl⟩ |
    ⟨_, rfl⟩ | ⟨_, rfl⟩ | ⟨_, rfl⟩ | ⟨_, rfl⟩ | ⟨_, rfl⟩ | ⟨_, rfl⟩
  · exact field_transfers alike made
  · exact fuzzy_transfers alike made
  · exact made
  · exact made
  · exact boolean_transfers alike made
  · exact childArtifact_transfers alike made
  · exact childArtifact_transfers alike made
  · exact boost_transfers alike made
  · exact slop_transfers alike made
  · exact tokenizedPhrase_transfers alike made
  · exact multiPhrase_transfers alike made
  · exact proximity_transfers alike made

end Builders

end Standard

/-- Two branches have related names and kinds that are alike, and so have their
children, one by one. -/
structure Branch.IsTwin (defaultField : String) (related : NodeId → NodeId → Prop)
    (branch twin : Branch) : Prop where
  id : related branch.id twin.id
  kind : branch.kind.IsAlike defaultField twin.kind
  children : List.Forall₂ (fun child twinChild =>
    child.kind.IsAlike defaultField twinChild.kind ∧ related child.id twinChild.id)
      branch.children twin.children

theorem Branch.IsTwin.symm {defaultField : String} {related : NodeId → NodeId → Prop}
    {branch twin : Branch} (isTwin : branch.IsTwin defaultField related twin) :
    twin.IsTwin defaultField (flip related) branch where
  id := isTwin.id
  kind := isTwin.kind.symm
  children := isTwin.children.flip.imp fun _ _ pair => ⟨pair.1.symm, pair.2⟩

namespace Standard

variable {options : CompileOptions} {forest twinForest : Forest}
  {related : NodeId → NodeId → Prop} {branch twin : Branch}

theorem artifact_transfers {artifacts twinArtifacts : Annotations Table Query}
    (agrees : ArtifactsAgree related artifacts twinArtifacts) (pair : related branch.id twin.id)
    {query : Query}
    (found : BuildContext.artifact ⟨forest, artifacts, options⟩ branch = .ok query) :
    BuildContext.artifact ⟨twinForest, twinArtifacts, options⟩ twin = .ok query := by
  unfold BuildContext.artifact at found ⊢
  rw [← agrees _ _ pair]
  cases held : artifacts.get? branch.id builderLabel with
  | none =>
      simp only [held] at found
      cases found
  | some artifact => simpa only [held] using found

theorem transfers_of_isTwin (isTwin : branch.IsTwin options.defaultField related twin) :
    (compiler options).Transfers forest twinForest related branch twin := by
  rintro artifacts twinArtifacts agrees query ⟨builder, found, made⟩
  refine ⟨builder, builder?_congr isTwin.kind ▸ found, builder_transfers found ?_ made⟩
  refine ⟨rfl, isTwin.kind, isTwin.children.imp fun child twinChild pair => ⟨pair.1, ?_⟩⟩
  exact fun _ childFound => artifact_transfers agrees pair.2 childFound

theorem compileNode_of_isTwin (unique : Relator.BiUnique related)
    (read : forest.branch branch.id = .ok branch) (twinRead : twinForest.branch twin.id = .ok twin)
    (each : List.Forall₂ (Branch.IsTwin options.defaultField related) branch.postOrder
      twin.postOrder) (isTwin : branch.IsTwin options.defaultField related twin) {query : Query}
    (compiled : (compiler options).compileNode forest branch.id = .ok query) :
    (compiler options).compileNode twinForest twin.id = .ok query :=
  Compiler.compileNode_transfers unique read twinRead isTwin.id
    (each.imp fun _ _ pair => ⟨pair.id, transfers_of_isTwin pair⟩) compiled

/-- Branches that are twins all the way down compile to the same queries. -/
theorem compileNode_iff_of_isTwin (unique : Relator.BiUnique related)
    (read : forest.branch branch.id = .ok branch) (twinRead : twinForest.branch twin.id = .ok twin)
    (each : List.Forall₂ (Branch.IsTwin options.defaultField related) branch.postOrder
      twin.postOrder) (isTwin : branch.IsTwin options.defaultField related twin) (query : Query) :
    (compiler options).compileNode forest branch.id = .ok query ↔
      (compiler options).compileNode twinForest twin.id = .ok query :=
  have flipped : Relator.BiUnique (flip related) :=
    ⟨fun _ _ _ first second => unique.2 first second, unique.1.flip⟩
  ⟨compileNode_of_isTwin unique read twinRead each isTwin,
    compileNode_of_isTwin flipped twinRead read
      (each.flip.imp fun _ _ pair => pair.symm) isTwin.symm⟩

end Standard

end QueryForest
