import QueryForest.Proofs.Compile.Dispatch
import QueryForest.Proofs.Compile.Overlooking
import QueryForest.Proofs.Forest.Operation

/-!
# The default field by name

Terms without a field and terms in the plain field mean the default field.  Builders of
terms see the field that is meant, but a builder is chosen by the field that a term
names.  So the default field may be written down or not where the builders of both
fields are the same, and makes a difference where they are not.
-/

namespace QueryForest

namespace Registry

variable {Artifact : Type}

def registerFields (registry : Registry Artifact) (entries : List (String × Builder Artifact)) :
    Registry Artifact :=
  entries.foldl (fun registry entry => registry.registerField entry.1 entry.2) registry

@[simp]
theorem variants_registerFields (registry : Registry Artifact)
    (entries : List (String × Builder Artifact)) :
    (registry.registerFields entries).variants = registry.variants := by
  induction entries using List.reverseRecOn with
  | nil => rfl
  | append_singleton earlier last inductionHypothesis =>
      rw [← inductionHypothesis, registerFields, List.foldl_append]
      rfl

/-- A builder of a field has been registered for it. -/
theorem mem_of_get?_registerFields {registry : Registry Artifact}
    {entries : List (String × Builder Artifact)} {field : String} {builder : Builder Artifact}
    (found : (registry.registerFields entries).fields.get? field = some builder) :
    registry.fields.get? field = some builder ∨ (field, builder) ∈ entries := by
  induction entries using List.reverseRecOn with
  | nil => exact .inl found
  | append_singleton earlier last inductionHypothesis =>
      rw [registerFields, List.foldl_append, List.foldl_cons, List.foldl_nil, registerField,
        Table.get?_insert] at found
      by_cases same : field = last.1
      · rw [if_pos same] at found
        cases Option.some.inj found
        exact .inr (by simp [same])
      · rw [if_neg same] at found
        rcases inductionHypothesis found with before | member
        · exact .inl before
        · exact .inr (List.mem_append_left _ member)

end Registry

namespace Standard

/-- A builder of terms reads nothing but the text of a term and the field that the term
means. -/
def IsTermBuilder (builder : QueryBuilder) : Prop :=
  ∃ build : String → String → Build Query, ∀ branch context term, branch.term? = some term →
    builder branch context = build term.text (context.options.resolve term.field)

theorem IsTermBuilder.overlooks {builder : QueryBuilder} (termBuilder : IsTermBuilder builder)
    {branch : Branch} {term : Term} (termed : branch.term? = some term) :
    Overlooks builder branch := by
  obtain ⟨build, reads⟩ := termBuilder
  intro forest context
  have spokenTermed : (branch.spoken context.options.defaultField).term? =
      some ((Rewording.spoken context.options.defaultField).term term) := by
    rw [Branch.term?_spoken, termed, Option.map_some]
  have meant := congrArg FieldTerm.field (fieldTerm_spoken context.options term)
  simp only [fieldTerm] at meant
  rw [reads _ _ _ spokenTermed, reads _ _ _ termed, meant, Rewording.text_spoken]

/-- With builders of terms for some fields, the standard compiler overlooks whether the
default field is written down. -/
theorem isOverlooking_registerFields (options : CompileOptions)
    {entries : List (String × QueryBuilder)}
    (termBuilders : ∀ entry ∈ entries, IsTermBuilder entry.2) :
    (⟨registry.registerFields entries, options⟩ : Compiler Query).IsOverlooking := by
  intro branch builder found
  rw [Registry.builder?_eq_or, Option.or_eq_some_iff] at found
  rcases found with ofField | ⟨_, ofVariant⟩
  · obtain ⟨field, named, registered⟩ := Option.bind_eq_some_iff.mp ofField
    obtain ⟨term, termed, _⟩ := Option.bind_eq_some_iff.mp named
    rcases Registry.mem_of_get?_registerFields registered with standard | member
    · cases standard
    · exact (termBuilders _ member).overlooks termed
  · rw [Registry.variants_registerFields, Kind.chain, ← builder?_eq] at ofVariant
    exact isOverlooking_compiler options branch builder ofVariant

end Standard

def Term.inField (field : String) (term : Term) : Term :=
  { term with field := some field }

namespace Kind

variable {kind : Kind} {term : Term} {field : String}

@[simp]
theorem chain_mapTerm (change : Term → Term) (kind : Kind) :
    (kind.mapTerm change).chain = kind.chain := by
  cases kind with
  | leaf bottom => simp [mapTerm, chain, variant, fallbacks]
  | wrapper _ | composite _ | extension _ => rfl

theorem termField?_inField (termed : kind.term? = some term) :
    (kind.mapTerm (Term.inField field)).termField? = some field := by
  cases kind with
  | leaf bottom =>
      rw [term?] at termed
      simp [mapTerm, termField?, term?, termed, Term.inField]
  | wrapper _ | composite _ | extension _ => cases termed

/-- The default field goes without saying, like no field and the plain one. -/
theorem isAlike_inField (termed : kind.term? = some term)
    (unnamed : term.field ∈ [none, some plainField]) :
    (kind.mapTerm (Term.inField field)).IsAlike field kind := by
  have silent : spokenField field term.field = none :=
    spokenField_eq_none_iff.mpr (List.mem_append_left [some field] unnamed)
  have default : spokenField field (some field) = none :=
    spokenField_eq_none_iff.mpr (by simp)
  cases kind with
  | leaf bottom =>
      cases bottom <;>
        simp_all [term?, Leaf.term?, mapTerm, Leaf.mapTerm, IsAlike, reworded, Rewording.term,
          Rewording.spoken, Term.inField]
  | wrapper _ | composite _ | extension _ => cases termed

end Kind

namespace Forest

variable {forest : Forest} {id : NodeId} {kind : Kind} {change : Kind → Kind}

/-- Whoever looks at kinds and does not notice that one has changed does not notice it
in the forest. -/
theorem map_kindOf_rekinded {Result : Type} {look : Kind → Result}
    (known : forest.kindOf id = some kind) (unnoticed : look (change kind) = look kind)
    (other : NodeId) :
    ((forest.rekinded id change).kindOf other).map look = (forest.kindOf other).map look := by
  rw [kindOf_rekinded, Option.map_map]
  cases foundThere : forest.kindOf other with
  | none => rfl
  | some found =>
      rw [Option.map_some, Option.map_some, Function.comp_apply]
      split
      · next same =>
          subst same
          cases known.symm.trans foundThere
          rw [unnoticed]
      · rfl

/-- A change of a kind that another wording hides is hidden in the forest. -/
theorem reworded_rekinded {rewording : Rewording} (known : forest.kindOf id = some kind)
    (hidden : (change kind).reworded rewording = kind.reworded rewording) :
    (forest.rekinded id change).reworded rewording = forest.reworded rewording := by
  refine ext_getElem? rfl fun other => ?_
  simp only [reworded, rekinded, Array.getElem?_map, getElem?_revise, Option.map_map]
  cases present : forest.nodes[other]? with
  | none => rfl
  | some node =>
      simp only [Option.map_some, Function.comp_apply, Node.reworded]
      split
      · next same =>
          subst same
          cases known.symm.trans (kindOf_of_getElem? present)
          rw [hidden]
      · rfl

end Forest

namespace Standard

section Naming

variable {options : CompileOptions} {entries : List (String × QueryBuilder)} {forest : Forest}
  {id : NodeId} {kind : Kind} {term : Term}

def compilerWith (entries : List (String × QueryBuilder)) (options : CompileOptions) :
    Compiler Query :=
  ⟨registry.registerFields entries, options⟩

/-- A forest in which the term of a node is in the default field. -/
def withDefaultField (options : CompileOptions) (forest : Forest) (id : NodeId) : Forest :=
  (Operation.modifyTerm id (Term.inField options.defaultField)).run forest

theorem withDefaultField_eq_rekinded (known : forest.kindOf id = some kind) :
    withDefaultField options forest id =
      forest.rekinded id (Kind.mapTerm (Term.inField options.defaultField)) := by
  obtain ⟨node, present, _⟩ := Option.map_eq_some_iff.mp known
  rw [withDefaultField, Operation.run, Forest.edit_modifyTerm_of_some present]

/-- Where the builders for two fields are the same, it does not matter which of them a
term names. -/
theorem builder?_inField {Artifact : Type} {registry : Registry Artifact} {field : String}
    (termed : kind.term? = some term)
    (same : registry.fields.get? field = term.field.bind registry.fields.get?) :
    registry.builder? (kind.mapTerm (Term.inField field)) = registry.builder? kind := by
  have named : kind.termField? = term.field := by
    rw [Kind.termField?, termed, Option.bind_some]
  rw [Registry.builder?_eq_or, Registry.builder?_eq_or, Kind.termField?_inField termed,
    Kind.chain_mapTerm, named, Option.bind_some, same]

/-- A term that has no field or the plain one may have the default field written down: its
node keeps its builder if the same builder is registered for both fields, and if it keeps
its builder, all results stay the same but for the query text that an error quotes. -/
theorem default_field_may_be_named (options : CompileOptions)
    {entries : List (String × QueryBuilder)}
    (termBuilders : ∀ entry ∈ entries, IsTermBuilder entry.2) {forest : Forest} {id : NodeId}
    {kind : Kind} {term : Term} (known : forest.kindOf id = some kind)
    (termed : kind.term? = some term) (unnamed : term.field ∈ [none, some plainField]) :
    let compiler := compilerWith entries options
    let named := kind.mapTerm (Term.inField options.defaultField)
    (withDefaultField options forest id).kindOf id = some named ∧
    (compiler.registry.fields.get? options.defaultField =
        term.field.bind compiler.registry.fields.get? →
      compiler.registry.builder? named = compiler.registry.builder? kind) ∧
    (compiler.registry.builder? named = compiler.registry.builder? kind →
      (∀ start, (compiler.compileNode (withDefaultField options forest id) start).unquoted =
        (compiler.compileNode forest start).unquoted) ∧
      (compiler.compile (withDefaultField options forest id)).unquoted =
        (compiler.compile forest).unquoted) := by
  intro compiler named
  rw [withDefaultField_eq_rekinded known]
  refine ⟨?_, builder?_inField termed, fun sameBuilder => ?_⟩
  · rw [Forest.kindOf_rekinded, known, Option.map_some, if_pos rfl]
  have overlooking := isOverlooking_registerFields options termBuilders
  have hidden : (forest.rekinded id (Kind.mapTerm (Term.inField options.defaultField))).reworded
      (.spoken options.defaultField) = forest.reworded (.spoken options.defaultField) :=
    Forest.reworded_rekinded known (Kind.isAlike_inField termed unnamed)
  have builders (other : NodeId) :
      ((forest.rekinded id (Kind.mapTerm (Term.inField options.defaultField))).kindOf other).map
          compiler.registry.builder? = (forest.kindOf other).map compiler.registry.builder? :=
    Forest.map_kindOf_rekinded known sameBuilder other
  exact ⟨Compiler.unquoted_compileNode overlooking hidden builders,
    Compiler.unquoted_compile overlooking hidden builders⟩

end Naming

theorem isTermBuilder_field : IsTermBuilder field := by
  refine ⟨fun text field => .ok (.term ⟨field, text⟩), fun branch context term termed => ?_⟩
  rw [field, termed]
  rfl

def twoEdits : Similarity :=
  ⟨⟨0x40000000⟩, rfl⟩

/-- A fuzzy word in a field and a word without one, of which both have to match. -/
def fuzzyAndWord (own : Option String) : Forest :=
  Operation.runAll .empty
    [.add (.leaf (.fuzzy { field := own, text := "roam" } twoEdits 0)),
      .add (.leaf (.field { text := "far" })),
      .addWithChildren (.composite (.junction .conjunction)) [0, 1], .setRoot 2]

def fuzzyAndWordTree (own : Option String) : Branch :=
  let both := Kind.composite (.junction .conjunction)
  .node 2 both none
    [.node 0 (.leaf (.fuzzy { field := own, text := "roam" } twoEdits 0)) (some both) [],
      .node 1 (.leaf (.field { text := "far" })) (some both) []]

/-- What this comes to if the fuzzy word has to match as it is. -/
def wordAndWord : Query :=
  .boolean [(.must, .term ⟨"title", "roam"⟩), (.must, .term ⟨"title", "far"⟩)]

def exactFields : List (String × QueryBuilder) :=
  [(plainField, field), ("title", field)]

theorem default_field_may_be_named_exactFields :
    (∀ entry ∈ exactFields, IsTermBuilder entry.2) ∧
      (compilerWith exactFields ⟨"title", 2⟩).registry.fields.get? "title" =
        (compilerWith exactFields ⟨"title", 2⟩).registry.fields.get? plainField ∧
      (compilerWith exactFields ⟨"title", 2⟩).compile (fuzzyAndWord plainField) =
        .ok wordAndWord ∧
      ((compilerWith exactFields ⟨"title", 2⟩).compile
        (withDefaultField ⟨"title", 2⟩ (fuzzyAndWord plainField) 0)).unquoted =
          .ok wordAndWord := by
  have termBuilders : ∀ entry ∈ exactFields, IsTermBuilder entry.2 := by
    simp [exactFields, isTermBuilder_field]
  have known : (fuzzyAndWord plainField).kindOf 0 =
      some (.leaf (.fuzzy { field := plainField, text := "roam" } twoEdits 0)) := rfl
  have same : (compilerWith exactFields ⟨"title", 2⟩).registry.fields.get? "title" =
      (compilerWith exactFields ⟨"title", 2⟩).registry.fields.get? plainField := rfl
  have compiled : (compilerWith exactFields ⟨"title", 2⟩).compile (fuzzyAndWord plainField) =
      .ok wordAndWord := rfl
  obtain ⟨_, keeps, results⟩ :=
    default_field_may_be_named ⟨"title", 2⟩ termBuilders known rfl (by simp)
  have unchanged := (results (keeps same)).2
  exact ⟨termBuilders, same, compiled, unchanged.trans (congrArg Build.unquoted compiled)⟩

/-- Where the default field has a builder of its own, it makes a difference whether a term
names it, and an error shows whether it does even where no field has a builder. -/
theorem default_field_is_noticed :
    (¬ ∀ (options : CompileOptions) (entries : List (String × QueryBuilder)),
      (∀ entry ∈ entries, IsTermBuilder entry.2) →
        ∀ (forest : Forest) (id : NodeId) (kind : Kind) (term : Term),
          forest.kindOf id = some kind → kind.term? = some term →
          term.field ∈ [none, some plainField] →
            (compilerWith entries options).registry.builder?
                (kind.mapTerm (Term.inField options.defaultField)) =
              (compilerWith entries options).registry.builder? kind ∧
            ((compilerWith entries options).compile (withDefaultField options forest id)).unquoted =
              ((compilerWith entries options).compile forest).unquoted) ∧
    (compiler ⟨"title", 1⟩).compile (fuzzyAndWord none) =
      .fail (.build .conjunction ⟨.tooManyClauses, ["1", "roam~2 AND far"]⟩) ∧
    (compiler ⟨"title", 1⟩).compile (withDefaultField ⟨"title", 1⟩ (fuzzyAndWord none) 0) =
      .fail (.build .conjunction ⟨.tooManyClauses, ["1", "title:roam~2 AND far"]⟩) := by
  -- The builder of words in the title also gets fuzzy ones, if they name the title.
  refine ⟨fun overlooked => ?_, ?_⟩
  · have termBuilders : ∀ entry ∈ [("title", field)], IsTermBuilder entry.2 := by
      simp [isTermBuilder_field]
    have compiled : (compilerWith [("title", field)] ⟨"title", 2⟩).compile (fuzzyAndWord none) =
        .ok (.boolean [(.must, .fuzzy ⟨"title", "roam"⟩ 2 0),
          (.must, .term ⟨"title", "far"⟩)]) := rfl
    have compiledNamed : (compilerWith [("title", field)] ⟨"title", 2⟩).compile
        (withDefaultField ⟨"title", 2⟩ (fuzzyAndWord none) 0) = .ok wordAndWord := rfl
    have same := (overlooked ⟨"title", 2⟩ [("title", field)] termBuilders (fuzzyAndWord none) 0
      _ _ rfl rfl List.mem_cons_self).2
    rw [compiled, compiledNamed] at same
    cases same
  · have quoted : CompileError.tooManyClauses 1 (fuzzyAndWordTree none) =
        .build .conjunction ⟨.tooManyClauses, ["1", "roam~2 AND far"]⟩ := by decide +kernel
    have quotedNamed : CompileError.tooManyClauses 1 (fuzzyAndWordTree "title") =
        .build .conjunction ⟨.tooManyClauses, ["1", "title:roam~2 AND far"]⟩ := by decide +kernel
    rw [← quoted, ← quotedNamed]
    exact ⟨rfl, rfl⟩

end Standard

end QueryForest
