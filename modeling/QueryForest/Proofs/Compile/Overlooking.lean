import QueryForest.Proofs.Compile.Transfer

/-!
# What builders overlook

The standard builders do not tell whether a field that goes without saying is written
down, apart from the text of a query that some errors quote.  Two runs with builders
like these go alike over branches that differ in such fields only, also where they fail.
-/

namespace QueryForest

/-- An error without the text of a query that it quotes. -/
def CompileError.unquoted : CompileError → CompileError
  | .noBuilder variant _ => .noBuilder variant ""
  | .build variant ⟨.tooManyClauses, arguments⟩ =>
      .build variant ⟨.tooManyClauses, arguments.take 1⟩
  | error => error

namespace Build

variable {First Second : Type}

def unquoted : Build First → Build First
  | .ok result => .ok result
  | .error (.breach breach) => .error (.breach breach)
  | .error (.error error) => .error (.error error.unquoted)

theorem unquoted_bind {build twin : Build First} {next twinNext : First → Build Second}
    (same : build.unquoted = twin.unquoted)
    (each : ∀ result, (next result).unquoted = (twinNext result).unquoted) :
    (build >>= next).unquoted = (twin >>= twinNext).unquoted := by
  rcases build with (breach | error) | result <;> rcases twin with (breach | error) | result <;>
    simp_all [unquoted, bind, Except.bind]

theorem eq_ok_of_unquoted_eq {build twin : Build First} (same : build.unquoted = twin.unquoted)
    {result : First} (made : build = .ok result) : twin = .ok result := by
  rcases twin with (breach | error) | twinResult <;> simp_all [unquoted]

end Build

namespace Branch

/-- A branch without the fields that go without saying. -/
def spoken (defaultField : String) (branch : Branch) : Branch :=
  branch.reworded (.spoken defaultField) fun name => name

variable (defaultField : String) (branch : Branch)

@[simp]
theorem id_spoken : (branch.spoken defaultField).id = branch.id := by
  simp [spoken]

@[simp]
theorem kind_spoken :
    (branch.spoken defaultField).kind = branch.kind.reworded (.spoken defaultField) := by
  simp [spoken]

@[simp]
theorem children_spoken :
    (branch.spoken defaultField).children = branch.children.map (spoken defaultField) := by
  rw [spoken, children_reworded]
  rfl

@[simp]
theorem variant_spoken : (branch.spoken defaultField).variant = branch.variant := by
  simp [variant]

@[simp]
theorem term?_spoken : (branch.spoken defaultField).term? =
    branch.term?.map (Rewording.spoken defaultField).term := by
  simp [term?]

end Branch

namespace Standard

/-! ## Standard builders -/

/-- A builder makes the same of a branch whether the fields that go without saying are
written down or not, in whatever forest. -/
def Overlooks (builder : QueryBuilder) (branch : Branch) : Prop :=
  ∀ (forest : Forest) (context : BuildContext Query),
    (builder (branch.spoken context.options.defaultField) { context with forest }).unquoted =
      (builder branch context).unquoted

section Builders

variable (branch : Branch) (forest : Forest) (context : BuildContext Query)

@[simp]
theorem artifact_spoken (defaultField : String) :
    BuildContext.artifact { context with forest } (branch.spoken defaultField) =
      context.artifact branch := by
  simp [BuildContext.artifact, CompileError.missingArtifact]

theorem field_spoken :
    field (branch.spoken context.options.defaultField) { context with forest } =
      field branch context := by
  unfold field
  rw [Branch.term?_spoken]
  cases branch.term? with
  | none => simp [CompileError.unexpectedNode]
  | some term => simp [fieldTerm_spoken]

theorem fuzzy_spoken :
    fuzzy (branch.spoken context.options.defaultField) { context with forest } =
      fuzzy branch context := by
  unfold fuzzy
  rw [Branch.kind_spoken]
  cases branch.kind with
  | leaf bottom =>
      cases bottom <;>
        simp [Kind.reworded, Leaf.mapTerm, fieldTerm_spoken, CompileError.unexpectedNode]
  | wrapper _ | composite _ | extension _ => simp [Kind.reworded, CompileError.unexpectedNode]

theorem childArtifact_spoken (defaultField : String) :
    BuildContext.childArtifact { context with forest } (branch.spoken defaultField) =
      context.childArtifact branch := by
  unfold BuildContext.childArtifact
  rw [Branch.children_spoken]
  cases branch.children with
  | nil => simp [CompileError.missingChild]
  | cons child others => simp

theorem childArtifacts_spoken (defaultField : String) :
    BuildContext.childArtifacts { context with forest } (branch.spoken defaultField) =
      context.childArtifacts branch := by
  unfold BuildContext.childArtifacts
  rw [Branch.children_spoken, List.mapM_map]
  congr 1
  funext child
  simp

theorem boost_spoken (defaultField : String) :
    boost (branch.spoken defaultField) { context with forest } = boost branch context := by
  unfold boost
  rw [Branch.kind_spoken, childArtifact_spoken]
  cases branch.kind with
  | wrapper around => cases around <;> simp [Kind.reworded, CompileError.unexpectedNode]
  | leaf _ | composite _ | extension _ => simp [Kind.reworded, CompileError.unexpectedNode]

theorem slop_spoken (defaultField : String) :
    slop (branch.spoken defaultField) { context with forest } = slop branch context := by
  unfold slop
  rw [Branch.kind_spoken, childArtifact_spoken]
  cases branch.kind with
  | wrapper around => cases around <;> simp [Kind.reworded, CompileError.unexpectedNode]
  | leaf _ | composite _ | extension _ => simp [Kind.reworded, CompileError.unexpectedNode]

@[simp]
theorem positionOf_spoken (phrase child : Branch) (defaultField : String) :
    positionOf (phrase.spoken defaultField) (child.spoken defaultField) =
      positionOf phrase child := by
  unfold positionOf
  rw [Branch.term?_spoken]
  cases child.term? with
  | none => simp [CompileError.unexpectedNode]
  | some term => simp

@[simp]
theorem termOf_spoken (phrase : Branch) (defaultField : String) :
    termOf (phrase.spoken defaultField) = termOf phrase := by
  funext query
  cases query <;> simp [termOf]

theorem phraseTerms_spoken (phrase : Branch) (defaultField : String) (last : Option UInt32)
    (children : List Branch) :
    phraseTerms { context with forest } (phrase.spoken defaultField) last
        (children.map (Branch.spoken defaultField)) =
      phraseTerms context phrase last children := by
  induction children generalizing last with
  | nil => rfl
  | cons child others inductionHypothesis =>
      rw [List.map_cons, phraseTerms, phraseTerms]
      simp only [positionOf_spoken, artifact_spoken, termOf_spoken, inductionHypothesis,
        CompileError.positionsOutOfOrder, Branch.variant_spoken]

theorem tokenizedPhrase_spoken (defaultField : String) :
    tokenizedPhrase (branch.spoken defaultField) { context with forest } =
      tokenizedPhrase branch context := by
  unfold tokenizedPhrase
  rw [Branch.children_spoken, phraseTerms_spoken]

theorem multiPhrase_spoken (defaultField : String) :
    multiPhrase (branch.spoken defaultField) { context with forest } =
      multiPhrase branch context := by
  unfold multiPhrase
  rw [Branch.children_spoken, List.mapM_map]
  simp only [Function.comp_def, positionOf_spoken, artifact_spoken, termOf_spoken]

theorem proximity_spoken (defaultField : String) :
    proximity (branch.spoken defaultField) { context with forest } = proximity branch context := by
  unfold proximity
  rw [Branch.kind_spoken, childArtifacts_spoken]
  cases branch.kind with
  | composite above =>
      cases above <;> simp [Kind.reworded, Composite.reworded, CompileError.unexpectedNode]
  | leaf _ | wrapper _ | extension _ => simp [Kind.reworded, CompileError.unexpectedNode]

theorem boolean_overlooks : Overlooks boolean branch := by
  intro forest context
  unfold boolean
  rw [Branch.children_spoken, List.length_map, List.mapM_map]
  simp only [Function.comp_def, Branch.kind_spoken, occurrenceOf_reworded, artifact_spoken]
  split
  · simp [Build.fail, Build.unquoted, CompileError.tooManyClauses, CompileError.unquoted]
  · rfl

/-- No standard builder tells whether a field that goes without saying is written down. -/
theorem overlooks_of_mem {variant : Variant} {builder : QueryBuilder}
    (member : (variant, builder) ∈ builders) : Overlooks builder branch := by
  have of_eq {builder : QueryBuilder} (same : ∀ forest context,
      builder (branch.spoken context.options.defaultField) { context with forest } =
        builder branch context) : Overlooks builder branch :=
    fun forest context => congrArg Build.unquoted (same forest context)
  simp only [builders, List.mem_cons, Prod.mk.injEq, List.not_mem_nil, or_false] at member
  rcases member with ⟨_, rfl⟩ | ⟨_, rfl⟩ | ⟨_, rfl⟩ | ⟨_, rfl⟩ | ⟨_, rfl⟩ | ⟨_, rfl⟩ |
    ⟨_, rfl⟩ | ⟨_, rfl⟩ | ⟨_, rfl⟩ | ⟨_, rfl⟩ | ⟨_, rfl⟩ | ⟨_, rfl⟩
  · exact of_eq (field_spoken branch)
  · exact of_eq (fuzzy_spoken branch)
  · exact of_eq fun _ _ => rfl
  · exact of_eq fun _ _ => rfl
  · exact boolean_overlooks branch
  · exact of_eq fun forest context => childArtifact_spoken branch forest context _
  · exact of_eq fun forest context => childArtifact_spoken branch forest context _
  · exact of_eq fun forest context => boost_spoken branch forest context _
  · exact of_eq fun forest context => slop_spoken branch forest context _
  · exact of_eq fun forest context => tokenizedPhrase_spoken branch forest context _
  · exact of_eq fun forest context => multiPhrase_spoken branch forest context _
  · exact of_eq fun forest context => proximity_spoken branch forest context _

end Builders

end Standard

/-! ## Runs -/

theorem Forest.map_branch_eq {defaultField : String} {first second : Forest}
    (same : first.reworded (.spoken defaultField) = second.reworded (.spoken defaultField))
    (id : NodeId) :
    (first.branch id).map (Branch.spoken defaultField) =
      (second.branch id).map (Branch.spoken defaultField) := by
  unfold Branch.spoken
  rw [← branch_reworded, same, branch_reworded]

namespace Compiler

open Standard (Overlooks)

variable {compiler : Compiler Query} {forest twinForest : Forest}

/-- Two branches are the same but for fields that go without saying, and get the same
builder. -/
structure AreBuiltAlike (compiler : Compiler Query) (branch twin : Branch) : Prop where
  spoken : branch.spoken compiler.options.defaultField = twin.spoken compiler.options.defaultField
  builder : compiler.registry.builder? branch.kind = compiler.registry.builder? twin.kind

def IsOverlooking (compiler : Compiler Query) : Prop :=
  ∀ (branch : Branch) (builder : Standard.QueryBuilder),
    compiler.registry.builder? branch.kind = some builder → Overlooks builder branch

theorem unquoted_buildNode (overlooking : compiler.IsOverlooking) {branch twin : Branch}
    (alike : compiler.AreBuiltAlike branch twin) (artifacts : Annotations Table Query) :
    (compiler.buildNode forest artifacts branch).unquoted =
      (compiler.buildNode twinForest artifacts twin).unquoted := by
  have variant : branch.variant = twin.variant := by
    simpa using congrArg Branch.variant alike.spoken
  have id : branch.id = twin.id := by
    simpa using congrArg Branch.id alike.spoken
  unfold buildNode
  rw [← alike.builder]
  cases found : compiler.registry.builder? branch.kind with
  | none =>
      simp [Build.fail, Build.unquoted, CompileError.unregistered, CompileError.unquoted, variant]
  | some builder =>
      have first := overlooking branch builder found forest ⟨forest, artifacts, compiler.options⟩
      have second := overlooking twin builder (alike.builder ▸ found) forest
        ⟨twinForest, artifacts, compiler.options⟩
      rw [alike.spoken] at first
      refine Build.unquoted_bind (first.symm.trans second) fun artifact => ?_
      rw [id]

theorem unquoted_foldlM_buildNode (overlooking : compiler.IsOverlooking)
    {branches twins : List Branch} (each : List.Forall₂ compiler.AreBuiltAlike branches twins)
    (artifacts : Annotations Table Query) :
    (branches.foldlM (compiler.buildNode forest) artifacts).unquoted =
      (twins.foldlM (compiler.buildNode twinForest) artifacts).unquoted := by
  induction each generalizing artifacts with
  | nil => rfl
  | cons alike _ inductionHypothesis =>
      rw [List.foldlM_cons, List.foldlM_cons]
      exact Build.unquoted_bind (unquoted_buildNode overlooking alike artifacts)
        inductionHypothesis

/-- What a node is compiled to is what the last step of a run leaves for it. -/
theorem compileNode_of_branch {id : NodeId} {branch : Branch}
    (read : forest.branch id = .ok branch) :
    compiler.compileNode forest id =
      branch.postOrder.foldlM (compiler.buildNode forest) .empty >>= fun artifacts =>
        match artifacts.get? id builderLabel with
        | some artifact => .ok artifact
        | none => .fail (.missingArtifact branch) := by
  rw [compileNode, artifacts, read]
  change (branch.postOrder.foldlM (compiler.buildNode forest) .empty >>= _) = _
  cases branch.postOrder.foldlM (compiler.buildNode forest) .empty with
  | error error => rfl
  | ok artifacts =>
      simp only [bind, Except.bind, Annotations.remove_fst]
      cases artifacts.get? id builderLabel <;> rfl

/-- Nodes that are read alike are built alike if those of one name get one builder. -/
theorem forall₂_areBuiltAlike {id : NodeId} {branch twin : Branch}
    (read : forest.branch id = .ok branch) (twinRead : twinForest.branch id = .ok twin)
    (spoken : branch.spoken compiler.options.defaultField =
      twin.spoken compiler.options.defaultField)
    (builders : ∀ id, (forest.kindOf id).map compiler.registry.builder? =
      (twinForest.kindOf id).map compiler.registry.builder?) :
    List.Forall₂ compiler.AreBuiltAlike branch.postOrder twin.postOrder := by
  have mirrors := (Forest.mirrors_of_branchWithin read).2
  have twinMirrors := (Forest.mirrors_of_branchWithin twinRead).2
  have order := congrArg Branch.postOrder spoken
  simp only [Branch.spoken, Branch.postOrder_reworded] at order
  rw [← List.forall₂_eq_eq_eq, List.forall₂_map_left_iff, List.forall₂_map_right_iff] at order
  refine (forall₂_members order).imp ?_
  rintro part twinPart ⟨within, twinWithin, same⟩
  have name : part.id = twinPart.id := by simpa using congrArg Branch.id same
  have known := builders part.id
  rw [(mirrors.within part within).kindOf_id, name,
    (twinMirrors.within twinPart twinWithin).kindOf_id] at known
  exact ⟨same, Option.some.inj known⟩

/-- In forests that are the same but for fields that go without saying every node is
compiled to the same result, if nodes of one name get one builder. -/
theorem unquoted_compileNode (overlooking : compiler.IsOverlooking)
    (same : forest.reworded (.spoken compiler.options.defaultField) =
      twinForest.reworded (.spoken compiler.options.defaultField))
    (builders : ∀ id, (forest.kindOf id).map compiler.registry.builder? =
      (twinForest.kindOf id).map compiler.registry.builder?) (id : NodeId) :
    (compiler.compileNode forest id).unquoted = (compiler.compileNode twinForest id).unquoted := by
  have branches := Forest.map_branch_eq same id
  cases read : forest.branch id with
  | error breach =>
      cases twinRead : twinForest.branch id with
      | error twinBreach =>
          rw [read, twinRead] at branches
          cases branches
          rw [compileNode, compileNode, read, twinRead]
          rfl
      | ok twin =>
          rw [read, twinRead] at branches
          cases branches
  | ok branch =>
      cases twinRead : twinForest.branch id with
      | error twinBreach =>
          rw [read, twinRead] at branches
          cases branches
      | ok twin =>
          rw [read, twinRead] at branches
          have spoken := Except.ok.inj branches
          rw [compileNode_of_branch read, compileNode_of_branch twinRead]
          refine Build.unquoted_bind (unquoted_foldlM_buildNode overlooking
            (forall₂_areBuiltAlike read twinRead spoken builders) .empty) fun artifacts => ?_
          have variant : branch.variant = twin.variant := by
            simpa using congrArg Branch.variant spoken
          have name : branch.id = twin.id := by simpa using congrArg Branch.id spoken
          rw [CompileError.missingArtifact, CompileError.missingArtifact, variant, name]

/-- So is the whole tree. -/
theorem unquoted_compile (overlooking : compiler.IsOverlooking)
    (same : forest.reworded (.spoken compiler.options.defaultField) =
      twinForest.reworded (.spoken compiler.options.defaultField))
    (builders : ∀ id, (forest.kindOf id).map compiler.registry.builder? =
      (twinForest.kindOf id).map compiler.registry.builder?) :
    (compiler.compile forest).unquoted = (compiler.compile twinForest).unquoted := by
  have roots : forest.root = twinForest.root := by
    simpa [Forest.reworded] using congrArg Forest.root same
  rw [compile, compile, roots]
  cases twinForest.root with
  | none => rfl
  | some root => exact unquoted_compileNode overlooking same builders root

end Compiler

theorem Standard.isOverlooking_compiler (options : CompileOptions) :
    (compiler options).IsOverlooking := by
  intro branch builder found
  obtain ⟨_, member⟩ := exists_mem_builders found
  exact overlooks_of_mem branch member

end QueryForest
