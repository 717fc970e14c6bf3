import QueryForest.Proofs.Compile.BottomUp

/-!
# Runs that succeed

A run that succeeds has built every node below its own from the artifacts of the
children.  So what holds of an artifact whenever it holds of the artifacts that
it is made from holds of all that is built.  This asks nothing of the links to
parents: where lists hold a node twice, the node is built twice, each time from
the same artifacts of the same children.
-/

namespace QueryForest

namespace Compiler

variable {Artifact : Type} {compiler : Compiler Artifact} {forest : Forest}

/-- The builder of a node makes an artifact of it. -/
def Makes (compiler : Compiler Artifact) (forest : Forest) (artifacts : Annotations Table Artifact)
    (branch : Branch) (artifact : Artifact) : Prop :=
  ∃ builder, compiler.registry.builder? branch.kind = some builder ∧
    builder branch ⟨forest, artifacts, compiler.options⟩ = .ok artifact

theorem buildNode_eq_ok {artifacts built : Annotations Table Artifact} {branch : Branch} :
    compiler.buildNode forest artifacts branch = .ok built ↔
      ∃ artifact, compiler.Makes forest artifacts branch artifact ∧
        (artifacts.set branch.id builderLabel artifact).2 = built := by
  unfold buildNode Makes
  cases compiler.registry.builder? branch.kind with
  | none => simp [Build.fail]
  | some builder =>
      simp only [Option.some.injEq, exists_eq_left']
      rw [bind_eq_ok]
      simp only [pure, Except.pure, Except.ok.injEq]

theorem compileNode_eq_ok_iff {id : NodeId} {branch : Branch} {artifact : Artifact}
    (read : forest.branch id = .ok branch) :
    compiler.compileNode forest id = .ok artifact ↔
      ∃ artifacts, branch.postOrder.foldlM (compiler.buildNode forest) .empty = .ok artifacts ∧
        artifacts.get? id builderLabel = some artifact := by
  have made : compiler.artifacts forest id =
      branch.postOrder.foldlM (compiler.buildNode forest) .empty := by
    rw [artifacts, read]
    rfl
  constructor
  · intro compiled
    unfold compileNode at compiled
    rw [read, made] at compiled
    obtain ⟨_, same, afterRead⟩ := bind_eq_ok.mp compiled
    cases same
    obtain ⟨artifacts, done, found⟩ := bind_eq_ok.mp afterRead
    rw [Annotations.remove_fst] at found
    refine ⟨artifacts, done, ?_⟩
    cases held : artifacts.get? id builderLabel with
    | none =>
        simp only [held] at found
        cases found
    | some other =>
        simp only [held] at found
        cases found
        rfl
  · rintro ⟨artifacts, done, found⟩
    exact compileNode_eq_ok read (made.trans done) found

/-- What every step keeps of the artifacts holds of them in the end. -/
theorem keeps_foldlM (invariant : Annotations Table Artifact → Prop)
    (each : ∀ artifacts branch artifact, invariant artifacts →
      compiler.Makes forest artifacts branch artifact →
        invariant (artifacts.set branch.id builderLabel artifact).2)
    {branches : List Branch} {artifacts built : Annotations Table Artifact}
    (holds : invariant artifacts)
    (done : branches.foldlM (compiler.buildNode forest) artifacts = .ok built) :
    invariant built := by
  induction branches generalizing artifacts with
  | nil =>
      cases done
      exact holds
  | cons head tail inductionHypothesis =>
      rw [List.foldlM_cons] at done
      obtain ⟨next, stepDone, rest⟩ := bind_eq_ok.mp done
      obtain ⟨artifact, made, rfl⟩ := buildNode_eq_ok.mp stepDone
      exact inductionHypothesis (each artifacts head artifact holds made) rest

/-- Some branches have artifacts that something holds of. -/
def Covers (holds : Branch → Artifact → Prop) (artifacts : Annotations Table Artifact)
    (branches : List Branch) : Prop :=
  ∀ branch ∈ branches, ∃ artifact,
    artifacts.get? branch.id builderLabel = some artifact ∧ holds branch artifact

/-- What children are found to have, something holds of. -/
theorem Covers.forall₂ {Result : Type} {holds : Branch → Artifact → Prop}
    {artifacts : Annotations Table Artifact} {branches : List Branch}
    (covers : Covers holds artifacts branches) {made : Result → Artifact}
    {results : List Result}
    (found : List.Forall₂ (fun branch result =>
      artifacts.get? branch.id builderLabel = some (made result)) branches results) :
    List.Forall₂ (fun branch result => holds branch (made result)) branches results := by
  refine (forall₂_members found).imp ?_
  rintro branch result ⟨member, _, present⟩
  obtain ⟨artifact, also, held⟩ := covers branch member
  rw [present] at also
  cases also
  exact held

/-- A branch that is built over others leaves them covered.  If it has the name
of one of them, it is that one. -/
theorem Covers.set {holds : Branch → Artifact → Prop} {artifacts : Annotations Table Artifact}
    {before : List Branch} (covers : Covers holds artifacts before) {branch : Branch}
    (unique : ∀ other ∈ before, other.id = branch.id → other = branch)
    {artifact : Artifact} (held : holds branch artifact) :
    Covers holds (artifacts.set branch.id builderLabel artifact).2 (before ++ [branch]) := by
  intro other member
  by_cases same : other.id = branch.id
  · have isBranch : other = branch := by
      rcases List.mem_append.mp member with early | last
      · exact unique other early same
      · exact List.mem_singleton.mp last
    subst isBranch
    exact ⟨artifact, by rw [Annotations.get?_set, if_pos rfl], held⟩
  · rcases List.mem_append.mp member with early | last
    · obtain ⟨found, present, otherHeld⟩ := covers other early
      exact ⟨found, by rw [Annotations.get?_set, if_neg same, present], otherHeld⟩
    · exact absurd (congrArg Branch.id (List.mem_singleton.mp last)) same

/-- What holds of the artifacts of nodes whenever it holds of those of their
children holds along a run through a post-order. -/
theorem covers_foldlM {root : Branch} (mirrors : root.Mirrors forest)
    {holds : Branch → Artifact → Prop}
    (each : ∀ part ∈ root.postOrder, ∀ artifacts, Covers holds artifacts part.children →
      ∀ artifact, compiler.Makes forest artifacts part artifact → holds part artifact)
    {before after : List Branch} (placed : root.postOrder = before ++ after)
    {artifacts built : Annotations Table Artifact} (covers : Covers holds artifacts before)
    (done : after.foldlM (compiler.buildNode forest) artifacts = .ok built) :
    Covers holds built root.postOrder := by
  induction after generalizing before artifacts with
  | nil =>
      cases done
      rw [placed, List.append_nil]
      exact covers
  | cons part later inductionHypothesis =>
      rw [List.foldlM_cons] at done
      obtain ⟨next, stepDone, rest⟩ := bind_eq_ok.mp done
      obtain ⟨artifact, made, rfl⟩ := buildNode_eq_ok.mp stepDone
      have within : ∀ other ∈ before ++ [part], other ∈ root.postOrder := by
        intro other member
        rw [placed, List.append_cons]
        exact List.mem_append_left _ member
      have partWithin := within part (by simp)
      have held : holds part artifact := by
        refine each part partWithin artifacts (fun child member => ?_) artifact made
        exact covers child (root.mem_before_of_postOrder _ _ _ placed child member)
      refine inductionHypothesis (by rw [placed, List.append_cons])
        (covers.set (fun other member same => ?_) held) rest
      have otherWithin := within other (List.mem_append_left _ member)
      exact (mirrors.within other otherWithin).unique (mirrors.within part partWithin) same

/-- What holds of the artifacts of nodes whenever it holds of those of their
children holds of what a tree is compiled to. -/
theorem holds_of_compileNode {id : NodeId} {artifact : Artifact}
    (compiled : compiler.compileNode forest id = .ok artifact) {branch : Branch}
    (read : forest.branch id = .ok branch) {holds : Branch → Artifact → Prop}
    (each : ∀ part ∈ branch.postOrder, ∀ artifacts, Covers holds artifacts part.children →
      ∀ artifact, compiler.Makes forest artifacts part artifact → holds part artifact) :
    holds branch artifact := by
  obtain ⟨rfl, mirrors⟩ := Forest.mirrors_of_branchWithin read
  obtain ⟨artifacts, done, found⟩ := (compileNode_eq_ok_iff read).mp compiled
  have start : Covers holds (.empty : Annotations Table Artifact) [] :=
    fun _ member => absurd member List.not_mem_nil
  obtain ⟨held, heldFound, holdsThere⟩ :=
    covers_foldlM mirrors each (List.nil_append _).symm start done branch
      branch.self_mem_postOrder
  rw [found] at heldFound
  cases heldFound
  exact holdsThere

theorem exists_branch_of_compileNode {id : NodeId} {artifact : Artifact}
    (compiled : compiler.compileNode forest id = .ok artifact) :
    ∃ branch, forest.branch id = .ok branch := by
  cases read : forest.branch id with
  | ok branch => exact ⟨branch, rfl⟩
  | error breach =>
      rw [compileNode, read] at compiled
      cases compiled

end Compiler

end QueryForest
