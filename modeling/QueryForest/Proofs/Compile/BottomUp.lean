import Mathlib.Algebra.GroupWithZero.Nat
import QueryForest.Compile.Run
import QueryForest.Proofs.Forest.Operation
import QueryForest.Proofs.Forest.Traversal
import QueryForest.Proofs.Forest.Within
import QueryForest.Proofs.IndexMap.Annotations

/-!
# Builders are called from below

A run of a compiler is watched by noting the calls of builders, each with all
that the builder is given.  Watching changes no result.  The calls go through
the post-order from its front, up to the first node that has no builder or
whose builder fails, and each of them finds exactly the artifacts of the nodes
before its own.  In a sound forest those are all the nodes below it, none above
it and none from elsewhere.
-/

namespace QueryForest

structure BuildCall (Artifact : Type) where
  branch : Branch
  context : BuildContext Artifact

abbrev NotedBuild (Artifact Result : Type) :=
  ExceptT (Halt CompileError) (StateM (List (BuildCall Artifact))) Result

/-- What a branch has got, as an annotation of its node. -/
def artifactEntry {Artifact : Type} : Branch × Artifact → (NodeId × String) × Artifact :=
  fun (branch, artifact) => ((branch.id, builderLabel), artifact)

/-- The annotations when several branches have got their artifacts, in their order. -/
def artifactsOf {Artifact : Type} (done : List (Branch × Artifact)) :
    Annotations Table Artifact :=
  done.foldl
    (fun artifacts (branch, artifact) => (artifacts.set branch.id builderLabel artifact).2) .empty

theorem artifactsOf_concat {Artifact : Type} (done : List (Branch × Artifact))
    (branch : Branch) (artifact : Artifact) :
    artifactsOf (done ++ [(branch, artifact)]) =
      ((artifactsOf done).set branch.id builderLabel artifact).2 := by
  rw [artifactsOf, List.foldl_append]
  rfl

theorem keys_artifactEntry {Artifact : Type} (done : List (Branch × Artifact)) :
    (done.map artifactEntry).map Prod.fst =
      ((done.map Prod.fst).map Branch.id).map fun id => (id, builderLabel) := by
  simp only [List.map_map]
  rfl

/-- Branches with different names keep what they have got, and nothing else is kept. -/
theorem toList_artifactsOf {Artifact : Type} {done : List (Branch × Artifact)}
    (nodup : ((done.map Prod.fst).map Branch.id).Nodup) :
    (artifactsOf done).toList = done.map artifactEntry := by
  induction done using List.reverseRecOn with
  | nil => rfl
  | append_singleton earlier last inductionHypothesis =>
      obtain ⟨branch, artifact⟩ := last
      rw [List.map_append, List.map_append, List.nodup_append] at nodup
      obtain ⟨earlierNodup, _, apart⟩ := nodup
      have held := inductionHypothesis earlierNodup
      have new : (branch.id, builderLabel) ∉ (artifactsOf earlier).toList.map Prod.fst := by
        rw [held, keys_artifactEntry]
        intro known
        obtain ⟨id, member, same⟩ := List.mem_map.mp known
        exact apart id member branch.id List.mem_cons_self (congrArg Prod.fst same)
      rw [artifactsOf_concat, Annotations.toList_set_of_new new, held, List.map_append]
      rfl

theorem artifactsOf_get? {Artifact : Type} {done : List (Branch × Artifact)}
    (nodup : ((done.map Prod.fst).map Branch.id).Nodup) {branch : Branch}
    {artifact : Artifact} (member : (branch, artifact) ∈ done) :
    (artifactsOf done).get? branch.id builderLabel = some artifact := by
  rw [Annotations.get?_eq_some_iff, toList_artifactsOf nodup]
  exact List.mem_map_of_mem member

/-- Other branches have got nothing. -/
theorem artifactsOf_get?_eq_none {Artifact : Type} {done : List (Branch × Artifact)}
    {id : NodeId} (other : id ∉ (done.map Prod.fst).map Branch.id) :
    (artifactsOf done).get? id builderLabel = none := by
  induction done using List.reverseRecOn with
  | nil => rfl
  | append_singleton earlier last inductionHypothesis =>
      obtain ⟨branch, artifact⟩ := last
      rw [List.map_append, List.map_append, List.mem_append, not_or] at other
      have different : id ≠ branch.id := fun same => other.2 (same ▸ List.mem_cons_self)
      rw [artifactsOf_concat, Annotations.get?_set, if_neg different,
        inductionHypothesis other.1]

namespace Compiler

variable {Artifact : Type}

/-- What a builder is given when so many branches have been built. -/
def contextAfter (compiler : Compiler Artifact) (forest : Forest)
    (done : List (Branch × Artifact)) : BuildContext Artifact :=
  ⟨forest, artifactsOf done, compiler.options⟩

/-! ## Noting the calls -/

def notedNode (compiler : Compiler Artifact) (forest : Forest)
    (artifacts : Annotations Table Artifact) (branch : Branch) :
    NotedBuild Artifact (Annotations Table Artifact) :=
  match compiler.registry.builder? branch.kind with
  | none => throw (.error (.unregistered branch))
  | some builder => do
      let context : BuildContext Artifact := ⟨forest, artifacts, compiler.options⟩
      modify (· ++ [⟨branch, context⟩])
      let artifact ← MonadExcept.ofExcept (builder branch context)
      return (artifacts.set branch.id builderLabel artifact).2

def notedArtifacts (compiler : Compiler Artifact) (forest : Forest) (id : NodeId) :
    NotedBuild Artifact (Annotations Table Artifact) := do
  let branch ← MonadExcept.ofExcept ((forest.branch id).mapError .breach)
  branch.postOrder.foldlM (compiler.notedNode forest) .empty

/-- The result of a noted build and the calls, when some have been noted
before. -/
def observe {Result : Type} (build : NotedBuild Artifact Result)
    (calls : List (BuildCall Artifact)) : Build Result × List (BuildCall Artifact) :=
  Id.run (StateT.run (ExceptT.run build) calls)

/-- A noted step before others: they are done after a result and left out after
an error. -/
theorem observe_bind {First Second : Type} (build : NotedBuild Artifact First)
    (next : First → NotedBuild Artifact Second) (calls : List (BuildCall Artifact)) :
    observe (build >>= next) calls =
      match observe build calls with
      | (.ok first, noted) => observe (next first) noted
      | (.error halt, noted) => (.error halt, noted) := by
  unfold observe
  simp only [ExceptT.run_bind, StateT.run_bind, Id.run_bind]
  rcases Id.run (StateT.run (ExceptT.run build) calls) with ⟨_ | _, _⟩ <;> rfl

theorem observe_ofExcept {Result : Type} (build : Build Result)
    (calls : List (BuildCall Artifact)) :
    observe (MonadExcept.ofExcept build) calls = (build, calls) := by
  cases build <;> rfl

/-- A noted node is built as the same node is without notes. -/
theorem observe_notedNode (compiler : Compiler Artifact) (forest : Forest)
    (artifacts : Annotations Table Artifact) (branch : Branch)
    (calls : List (BuildCall Artifact)) :
    observe (compiler.notedNode forest artifacts branch) calls =
      (compiler.buildNode forest artifacts branch,
        match compiler.registry.builder? branch.kind with
        | none => calls
        | some _ => calls ++ [⟨branch, ⟨forest, artifacts, compiler.options⟩⟩]) := by
  unfold notedNode buildNode
  cases compiler.registry.builder? branch.kind with
  | none => rfl
  | some builder =>
      simp only [observe_bind, observe_ofExcept]
      cases builder branch ⟨forest, artifacts, compiler.options⟩ with
      | error halt => rfl
      | ok artifact => rfl

/-- Noting the calls does not change what is built. -/
theorem fst_observe_foldlM (compiler : Compiler Artifact) (forest : Forest)
    (branches : List Branch) (artifacts : Annotations Table Artifact)
    (calls : List (BuildCall Artifact)) :
    (observe (branches.foldlM (compiler.notedNode forest) artifacts) calls).1 =
      branches.foldlM (compiler.buildNode forest) artifacts := by
  induction branches generalizing artifacts calls with
  | nil => rfl
  | cons head tail inductionHypothesis =>
      rw [List.foldlM_cons, List.foldlM_cons, observe_bind, observe_notedNode]
      cases compiler.buildNode forest artifacts head with
      | error halt => rfl
      | ok built => exact inductionHypothesis built _

theorem fst_observe_notedArtifacts (compiler : Compiler Artifact) (forest : Forest)
    (id : NodeId) (calls : List (BuildCall Artifact)) :
    (observe (compiler.notedArtifacts forest id) calls).1 = compiler.artifacts forest id := by
  unfold notedArtifacts artifacts
  rw [observe_bind, observe_ofExcept]
  cases (forest.branch id).mapError Halt.breach with
  | error halt => rfl
  | ok branch => exact compiler.fst_observe_foldlM forest branch.postOrder .empty calls

/-! ## Runs -/

/-- Branches with what their builders made of them, one after the other, and
the calls of these builders. -/
inductive Built (compiler : Compiler Artifact) (forest : Forest) :
    List (Branch × Artifact) → List (BuildCall Artifact) → Prop where
  | nil : Built compiler forest [] []
  | concat {done : List (Branch × Artifact)} {calls : List (BuildCall Artifact)}
      {branch : Branch} {builder : Builder Artifact} {artifact : Artifact} :
      Built compiler forest done calls →
      compiler.registry.builder? branch.kind = some builder →
      builder branch (compiler.contextAfter forest done) = .ok artifact →
      Built compiler forest (done ++ [(branch, artifact)])
        (calls ++ [⟨branch, compiler.contextAfter forest done⟩])

/-- How a run over branches ends: all of them are built, or the first one with
no builder or with a failing builder gives its error, and none behind it is
built. -/
inductive Ends (compiler : Compiler Artifact) (forest : Forest) :
    List Branch → List (BuildCall Artifact) → Build (Annotations Table Artifact) → Prop where
  | built {done : List (Branch × Artifact)} {calls : List (BuildCall Artifact)} :
      Built compiler forest done calls →
      Ends compiler forest (done.map Prod.fst) calls (.ok (artifactsOf done))
  | unregistered {done : List (Branch × Artifact)} {calls : List (BuildCall Artifact)}
      {branch : Branch} {later : List Branch} :
      Built compiler forest done calls →
      compiler.registry.builder? branch.kind = none →
      Ends compiler forest (done.map Prod.fst ++ branch :: later) calls
        (.fail (.unregistered branch))
  | refused {done : List (Branch × Artifact)} {calls : List (BuildCall Artifact)}
      {branch : Branch} {later : List Branch} {builder : Builder Artifact}
      {halt : Halt CompileError} :
      Built compiler forest done calls →
      compiler.registry.builder? branch.kind = some builder →
      builder branch (compiler.contextAfter forest done) = .error halt →
      Ends compiler forest (done.map Prod.fst ++ branch :: later)
        (calls ++ [⟨branch, compiler.contextAfter forest done⟩]) (.error halt)

/-- From what has been built so far, a run over further branches comes to an
end. -/
theorem Built.ends {compiler : Compiler Artifact} {forest : Forest}
    {done : List (Branch × Artifact)} {calls : List (BuildCall Artifact)}
    (built : compiler.Built forest done calls) (later : List Branch) :
    compiler.Ends forest (done.map Prod.fst ++ later)
      (observe (later.foldlM (compiler.notedNode forest) (artifactsOf done)) calls).2
      (later.foldlM (compiler.buildNode forest) (artifactsOf done)) := by
  induction later generalizing done calls with
  | nil =>
      rw [List.append_nil]
      exact .built built
  | cons branch rest inductionHypothesis =>
      rw [List.foldlM_cons, List.foldlM_cons, observe_bind, observe_notedNode]
      cases found : compiler.registry.builder? branch.kind with
      | none =>
          rw [buildNode, found]
          exact .unregistered built found
      | some builder =>
          cases made : builder branch (compiler.contextAfter forest done) with
          | error halt =>
              have failed : compiler.buildNode forest (artifactsOf done) branch = .error halt := by
                rw [buildNode, found]
                exact congrArg (· >>= _) made
              rw [failed]
              exact .refused built found made
          | ok artifact =>
              have stored : compiler.buildNode forest (artifactsOf done) branch =
                  .ok (artifactsOf (done ++ [(branch, artifact)])) := by
                rw [artifactsOf_concat, buildNode, found]
                exact congrArg (· >>= _) made
              have whole : done.map Prod.fst ++ branch :: rest =
                  (done ++ [(branch, artifact)]).map Prod.fst ++ rest := by
                rw [List.map_append, List.append_assoc]
                rfl
              rw [stored, whole]
              exact inductionHypothesis (.concat built found made)

/-- Each call is made after all branches before its own are built. -/
theorem Built.split_of_mem {compiler : Compiler Artifact} {forest : Forest}
    {done : List (Branch × Artifact)} {calls : List (BuildCall Artifact)}
    (built : compiler.Built forest done calls) {call : BuildCall Artifact}
    (member : call ∈ calls) :
    ∃ before artifact after, done = before ++ (call.branch, artifact) :: after ∧
      call.context = compiler.contextAfter forest before := by
  induction built with
  | nil => cases member
  | @concat done calls branch builder artifact _ _ _ inductionHypothesis =>
      rcases List.mem_append.mp member with early | last
      · obtain ⟨before, earlier, after, rfl, given⟩ := inductionHypothesis early
        refine ⟨before, earlier, after ++ [(branch, artifact)], ?_, given⟩
        rw [List.append_assoc, List.cons_append]
      · obtain rfl := List.mem_singleton.mp last
        exact ⟨done, artifact, [], rfl, rfl⟩

/-- What a branch has got is what its builder made of the branches before. -/
theorem Built.made {compiler : Compiler Artifact} {forest : Forest}
    {done : List (Branch × Artifact)} {calls : List (BuildCall Artifact)}
    (built : compiler.Built forest done calls) {before after : List (Branch × Artifact)}
    {branch : Branch} {artifact : Artifact} (split : done = before ++ (branch, artifact) :: after) :
    ∃ builder, compiler.registry.builder? branch.kind = some builder ∧
      builder branch (compiler.contextAfter forest before) = .ok artifact := by
  induction built generalizing after with
  | nil => simp at split
  | @concat done calls last builder lastArtifact _ found made inductionHypothesis =>
      rcases List.eq_nil_or_concat after with rfl | ⟨others, final, rfl⟩
      · obtain ⟨rfl, same⟩ := List.append_inj' split rfl
        cases same
        exact ⟨builder, found, made⟩
      · rw [List.concat_eq_append, ← List.cons_append, ← List.append_assoc] at split
        exact inductionHypothesis (List.append_inj' split rfl).1

theorem Ends.split_of_mem {compiler : Compiler Artifact} {forest : Forest}
    {branches : List Branch} {calls : List (BuildCall Artifact)}
    {result : Build (Annotations Table Artifact)} (ends : compiler.Ends forest branches calls result)
    {call : BuildCall Artifact} (member : call ∈ calls) :
    ∃ before after, branches = before.map Prod.fst ++ call.branch :: after ∧
      call.context = compiler.contextAfter forest before := by
  have throughBuilt : ∀ {done : List (Branch × Artifact)} {earlier : List (BuildCall Artifact)}
      (later : List Branch), compiler.Built forest done earlier → call ∈ earlier →
        ∃ before after, done.map Prod.fst ++ later = before.map Prod.fst ++ call.branch :: after ∧
          call.context = compiler.contextAfter forest before := by
    intro done earlier later built early
    obtain ⟨before, artifact, after, rfl, given⟩ := built.split_of_mem early
    refine ⟨before, after.map Prod.fst ++ later, ?_, given⟩
    rw [List.map_append, List.map_cons, List.append_assoc, List.cons_append]
  cases ends with
  | @built done _ built =>
      have split := throughBuilt [] built member
      rwa [List.append_nil] at split
  | unregistered built _ => exact throughBuilt _ built member
  | @refused done earlier branch later builder halt built _ _ =>
      rcases List.mem_append.mp member with early | last
      · exact throughBuilt _ built early
      · obtain rfl := List.mem_singleton.mp last
        exact ⟨done, later, rfl, rfl⟩

end Compiler

/-- After some branches have been built, a builder that is called for a branch
below a node finds their artifacts: those of all children, also of the nodes
below its own, but none of its own node, of a node above it, or of a node from
elsewhere. -/
structure BuildCall.FindsBelow {Artifact : Type} (call : BuildCall Artifact)
    (forest : Forest) (id : NodeId) (before : List (Branch × Artifact)) : Prop where
  childArtifacts : ∀ part ∈ call.branch.postOrder, ∃ found,
    call.context.childArtifacts part = .ok found ∧
      List.Forall₂ (fun child artifact => (child, artifact) ∈ before) part.children found
  childArtifact : ∀ part ∈ call.branch.postOrder,
    match part.children with
    | [] => call.context.childArtifact part = .fail (.missingChild part)
    | child :: _ => ∃ artifact,
        call.context.childArtifact part = .ok artifact ∧ (child, artifact) ∈ before
  missing : ∀ other found, forest.branch other = .ok found →
    (forest.IsAbove other call.branch.id ∨ ¬ forest.IsAbove id other) →
      call.context.artifact found = .fail (.missingArtifact found)

namespace Compiler

variable {Artifact : Type}

theorem artifact_contextAfter (compiler : Compiler Artifact) (forest : Forest)
    {done : List (Branch × Artifact)} (nodup : ((done.map Prod.fst).map Branch.id).Nodup)
    {branch : Branch} {artifact : Artifact} (member : (branch, artifact) ∈ done) :
    (compiler.contextAfter forest done).artifact branch = .ok artifact := by
  rw [BuildContext.artifact, contextAfter, artifactsOf_get? nodup member]

theorem artifact_contextAfter_other (compiler : Compiler Artifact) (forest : Forest)
    {done : List (Branch × Artifact)} {branch : Branch}
    (other : branch.id ∉ (done.map Prod.fst).map Branch.id) :
    (compiler.contextAfter forest done).artifact branch = .fail (.missingArtifact branch) := by
  rw [BuildContext.artifact, contextAfter, artifactsOf_get?_eq_none other]

/-- What is below a branch comes before it in a post-order. -/
theorem exists_artifact_of_postOrder {root branch part child : Branch}
    {before : List (Branch × Artifact)} {after : List Branch}
    (placed : root.postOrder = before.map Prod.fst ++ branch :: after)
    (within : part ∈ branch.postOrder) (member : child ∈ part.children) :
    ∃ artifact, (child, artifact) ∈ before := by
  have early : child ∈ before.map Prod.fst := by
    rcases Branch.mem_postOrder.mp within with rfl | ⟨upper, upperMember, below⟩
    · exact root.mem_before_of_postOrder _ _ _ placed child member
    · exact Branch.mem_before_of_mem_postOrder placed
        (root.mem_before_of_postOrder _ _ _ placed upper upperMember)
        (Branch.mem_postOrder_trans (Branch.mem_postOrder_of_mem_children member) below)
  obtain ⟨⟨_, artifact⟩, built, rfl⟩ := List.mem_map.mp early
  exact ⟨artifact, built⟩

/-- When all branches before one in a post-order have been built, its builder
finds what is below. -/
theorem findsBelow_of_postOrder (compiler : Compiler Artifact) {forest : Forest}
    (sound : forest.Sound) {root branch : Branch} (mirrors : root.Mirrors forest)
    {before : List (Branch × Artifact)} {after : List Branch}
    (placed : root.postOrder = before.map Prod.fst ++ branch :: after) :
    BuildCall.FindsBelow ⟨branch, compiler.contextAfter forest before⟩ forest root.id before := by
  have nodup := mirrors.nodup_names sound
  rw [placed, List.map_append, List.map_cons] at nodup
  have earlier : ((before.map Prod.fst).map Branch.id).Nodup := (List.nodup_append.mp nodup).1
  have new : branch.id ∉ (before.map Prod.fst).map Branch.id := fun member =>
    (List.nodup_append.mp nodup).2.2 _ member _ List.mem_cons_self rfl
  have childrenBuilt (part : Branch) (within : part ∈ branch.postOrder) :
      ∀ child ∈ part.children, ∃ artifact, (child, artifact) ∈ before :=
    fun _ member => exists_artifact_of_postOrder placed within member
  refine ⟨fun part within => ?_, fun part within => ?_, ?_⟩
  · obtain ⟨found, built⟩ := exists_forall₂ (childrenBuilt part within)
    refine ⟨found, mapM_eq_ok.mpr (built.imp ?_), built⟩
    exact fun child artifact => compiler.artifact_contextAfter forest earlier
  · have built := childrenBuilt part within
    unfold BuildContext.childArtifact
    cases listed : part.children with
    | nil => rfl
    | cons child others =>
        obtain ⟨artifact, member⟩ := built child (listed ▸ List.mem_cons_self)
        exact ⟨artifact, compiler.artifact_contextAfter forest earlier member, member⟩
  · intro other found read place
    obtain ⟨rfl, foundMirrors⟩ := Forest.mirrors_of_branchWithin read
    apply compiler.artifact_contextAfter_other
    intro member
    obtain ⟨part, early, same⟩ := List.mem_map.mp member
    have within : part ∈ root.postOrder := by
      rw [placed]
      exact List.mem_append_left _ early
    rcases place with above | outside
    · -- Below a node that is built already everything is built.
      rw [← same, ← (mirrors.within part within).mem_names_iff sound] at above
      obtain ⟨inner, innerMember, innerSame⟩ := List.mem_map.mp above
      have innerEarly := Branch.mem_before_of_mem_postOrder placed early innerMember
      exact new (innerSame ▸ List.mem_map_of_mem innerEarly)
    · rw [← same, ← mirrors.mem_names_iff sound] at outside
      exact outside (List.mem_map_of_mem within)

/-! ## The discipline -/

/-- The calls for what has been built are made in its order. -/
theorem Built.branches_eq {compiler : Compiler Artifact} {forest : Forest}
    {done : List (Branch × Artifact)} {calls : List (BuildCall Artifact)}
    (built : compiler.Built forest done calls) :
    calls.map BuildCall.branch = done.map Prod.fst := by
  induction built with
  | nil => rfl
  | concat _ _ _ inductionHypothesis =>
      rw [List.map_append, List.map_append, inductionHypothesis]
      rfl

/-- The calls of a run go through its branches from the front. -/
theorem Ends.branches_prefix {compiler : Compiler Artifact} {forest : Forest}
    {branches : List Branch} {calls : List (BuildCall Artifact)}
    {result : Build (Annotations Table Artifact)} (ends : compiler.Ends forest branches calls result) :
    calls.map BuildCall.branch <+: branches := by
  cases ends with
  | built built => rw [built.branches_eq]
  | unregistered built _ =>
      rw [built.branches_eq]
      exact List.prefix_append _ _
  | @refused _ _ branch later _ _ built _ _ =>
      rw [List.map_append, built.branches_eq]
      exact ⟨later, List.append_assoc _ _ _⟩

/-- A run over branches of different names builds one artifact for each. -/
theorem Ends.keys_eq {compiler : Compiler Artifact} {forest : Forest}
    {branches : List Branch} {calls : List (BuildCall Artifact)}
    {artifacts : Annotations Table Artifact}
    (ends : compiler.Ends forest branches calls (.ok artifacts))
    (nodup : (branches.map Branch.id).Nodup) :
    artifacts.toList.map Prod.fst = branches.map fun branch => (branch.id, builderLabel) := by
  cases ends with
  | built built =>
      rw [toList_artifactsOf nodup, keys_artifactEntry, List.map_map]
      rfl

theorem Ends.exists_artifact {compiler : Compiler Artifact} {forest : Forest}
    {branches : List Branch} {calls : List (BuildCall Artifact)}
    {artifacts : Annotations Table Artifact}
    (ends : compiler.Ends forest branches calls (.ok artifacts))
    (nodup : (branches.map Branch.id).Nodup) {branch : Branch} (member : branch ∈ branches) :
    ∃ artifact, artifacts.get? branch.id builderLabel = some artifact := by
  cases ends with
  | built built =>
      obtain ⟨⟨_, artifact⟩, entry, rfl⟩ := List.mem_map.mp member
      exact ⟨artifact, artifactsOf_get? nodup entry⟩

/-- What a node is compiled to is its entry among the artifacts. -/
theorem compileNode_eq_ok {compiler : Compiler Artifact} {forest : Forest} {id : NodeId}
    {branch : Branch} {artifacts : Annotations Table Artifact} {artifact : Artifact}
    (read : forest.branch id = .ok branch) (made : compiler.artifacts forest id = .ok artifacts)
    (found : artifacts.get? id builderLabel = some artifact) :
    compiler.compileNode forest id = .ok artifact := by
  unfold compileNode
  rw [read, made]
  simp only [Except.mapError, bind, Except.bind, Annotations.remove_fst, found]
  rfl

theorem compileNode_eq_error {compiler : Compiler Artifact} {forest : Forest} {id : NodeId}
    {branch : Branch} {halt : Halt CompileError}
    (read : forest.branch id = .ok branch) (failed : compiler.artifacts forest id = .error halt) :
    compiler.compileNode forest id = .error halt := by
  unfold compileNode
  rw [read, failed]
  rfl

/-- A run below a node comes to an end. -/
theorem ends_artifacts (compiler : Compiler Artifact) {forest : Forest}
    {id : NodeId} {branch : Branch} (read : forest.branch id = .ok branch) :
    compiler.Ends forest branch.postOrder (observe (compiler.notedArtifacts forest id) []).2
      (compiler.artifacts forest id) := by
  have ends : compiler.Ends forest branch.postOrder
      (observe (branch.postOrder.foldlM (compiler.notedNode forest) .empty) []).2
      (branch.postOrder.foldlM (compiler.buildNode forest) .empty) :=
    (Built.nil : compiler.Built forest [] []).ends branch.postOrder
  unfold notedArtifacts artifacts
  rw [observe_bind, read]
  exact ends

/-- When everything below a node of a sound forest has been built, the node is
compiled. -/
theorem exists_compileNode (compiler : Compiler Artifact) {forest : Forest}
    (sound : forest.Sound) {id : NodeId} {branch : Branch}
    (read : forest.branch id = .ok branch) {artifacts : Annotations Table Artifact}
    (made : compiler.artifacts forest id = .ok artifacts) :
    ∃ artifact, artifacts.get? id builderLabel = some artifact ∧
      compiler.compileNode forest id = .ok artifact := by
  obtain ⟨rfl, mirrors⟩ := Forest.mirrors_of_branchWithin read
  have ends := compiler.ends_artifacts read
  rw [made] at ends
  obtain ⟨artifact, found⟩ :=
    ends.exists_artifact (mirrors.nodup_names sound) branch.self_mem_postOrder
  exact ⟨artifact, found, compileNode_eq_ok read made found⟩

/-- In a sound forest a compiler goes through the post-order of a node from its
front.  Each builder is called with exactly the artifacts of the nodes before
its own, and so finds those of the nodes below and no others.  The run ends with
one artifact for each node, the one of the node itself among them, or with the
error of the first node that cannot be built, and then nothing behind it is
called. -/
theorem artifacts_fromBelow (compiler : Compiler Artifact) {forest : Forest}
    (sound : forest.Sound) {id : NodeId} (inside : id < forest.size) :
    ∃ branch calls result,
      forest.branch id = .ok branch ∧
      forest.postOrder id = .ok (branch.postOrder.map Branch.id) ∧
      (branch.postOrder.map Branch.id).Nodup ∧
      observe (compiler.notedArtifacts forest id) [] = (result, calls) ∧
      compiler.artifacts forest id = result ∧
      compiler.Ends forest branch.postOrder calls result ∧
      calls.map BuildCall.branch <+: branch.postOrder ∧
      (∀ call ∈ calls, ∃ before later,
        branch.postOrder = before.map Prod.fst ++ call.branch :: later ∧
        call.context = compiler.contextAfter forest before ∧
        call.context.artifacts.toList = before.map artifactEntry ∧
        call.FindsBelow forest id before) ∧
      match result with
      | .error halt => compiler.compileNode forest id = .error halt
      | .ok artifacts =>
          artifacts.toList.map Prod.fst =
            branch.postOrder.map (fun part => (part.id, builderLabel)) ∧
          ∃ artifact, artifacts.get? id builderLabel = some artifact ∧
            compiler.compileNode forest id = .ok artifact := by
  obtain ⟨branch, read, rfl, mirrors⟩ := sound.exists_branch inside
  have nodup := mirrors.nodup_names sound
  have ends := compiler.ends_artifacts read
  refine ⟨branch, _, _, read, Forest.postOrder_eq_ok read, nodup, ?_, rfl, ends,
    ends.branches_prefix, ?_, ?_⟩
  · rw [← compiler.fst_observe_notedArtifacts forest branch.id []]
  · intro call member
    obtain ⟨before, later, placed, given⟩ := ends.split_of_mem member
    refine ⟨before, later, placed, given, ?_, ?_⟩
    · rw [placed, List.map_append] at nodup
      rw [given]
      exact toList_artifactsOf (List.nodup_append.mp nodup).1
    · rw [show call = ⟨call.branch, compiler.contextAfter forest before⟩ by rw [← given]]
      exact compiler.findsBelow_of_postOrder sound mirrors placed
  · cases result : compiler.artifacts forest branch.id with
    | error halt => exact compileNode_eq_error read result
    | ok artifacts =>
        rw [result] at ends
        exact ⟨ends.keys_eq nodup, compiler.exists_compileNode sound read result⟩

/-- Builders of numbers: terms count one, junctions count what is below them,
and nothing else is built. -/
def counting : Compiler Nat where
  registry :=
    (Registry.empty.register .field fun _ _ => .ok 1).register .boolean
      fun branch context => return (← context.childArtifacts branch).sum

/-- A pair of terms below a group that is not built, and a term elsewhere. -/
def groupedForest : Forest :=
  Operation.runAll .empty
    [.add (.leaf (.field { text := "fox" })), .add (.leaf (.quotedField { text := "dog" })),
      .addWithChildren (.composite (.junction .conjunction)) [0, 1],
      .addWithChildren (.wrapper .group) [2], .add (.leaf (.field { text := "hen" }))]

theorem artifacts_fromBelow_counting :
    groupedForest.Sound ∧ 3 < groupedForest.size ∧
      ∃ branch calls result,
        groupedForest.branch 3 = .ok branch ∧
        observe (counting.notedArtifacts groupedForest 3) [] = (result, calls) ∧
        calls.map (fun call => call.branch.id) = [0, 1, 2] ∧
        (∀ call ∈ calls, ∃ before, call.FindsBelow groupedForest 3 before) ∧
        result = .fail (.unregistered branch) ∧
        counting.compileNode groupedForest 3 = .fail (.unregistered branch) ∧
        counting.compileNode groupedForest 2 = .ok 2 := by
  have sound : groupedForest.Sound := Operation.sound_runAll Forest.sound_empty _
  have inside : 3 < groupedForest.size := by decide
  obtain ⟨branch, calls, result, read, _, _, noted, _, _, _, finds, _⟩ :=
    counting.artifacts_fromBelow sound inside
  refine ⟨sound, inside, branch, calls, result, read, noted, ?_, ?_, ?_, ?_, rfl⟩
  · rw [← show (observe (counting.notedArtifacts groupedForest 3) []).2 = calls from
      congrArg Prod.snd noted]
    rfl
  · intro call member
    obtain ⟨before, _, _, _, _, below⟩ := finds call member
    exact ⟨before, below⟩
  · rw [← show (observe (counting.notedArtifacts groupedForest 3) []).1 = result from
      congrArg Prod.fst noted]
    cases read
    rfl
  · cases read
    rfl

end Compiler

end QueryForest
