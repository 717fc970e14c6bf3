import QueryForest.Proofs.Forest.Step

/-!
# Operations

The operations by which a tree is built and changed, as data, so that a history
is a list of them.  An operation may end well, be refused or stop at a breach;
what it has changed by then stays.
-/

namespace QueryForest

inductive Operation where
  | add (kind : Kind)
  | addWithChildren (kind : Kind) (children : List NodeId)
  | addProximity (near : Proximity) (children : List NodeId)
  | addChild (parent child : NodeId)
  | setChildren (parent : NodeId) (children : List NodeId)
  | detach (id : NodeId)
  | setRoot (id : NodeId)
  | replace (former replacement : NodeId)
  | bindFields (id : NodeId)
  | modifyTerm (id : NodeId) (change : Term → Term)
  | copyBranch (id : NodeId)

namespace Operation

def run (forest : Forest) : Operation → Forest
  | .add kind => (forest.edit (Edit.add kind)).2
  | .addWithChildren kind children =>
      (forest.edit (Edit.addWithChildren kind children)).2
  | .addProximity near children =>
      (forest.edit (Edit.addProximity near children)).2
  | .addChild parent child => (forest.edit (Edit.addChild parent child)).2
  | .setChildren parent children =>
      (forest.edit (Edit.setChildren parent children)).2
  | .detach id => (forest.edit (Edit.detach id)).2
  | .setRoot id => (forest.edit (Edit.setRoot id)).2
  | .replace former replacement =>
      (forest.edit (Edit.replace former replacement)).2
  | .bindFields id => (forest.edit (Edit.bindFields id)).2
  | .modifyTerm id change => (forest.edit (Edit.modifyTerm id change)).2
  | .copyBranch id => (forest.edit (Edit.copyBranch id)).2

def runAll (start : Forest) (operations : List Operation) : Forest :=
  operations.foldl run start

variable {forest : Forest}

/-- An operation goes in plain steps, writes into a term, or takes a place
below a parent. -/
theorem run_cases (sound : forest.Sound) (operation : Operation) :
    forest.Steps (operation.run forest) ∨
      (∃ id change, operation = .modifyTerm id change ∧
        operation.run forest = forest.rekinded id (Kind.mapTerm change)) ∨
      ∃ parent former replacement, operation = .replace former replacement ∧
        forest.CanSubstitute parent former replacement ∧
        operation.run forest =
          (forest.substituted parent former replacement).bound
            parent replacement := by
  cases operation with
  | add kind => exact .inl (Edit.GoesInSteps.add kind forest sound)
  | addWithChildren kind children =>
      exact .inl (Edit.GoesInSteps.addWithChildren kind children forest sound)
  | addProximity near children =>
      exact .inl (Edit.GoesInSteps.addProximity near children forest sound)
  | addChild parent child =>
      exact .inl (Edit.GoesInSteps.addChild parent child forest sound)
  | setChildren parent children =>
      exact .inl (Edit.GoesInSteps.setChildren parent children forest sound)
  | detach id => exact .inl (Edit.GoesInSteps.detach id forest sound)
  | setRoot id => exact .inl (Edit.GoesInSteps.setRoot id forest sound)
  | bindFields id => exact .inl (Edit.GoesInSteps.bindFields id forest sound)
  | copyBranch id => exact .inl (Edit.GoesInSteps.copyBranch id forest sound)
  | replace former replacement =>
      by_cases possible : ∃ parent, forest.CanSubstitute parent former replacement
      · obtain ⟨parent, can⟩ := possible
        refine .inr (.inr ⟨parent, former, replacement, rfl, can, ?_⟩)
        rw [run, can.edit_replace sound]
      · exact .inl (sound.steps_replace (not_exists.mp possible))
  | modifyTerm id change =>
      cases present : forest.nodes[id]? with
      | none =>
          left
          rw [run, Forest.edit_modifyTerm_of_none present]
          exact .refl
      | some node =>
          refine .inr (.inl ⟨id, change, rfl, ?_⟩)
          rw [run, Forest.edit_modifyTerm_of_some present]

/-- Every operation keeps a forest sound. -/
theorem sound_run (sound : forest.Sound) (operation : Operation) :
    (operation.run forest).Sound := by
  rcases run_cases sound operation with
    plain | ⟨id, change, _, becomes⟩ | ⟨parent, former, replacement, _, can, becomes⟩
  · exact plain.sound sound
  · rw [becomes]
    exact sound.rekinded id (Kind.arity_mapTerm change)
  · rw [becomes]
    exact can.sound sound

theorem sound_runAll {start : Forest} (sound : start.Sound)
    (operations : List Operation) : (runAll start operations).Sound := by
  induction operations generalizing start with
  | nil => exact sound
  | cons head tail inductionHypothesis =>
      exact inductionHypothesis (head.sound_run sound)

/-- An operation puts the root of a forest into the place of another node,
below the parent of that node. -/
def CapturesRoot (forest : Forest) (operation : Operation) : Prop :=
  ∃ parent former replacement, operation = .replace former replacement ∧
    forest.CanSubstitute parent former replacement ∧
    forest.root = some replacement

/-- A root without a parent gets one only by being captured. -/
theorem rootParentless_run_iff (sound : forest.Sound)
    (before : forest.RootParentless) (operation : Operation) :
    (operation.run forest).RootParentless ↔
      ¬ operation.CapturesRoot forest := by
  by_cases captures : operation.CapturesRoot forest
  · refine iff_of_false ?_ (not_not_intro captures)
    obtain ⟨parent, former, replacement, rfl, can, wasRoot⟩ := captures
    rw [run, can.edit_replace sound, can.rootParentless_iff before]
    exact not_not_intro wasRoot
  · refine iff_of_true ?_ captures
    rcases run_cases sound operation with
      plain | ⟨id, change, _, becomes⟩ |
        ⟨parent, former, replacement, isReplace, can, becomes⟩
    · exact plain.rootParentless before
    · rw [becomes]
      exact before.rekinded id _
    · rw [becomes, can.rootParentless_iff before]
      exact fun wasRoot =>
        captures ⟨parent, former, replacement, isReplace, can, wasRoot⟩

end Operation

end QueryForest
