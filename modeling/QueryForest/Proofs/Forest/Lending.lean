import QueryForest.Proofs.Forest.Gathering
import QueryForest.Proofs.Forest.History

/-!
# Terms stay in step

As long as no term is written into, every term below a proximity node is in step
with it throughout a history, so lending the field again changes nothing.  A write
can put one term out of step, until the term is attached the next time or its
parent lends the field again.
-/

namespace QueryForest

namespace Forest.IsFresh

theorem inStep {start : Forest} (fresh : start.IsFresh) (id : NodeId) : start.InStep id := by
  have inEmpty : ∀ id, Forest.empty.InStep id := fun id => inStep_of_lenderOf_none rfl
  rcases fresh with rfl | ⟨document, loaded⟩
  · exact inEmpty id
  · have steps := document.goesInSteps_load .empty sound_empty
    obtain ⟨before, root, outcome, sound, inside, rfl⟩ := Document.exists_of_toForest loaded
    rw [outcome] at steps
    exact (Step.rooted inside).inStep sound (steps.inStep sound_empty inEmpty) id

end Forest.IsFresh

namespace Operation

variable {forest start : Forest} {operation : Operation} {operations : List Operation}

theorem inStep_base (sound : forest.Sound) (operation : Operation) {id : NodeId}
    (before : forest.InStep id) : (operation.base forest).InStep id := by
  cases operation with
  | add _ | addWithChildren _ _ | addProximity _ _ => exact sound.inStep_push _ before
  | addChild _ _ | setChildren _ _ | detach _ | setRoot _ | replace _ _ | bindFields _
    | modifyTerm _ _ | copyBranch _ => exact before

/-- A term that is in step stays so unless it is written into. -/
theorem inStep_run (sound : forest.Sound) (noCopy : ¬ operation.IsCopy) {id : NodeId}
    (unwritten : ¬ operation.Writes id) (before : forest.InStep id) :
    (operation.run forest).InStep id := by
  by_cases writes : ∃ other, operation.Writes other
  · obtain ⟨other, change, rfl⟩ := writes
    have apart : id ≠ other := by
      rintro rfl
      exact unwritten ⟨change, rfl⟩
    cases present : forest.nodes[other]? with
    | none =>
        rw [run, Forest.edit_modifyTerm_of_none present]
        exact before
    | some node =>
        rw [run, Forest.edit_modifyTerm_of_some present]
        exact Forest.inStep_rekinded apart change before
  · obtain ⟨parent, freed, moved, gathers, _⟩ :=
      exists_gathers_run sound (not_exists.mp writes) noCopy
    exact gathers.inStep (inStep_base sound operation before)

/-- A term that is attached is in step with its new parent. -/
theorem Attaches.inStep_run {id : NodeId} (attaches : operation.Attaches forest id)
    (sound : forest.Sound) : (operation.run forest).InStep id := by
  have noWrite : ∀ other, ¬ operation.Writes other := by
    rintro other ⟨change, rfl⟩
    exact List.not_mem_nil attaches.1
  have noCopy : ¬ operation.IsCopy := by
    rintro ⟨other, rfl⟩
    exact List.not_mem_nil attaches.1
  obtain ⟨parent, freed, moved, gathers, attached⟩ := exists_gathers_run sound noWrite noCopy
  exact gathers.inStep_of_mem (attached id attaches)

theorem forall_inStep_run (sound : forest.Sound) (noWrite : ∀ id, ¬ operation.Writes id)
    (before : ∀ id, forest.InStep id) (id : NodeId) : (operation.run forest).InStep id := by
  rcases run_cases sound operation with
    steps | ⟨written, change, rfl, _⟩ | ⟨parent, former, replacement, _, can, becomes⟩
  · exact steps.inStep sound before id
  · exact absurd ⟨change, rfl⟩ (noWrite written)
  · rw [becomes]
    exact (Forest.Gathers.substituted_bound can).inStep (before id)

theorem forall_inStep_runAll (sound : start.Sound)
    (noWrite : ∀ operation ∈ operations, ∀ id, ¬ operation.Writes id)
    (before : ∀ id, start.InStep id) : ∀ id, (runAll start operations).InStep id := by
  induction operations generalizing start with
  | nil => exact before
  | cons head tail inductionHypothesis =>
      exact inductionHypothesis (head.sound_run sound)
        (fun operation member => noWrite operation (List.mem_cons_of_mem head member))
        (forall_inStep_run sound (noWrite head List.mem_cons_self) before)

/-- In a history a term has been written into since it was attached the last time. -/
def WrittenSinceAttached (start : Forest) (operations : List Operation) (id : NodeId) : Prop :=
  ∃ earlier write later, operations = earlier ++ write :: later ∧ write.Writes id ∧
    ∀ middle operation, middle ++ [operation] <+: later →
      ¬ operation.Attaches (runAll start (earlier ++ write :: middle)) id

theorem runAll_append (start : Forest) (first second : List Operation) :
    runAll start (first ++ second) = runAll (runAll start first) second :=
  List.foldl_append

/-- Only such terms are out of step. -/
theorem writtenSinceAttached_of_not_inStep (sound : start.Sound)
    (inStep : ∀ id, start.InStep id) (noCopy : ∀ operation ∈ operations, ¬ operation.IsCopy)
    {id : NodeId} (out : ¬ (runAll start operations).InStep id) :
    WrittenSinceAttached start operations id := by
  induction operations using List.reverseRecOn with
  | nil => exact absurd (inStep id) out
  | append_singleton front last inductionHypothesis =>
      have frontSound := sound_runAll sound front
      have lastNoCopy := noCopy last (List.mem_append_right _ List.mem_cons_self)
      rw [runAll_append] at out
      by_cases writes : last.Writes id
      · refine ⟨front, last, [], rfl, writes, fun middle operation reached => ?_⟩
        exact absurd (List.prefix_nil.mp reached) (by simp)
      · obtain ⟨earlier, write, later, rfl, wrote, unattached⟩ := inductionHypothesis
          (fun operation member => noCopy operation (List.mem_append_left _ member))
          fun frontInStep => out (inStep_run frontSound lastNoCopy writes frontInStep)
        refine ⟨earlier, write, later ++ [last], by simp, wrote, ?_⟩
        intro middle operation reached attaches
        rcases List.prefix_concat_iff.mp reached with whole | early
        · obtain ⟨rfl, same⟩ := List.append_inj' whole rfl
          cases same
          exact out (attaches.inStep_run frontSound)
        · exact unattached middle operation early attaches

/-- Throughout a history without writes all terms are in step, and lending a field
again changes nothing.  With writes, but without copies, only terms that have been
written into since they were attached are out of step; and a node that lends its
field again puts the terms of all its children in step and changes nothing else. -/
theorem lending_throughout (fresh : start.IsFresh) {before : List Operation}
    (reached : before <+: operations) :
    ((∀ operation ∈ operations, ∀ id, ¬ operation.Writes id) →
      ∀ id, (runAll start before).InStep id ∧
        ((runAll start before).edit (Edit.bindFields id)).2 = runAll start before) ∧
    ((∀ operation ∈ operations, ¬ operation.IsCopy) →
      ∀ id, ¬ (runAll start before).InStep id → WrittenSinceAttached start before id) ∧
    ∀ parent < (runAll start before).size,
      ∃ after, (runAll start before).edit (Edit.bindFields parent) = (.ok (), after) ∧
        (runAll start before).Restores after parent := by
  have sound := sound_runAll fresh.sound before
  refine ⟨fun noWrite id => ?_, fun noCopy id => ?_, fun parent inside => ?_⟩
  · have inStep := forall_inStep_runAll fresh.sound
      (fun operation member => noWrite operation (reached.subset member)) fresh.inStep
    refine ⟨inStep id, ?_⟩
    by_cases inside : id < (runAll start before).size
    · rw [sound.edit_bindFields inside]
      exact Forest.rebound_eq_self inStep id
    · rw [Forest.edit_bindFields_outside inside]
  · exact writtenSinceAttached_of_not_inStep fresh.sound fresh.inStep
      fun operation member => noCopy operation (reached.subset member)
  · exact ⟨_, sound.edit_bindFields inside, sound.restores_rebound parent⟩

/-- A term goes from one proximity node to another one, is copied with it, and is to
be followed by a node from elsewhere. -/
def handedOn : List Operation :=
  [.add (.leaf (.field { field := some "body", text := "fox" })),
    .addProximity ⟨some "title", .sentence, true⟩ [0],
    .addProximity ⟨none, .paragraph, false⟩ [0], .copyBranch 2, .setChildren 1 [0, 9]]

def rewritten : List Operation :=
  [.add (.leaf (.field { text := "fox" })), .addProximity ⟨some "title", .sentence, true⟩ [0],
    .modifyTerm 0 fun term => { term with field := some "body" }]

theorem lending_throughout_samples :
    Forest.empty.IsFresh ∧ (∀ operation ∈ handedOn, ∀ id, ¬ operation.Writes id) ∧
      (∀ id, (runAll .empty handedOn).InStep id) ∧
      (∀ operation ∈ rewritten, ¬ operation.IsCopy) ∧ ¬ (runAll .empty rewritten).InStep 0 ∧
      WrittenSinceAttached .empty rewritten 0 ∧
      ∃ after, (runAll .empty rewritten).edit (Edit.bindFields 1) = (.ok (), after) ∧
        (runAll .empty rewritten).Restores after 1 := by
  have fresh : Forest.empty.IsFresh := .inl rfl
  have noWrite : ∀ operation ∈ handedOn, ∀ id, ¬ operation.Writes id := by
    simp [handedOn, Writes]
  have noCopy : ∀ operation ∈ rewritten, ¬ operation.IsCopy := by
    simp [rewritten, IsCopy]
  have out : ¬ (runAll .empty rewritten).InStep 0 := fun inStep =>
    absurd (inStep ⟨some "title", .sentence, true⟩ _ rfl rfl).1 (by decide)
  have steady := (lending_throughout fresh (List.prefix_refl handedOn)).1 noWrite
  have disturbed := (lending_throughout fresh (List.prefix_refl rewritten)).2
  exact ⟨fresh, noWrite, fun id => (steady id).1, noCopy, out, disturbed.1 noCopy 0 out,
    disturbed.2 1 (by decide)⟩

end Operation

end QueryForest
