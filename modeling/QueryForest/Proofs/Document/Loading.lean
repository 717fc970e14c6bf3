import QueryForest.Document.Load
import QueryForest.Proofs.Forest.Step

/-!
# Loaded trees are sound

Loading a document adds its nodes by plain edits and makes the last one the
root, so the tree that comes out is sound and its root is nobody's child.
-/

namespace QueryForest

namespace Document

open Edit.GoesInSteps

theorem goesInSteps_accept {Result : Type} (checked : Except NodeError Result) :
    (accept checked).GoesInSteps := by
  intro forest _
  cases checked with
  | error error => exact .refl
  | ok result => exact .refl

mutual

theorem goesInSteps_load : (document : Document) → document.load.GoesInSteps
  | .leaf bottom => by
      rw [load]
      exact (goesInSteps_accept _).bind fun _ => add _
  | .wrapper around child => by
      rw [load]
      exact (goesInSteps_loadChild child).bind fun _ => addWithChildren _ _
  | .composite (.proximity near) children => by
      rw [load]
      exact (goesInSteps_accept _).bind fun _ =>
        (goesInSteps_loadChildren children).bind fun _ => addProximity _ _
  | .composite (.junction operator) children => by
      rw [load]
      exact (goesInSteps_loadChildren children).bind fun _ => addWithChildren _ _
  | .composite .tokenizedPhrase children => by
      rw [load]
      exact (goesInSteps_loadChildren children).bind fun _ => addWithChildren _ _
  | .composite .multiPhrase children => by
      rw [load]
      exact (goesInSteps_loadChildren children).bind fun _ => addWithChildren _ _

theorem goesInSteps_loadChild :
    (child : Option Document) → (loadChild child).GoesInSteps
  | none => by
      rw [loadChild]
      exact .pure _
  | some child => by
      rw [loadChild]
      exact (goesInSteps_load child).bind fun _ => .pure _

theorem goesInSteps_loadChildren :
    (children : List Document) → (loadChildren children).GoesInSteps
  | [] => by
      rw [loadChildren]
      exact .pure _
  | head :: tail => by
      rw [loadChildren]
      exact (goesInSteps_load head).bind fun _ =>
        (goesInSteps_loadChildren tail).bind fun _ => .pure _

end

/-- A loaded forest comes from the empty one by plain steps, the last of which
makes a node the root. -/
theorem exists_of_toForest {document : Document} {forest : Forest}
    (loaded : document.toForest = .ok forest) :
    ∃ before root, Forest.empty.edit document.load = (.ok root, before) ∧
      before.Sound ∧ root < before.size ∧
      forest = { before.severed root with root := some root } := by
  have steps := goesInSteps_load document Forest.empty Forest.sound_empty
  unfold toForest at loaded
  rw [Forest.edit_bind] at loaded
  rcases outcome : Forest.empty.edit document.load with ⟨halt | root, before⟩
  · simp only [outcome] at loaded
    cases loaded
  · rw [outcome] at steps
    simp only [outcome] at loaded
    have sound := steps.sound Forest.sound_empty
    by_cases inside : root < before.size
    · rw [sound.edit_setRoot inside] at loaded
      cases loaded
      exact ⟨before, root, rfl, sound, inside, rfl⟩
    · rw [Forest.edit_setRoot_outside inside] at loaded
      cases loaded

theorem sound_toForest {document : Document} {forest : Forest}
    (loaded : document.toForest = .ok forest) : forest.Sound := by
  obtain ⟨before, root, _, sound, inside, rfl⟩ := exists_of_toForest loaded
  exact (Forest.Step.rooted inside).sound sound

theorem rootParentless_toForest {document : Document} {forest : Forest}
    (loaded : document.toForest = .ok forest) : forest.RootParentless := by
  obtain ⟨before, root, _, sound, inside, rfl⟩ := exists_of_toForest loaded
  exact Forest.rootParentless_rooted inside

end Document

end QueryForest
