import QueryForest.Command.Answer
import QueryForest.Proofs.Document.Settling
import QueryForest.Proofs.Document.Texts

/-!
# Loading what was saved

A loaded tree can always be saved.  Its text loads as the same tree again if
and only if every number in it is read from its written form as itself and the
text is not nested too deeply: saving writes an array for the children of every
composite, also for one that was written without any.
-/

namespace QueryForest

open Number (Single)

/-- The root of a forest is saved as a document. -/
def Forest.Saves (forest : Forest) (document : Document) : Prop :=
  ∃ branch, Command.rootBranch forest = .ok branch ∧ branch.save = .ok document

namespace Forest

variable {forest : Forest} {document : Document}

theorem Saves.unique {other : Document} (saves : forest.Saves document)
    (savesOther : forest.Saves other) : document = other := by
  obtain ⟨branch, read, saved⟩ := saves
  obtain ⟨otherBranch, otherRead, otherSaved⟩ := savesOther
  rw [read] at otherRead
  cases otherRead
  rw [saved] at otherSaved
  exact Except.ok.inj otherSaved

theorem Saves.run_document (saves : forest.Saves document) :
    Command.Task.document.run forest = .ok (document.pretty ++ "\n") := by
  obtain ⟨branch, read, saved⟩ := saves
  unfold Command.Task.run
  rw [read]
  show (branch.save.mapError NodeError.message >>= _) = _
  rw [saved]
  rfl

end Forest

namespace Document

/-- A loaded document is saved as its normal form. -/
theorem saves_of_toForest {document : Document} {forest : Forest}
    (loaded : document.toForest = .ok forest) : forest.Saves document.normal := by
  cases found : document.branchFrom 0 with
  | error error =>
      rw [toForest_of_refused found] at loaded
      cases loaded
  | ok branch =>
      obtain ⟨same, sameLoaded, _, rooted, _, read⟩ := exists_toForest found
      rw [loaded] at sameLoaded
      cases sameLoaded
      refine ⟨branch, ?_, save_branchFrom document 0 branch found⟩
      unfold Command.rootBranch
      rw [rooted]
      show (forest.branch branch.id).mapError _ = _
      rw [read]
      rfl

/-- A document is loaded together with its normal form or not at all. -/
theorem exists_toForest_normal {document : Document} {forest : Forest}
    (loaded : document.toForest = .ok forest) :
    ∃ again, document.normal.toForest = .ok again := by
  cases found : document.branchFrom 0 with
  | error error =>
      rw [toForest_of_refused found] at loaded
      cases loaded
  | ok branch =>
      rw [← branchFrom_normal] at found
      obtain ⟨again, againLoaded, _⟩ := exists_toForest found
      exact ⟨again, againLoaded⟩

end Document

open Document

theorem isBlank_newLine : ∀ c ∈ "\n".toList, Json.Lexer.isBlank c = true := by
  intro c member
  have only : c = '\n' := List.mem_singleton.mp member
  rw [only]
  rfl

theorem Forest.ofText_eq_ok {text : String} {forest : Forest} :
    Forest.ofText text = .ok forest ↔
      ∃ document, Document.ofText text = .ok document ∧ document.toForest = .ok forest := by
  unfold Forest.ofText
  cases Document.ofText text with
  | error error => simp [Except.mapError, bind, Except.bind]
  | ok document =>
      show document.toForest.mapError LoadError.halted = _ ↔ _
      cases loaded : document.toForest <;> simp [Except.mapError, loaded]

/-- Every text that is loaded can be saved; what is printed then is loaded again,
and saved as the same document, if and only if every number of the saved
document is read from its written form as itself and the document is nested no
deeper than a text may be. -/
theorem Forest.reloads_iff {text : String} {forest : Forest}
    (loaded : Forest.ofText text = .ok forest) :
    ∃ document, forest.Saves document ∧
      Command.Task.document.run forest = .ok (document.pretty ++ "\n") ∧
      ((∃ again, Forest.ofText (document.pretty ++ "\n") = .ok again ∧
          again.Saves document) ↔
        (∀ single ∈ document.singles, single.ReadsBack) ∧
          document.encode.nesting ≤ Json.State.nestingLimit) := by
  obtain ⟨original, _, toForest⟩ := Forest.ofText_eq_ok.mp loaded
  have saves := saves_of_toForest toForest
  have settled := normal_normal toForest
  refine ⟨original.normal, saves, saves.run_document, ?_⟩
  have read := fun other =>
    ofText_eq_ok_iff original.normal other Json.Spacing.isBlank_pretty isBlank_newLine
  rw [← reread?_eq_self_iff]
  constructor
  · rintro ⟨again, reloaded, savesAgain⟩
    obtain ⟨other, otherRead, otherLoaded⟩ := Forest.ofText_eq_ok.mp reloaded
    obtain ⟨room, reread⟩ := (read other).mp otherRead
    have same : other.normal = original.normal :=
      (saves_of_toForest otherLoaded).unique savesAgain
    have settledOther : original.normal.reread? = some other.normal := by
      rw [← settled, reread?_normal, reread]
      rfl
    rw [same] at settledOther
    exact ⟨settledOther, room⟩
  · rintro ⟨reread, room⟩
    obtain ⟨again, againLoaded⟩ := exists_toForest_normal toForest
    have savesAgain := saves_of_toForest againLoaded
    rw [settled] at savesAgain
    refine ⟨again, Forest.ofText_eq_ok.mpr ⟨original.normal, ?_, againLoaded⟩, savesAgain⟩
    exact (read original.normal).mpr ⟨room, reread⟩

namespace Document

def bareBoost (factor : Single) : Document :=
  .wrapper (.boost factor) none

theorem exists_toForest_bareBoost (factor : Single) :
    ∃ forest, (bareBoost factor).toForest = .ok forest ∧
      forest.Saves (bareBoost factor) := by
  have found : (bareBoost factor).branchFrom 0 =
      .ok (.atop 0 (.wrapper (.boost factor)) []) := by
    rw [bareBoost, branchFrom, branchOfChild]
    rfl
  obtain ⟨forest, loaded, _⟩ := exists_toForest found
  have saves := saves_of_toForest loaded
  rw [bareBoost, normal, normalChild] at saves
  exact ⟨forest, loaded, saves⟩

def bareFactor? (text : String) : Option Single :=
  match Document.ofText text with
  | .ok (.wrapper (.boost factor) none) => some factor
  | _ => none

theorem ofText_of_bareFactor? {text : String} {factor : Single}
    (found : bareFactor? text = some factor) :
    Document.ofText text = .ok (bareBoost factor) := by
  unfold bareFactor? at found
  split at found
  · next read =>
      cases found
      exact read
  · cases found

end Document

/-- A boost by one half comes back. -/
theorem Forest.reloads_half :
    ∃ forest document again,
      Forest.ofText "\x7b\"type\":\"boost\",\"value\":5e-1\x7d" = .ok forest ∧
      forest.Saves document ∧ Forest.ofText (document.pretty ++ "\n") = .ok again ∧
      again.Saves document := by
  have read := ofText_of_bareFactor? (by decide +kernel :
    bareFactor? "\x7b\"type\":\"boost\",\"value\":5e-1\x7d" = some ⟨0x3F000000⟩)
  obtain ⟨forest, loaded, saves⟩ := exists_toForest_bareBoost ⟨0x3F000000⟩
  have loadedText := Forest.ofText_eq_ok.mpr ⟨_, read, loaded⟩
  obtain ⟨document, savesDocument, _, reloads⟩ := Forest.reloads_iff loadedText
  have same := saves.unique savesDocument
  have reads : ∀ single ∈ (bareBoost ⟨0x3F000000⟩).singles, single.ReadsBack := by
    intro single member
    have only : single = ⟨0x3F000000⟩ := List.mem_singleton.mp member
    rw [only]
    exact rereadSingle?_eq_some.mp (by decide +kernel)
  obtain ⟨again, reloaded, savesAgain⟩ :=
    reloads.mpr (same ▸ ⟨reads, by decide +kernel⟩)
  exact ⟨forest, document, again, loadedText, savesDocument, reloaded, savesAgain⟩

/-- A boost beyond all finite numbers is loaded as an infinity, which is saved
as null and not loaded again. -/
theorem Forest.not_reloaded_of_infinite :
    ∃ forest document,
      Forest.ofText "\x7b\"type\":\"boost\",\"value\":1e39\x7d" = .ok forest ∧
      forest.Saves document ∧
      ¬ ∃ again, Forest.ofText (document.pretty ++ "\n") = .ok again := by
  have read := ofText_of_bareFactor? (by decide +kernel :
    bareFactor? "\x7b\"type\":\"boost\",\"value\":1e39\x7d" = some (.infinity false))
  obtain ⟨forest, loaded, saves⟩ := exists_toForest_bareBoost (.infinity false)
  refine ⟨forest, bareBoost (.infinity false),
    Forest.ofText_eq_ok.mpr ⟨_, read, loaded⟩, saves, ?_⟩
  rintro ⟨again, reloaded⟩
  obtain ⟨other, otherRead, _⟩ := Forest.ofText_eq_ok.mp reloaded
  have reread := ((ofText_eq_ok_iff _ other Json.Spacing.isBlank_pretty isBlank_newLine).mp
    otherRead).2
  rw [bareBoost, reread?] at reread
  cases reread

end QueryForest
