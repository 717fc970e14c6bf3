import QueryForest.Proofs.Document.Loading
import QueryForest.Proofs.Forest.Planting

/-!
# The branch that a document loads as

Apart from the edits that build it, a loaded tree is a recursive function of
the document: parameters are checked from the outermost node down, names are
given from the leaves up, and a child below a proximity node takes over its
field.
-/

namespace QueryForest

open Number (Single)

namespace Document

def checkComposite : Composite ProximityRecord → Except NodeError (Composite Proximity)
  | .junction operator => .ok (.junction operator)
  | .tokenizedPhrase => .ok .tokenizedPhrase
  | .multiPhrase => .ok .multiPhrase
  | .proximity near => return .proximity (← checkProximity near)

mutual

/-- The branch that a document loads as, with names from a place on. -/
def branchFrom (start : NodeId) : Document → Except NodeError Branch
  | .leaf bottom => do
      let checked ← checkLeaf bottom
      return .atop start (.leaf checked) []
  | .wrapper around child => do
      let children ← branchOfChild start child
      return .atop start (.wrapper around) children
  | .composite above children => do
      let checked ← checkComposite above
      let children ← branchesFrom start children
      return .atop start (.composite checked) children
termination_by structural document => document

def branchOfChild (start : NodeId) : Option Document → Except NodeError (List Branch)
  | none => .ok []
  | some child => do
      let branch ← child.branchFrom start
      return [branch]
termination_by structural child => child

def branchesFrom (start : NodeId) : List Document → Except NodeError (List Branch)
  | [] => .ok []
  | head :: tail => do
      let first ← head.branchFrom start
      let others ← branchesFrom (start + first.size) tail
      return first :: others
termination_by structural children => children

end

end Document

/-- An edit puts branches behind a forest and names their nodes, or stops at a
parameter that is refused. -/
def Forest.Plants {Result : Type} (forest : Forest) (change : Edit Result)
    (found : Except NodeError (Result × List Branch)) : Prop :=
  match found with
  | .ok (result, branches) =>
      ∃ after, forest.edit change = (.ok result, after) ∧ after.Sound ∧
        forest.Planted after branches
  | .error error => ∃ after, forest.edit change = (.error (.error error), after)

def Branch.named (branches : List Branch) : List NodeId × List Branch :=
  (branches.map Branch.id, branches)

def Branch.alone (branch : Branch) : NodeId × List Branch :=
  (branch.id, [branch])

namespace Forest

variable {forest : Forest}

/-- A node over what has been planted. -/
theorem Plants.atop {load : Edit (List NodeId)}
    {found : Except NodeError (List Branch)}
    (plants : forest.Plants load (found.map Branch.named)) (sound : forest.Sound)
    {kind : Kind} {add : List NodeId → Edit NodeId}
    (adds : ∀ (after : Forest) (children : List NodeId), after.Sound →
      after.Unowned children → kind.arity.admits children.length →
        after.edit (add children) = (.ok after.size, after.adopted kind children))
    (steps : ∀ children, (add children).GoesInSteps)
    (room : ∀ branches, found = .ok branches → kind.arity.admits branches.length) :
    forest.Plants (load >>= add)
      (((fun branches => Branch.atop forest.size kind branches) <$> found).map
        Branch.alone) := by
  cases found with
  | error error =>
      obtain ⟨after, stopped⟩ := plants
      exact ⟨after, edit_bind_of_error _ stopped⟩
  | ok branches =>
      obtain ⟨after, done, afterSound, planted⟩ := plants
      have unowned := planted.unowned sound
      have admitted : kind.arity.admits (branches.map Branch.id).length := by
        rw [List.length_map]
        exact room branches rfl
      have added := adds after _ afterSound unowned admitted
      refine ⟨after.adopted kind (branches.map Branch.id), ?_, ?_,
        planted.adopted sound afterSound kind⟩
      · rw [edit_bind_of_ok _ done, added, planted.size]
        rfl
      · have goes := steps (branches.map Branch.id) after afterSound
        rw [added] at goes
        exact goes.sound afterSound

/-- One branch behind the other. -/
theorem Plants.cons {first : Edit NodeId} {rest : Edit (List NodeId)}
    {found : Except NodeError Branch}
    {others : Nat → Except NodeError (List Branch)}
    (plants : forest.Plants first (found.map Branch.alone))
    (follows : ∀ (after : Forest) (start : Nat), after.size = start → after.Sound →
      after.Plants rest ((others start).map Branch.named)) :
    forest.Plants (do
        let head ← first
        let tail ← rest
        return head :: tail)
      ((do
        let head ← found
        let tail ← others (forest.size + head.size)
        return head :: tail).map Branch.named) := by
  cases found with
  | error error =>
      obtain ⟨after, stopped⟩ := plants
      exact ⟨after, edit_bind_of_error _ stopped⟩
  | ok head =>
      obtain ⟨middle, done, middleSound, planted⟩ := plants
      have reached : middle.size = forest.size + head.size := by
        rw [planted.size, Branch.sizeOfAll, Branch.sizeOfAll, Nat.add_zero]
      have further := follows middle _ reached middleSound
      cases outcome : others (forest.size + head.size) with
      | error error =>
          rw [outcome] at further
          obtain ⟨after, stopped⟩ := further
          have same : (do
              let head ← (Except.ok head : Except NodeError Branch)
              let tail ← others (forest.size + head.size)
              return head :: tail) = Except.error error := by
            show (others (forest.size + head.size) >>= _) = _
            rw [outcome]
            rfl
          rw [same]
          refine ⟨after, ?_⟩
          rw [edit_bind_of_ok _ done, edit_bind_of_error _ stopped]
      | ok tail =>
          rw [outcome] at further
          obtain ⟨after, restDone, afterSound, restPlanted⟩ := further
          have same : (do
              let head ← (Except.ok head : Except NodeError Branch)
              let tail ← others (forest.size + head.size)
              return head :: tail) = Except.ok (head :: tail) := by
            show (others (forest.size + head.size) >>= _) = _
            rw [outcome]
            rfl
          rw [same]
          refine ⟨after, ?_, afterSound, planted.append middleSound restPlanted⟩
          rw [edit_bind_of_ok _ done, edit_bind_of_ok _ restDone]
          rfl

theorem adopted_nil (forest : Forest) (kind : Kind) :
    forest.adopted kind [] = forest.push kind :=
  revise_eq_self fun id node _ => by simp

theorem plants_add (sound : forest.Sound) (kind : Kind) :
    forest.Plants (Edit.add kind) (.ok (Branch.atop forest.size kind []).alone) := by
  refine ⟨forest.push kind, Edit.run_add forest kind, sound.push kind, ?_⟩
  have planted := (Planted.nil forest).adopted sound sound kind
  rwa [List.map_nil, adopted_nil] at planted

end Forest

namespace Document

open Forest

theorem length_le_of_branchOfChild {start : NodeId} {child : Option Document}
    {branches : List Branch} (found : branchOfChild start child = .ok branches) :
    branches.length ≤ 1 := by
  cases child with
  | none =>
      cases found
      exact Nat.zero_le _
  | some child =>
      rw [branchOfChild] at found
      obtain ⟨branch, _, same⟩ := bind_eq_ok.mp found
      cases same
      exact Nat.le_refl _

mutual

/-- Loading a document plants its branch. -/
theorem plants_load : (document : Document) → (forest : Forest) → forest.Sound →
    forest.Plants document.load
      ((document.branchFrom forest.size).map Branch.alone)
  | .leaf bottom, forest, sound => by
      rw [load, branchFrom]
      cases checkLeaf bottom with
      | error error => exact ⟨forest, rfl⟩
      | ok checked => exact plants_add sound (.leaf checked)
  | .wrapper around child, forest, sound => by
      rw [load, branchFrom]
      exact (plants_loadChild child forest sound).atop sound
        (fun _ _ afterSound unowned room => afterSound.edit_addWithChildren unowned room)
        (.addWithChildren _) fun _ found => length_le_of_branchOfChild found
  | .composite (.proximity near) children, forest, sound => by
      rw [load, branchFrom]
      cases checked : checkProximity near with
      | error error =>
          rw [checkComposite, checked]
          exact ⟨forest, rfl⟩
      | ok near =>
          rw [checkComposite, checked]
          exact (plants_loadChildren children forest sound).atop sound
            (fun _ _ afterSound unowned _ => afterSound.edit_addProximity near unowned)
            (.addProximity near) fun _ _ => trivial
  | .composite (.junction operator) children, forest, sound => by
      rw [load, branchFrom]
      exact (plants_loadChildren children forest sound).atop sound
        (fun _ _ afterSound unowned room => afterSound.edit_addWithChildren unowned room)
        (.addWithChildren _) fun _ _ => trivial
  | .composite .tokenizedPhrase children, forest, sound => by
      rw [load, branchFrom]
      exact (plants_loadChildren children forest sound).atop sound
        (fun _ _ afterSound unowned room => afterSound.edit_addWithChildren unowned room)
        (.addWithChildren _) fun _ _ => trivial
  | .composite .multiPhrase children, forest, sound => by
      rw [load, branchFrom]
      exact (plants_loadChildren children forest sound).atop sound
        (fun _ _ afterSound unowned room => afterSound.edit_addWithChildren unowned room)
        (.addWithChildren _) fun _ _ => trivial

theorem plants_loadChild : (child : Option Document) → (forest : Forest) →
    forest.Sound →
    forest.Plants (loadChild child)
      ((branchOfChild forest.size child).map Branch.named)
  | none, forest, sound => by
      rw [loadChild, branchOfChild]
      exact ⟨forest, edit_pure forest [], sound, .nil forest⟩
  | some child, forest, sound => by
      have planted := plants_load child forest sound
      rw [loadChild, branchOfChild]
      cases found : child.branchFrom forest.size with
      | error error =>
          rw [found] at planted
          obtain ⟨after, stopped⟩ := planted
          exact ⟨after, edit_bind_of_error _ stopped⟩
      | ok branch =>
          rw [found] at planted
          obtain ⟨after, done, afterSound, planted⟩ := planted
          exact ⟨after, edit_bind_of_ok _ done, afterSound, planted⟩

theorem plants_loadChildren : (children : List Document) → (forest : Forest) →
    forest.Sound →
    forest.Plants (loadChildren children)
      ((branchesFrom forest.size children).map Branch.named)
  | [], forest, sound => by
      rw [loadChildren, branchesFrom]
      exact ⟨forest, edit_pure forest [], sound, .nil forest⟩
  | head :: tail, forest, sound => by
      rw [loadChildren, branchesFrom]
      have follows : ∀ (after : Forest) (start : Nat), after.size = start → after.Sound →
          after.Plants (loadChildren tail)
            ((branchesFrom start tail).map Branch.named) := by
        rintro after start rfl afterSound
        exact plants_loadChildren tail after afterSound
      have planted := (plants_load head forest sound).cons follows
      exact planted

end

/-- A document whose parameters are all accepted is loaded, and the branch at
the root of its forest is the one that was planted. -/
theorem exists_toForest {document : Document} {branch : Branch}
    (found : document.branchFrom 0 = .ok branch) :
    ∃ forest, document.toForest = .ok forest ∧ forest.Sound ∧
      forest.root = some branch.id ∧ forest.size = branch.size ∧
      forest.branch branch.id = .ok branch := by
  have plants := plants_load document Forest.empty sound_empty
  have start : Forest.empty.size = 0 := rfl
  rw [start, found] at plants
  obtain ⟨after, done, sound, planted⟩ := plants
  have mirrors := planted.mirrors branch List.mem_cons_self
  have inside := mirrors.id_lt_size
  have unmoved : after.severed branch.id = after :=
    sound.severed_eq_self (planted.parentless branch List.mem_cons_self)
  have kept : ∀ id : NodeId, id < after.size →
      ({ after with root := some branch.id } : Forest).nodes[id]? = after.nodes[id]? :=
    fun _ _ => rfl
  have rootedMirrors := mirrors.grown sound kept
  obtain ⟨read, readDone, named, readMirrors⟩ :=
    (sound.rooted inside).exists_branch inside
  have same : read = branch := readMirrors.unique rootedMirrors named
  refine ⟨{ after with root := some branch.id }, ?_, sound.rooted inside, rfl, ?_, ?_⟩
  · unfold toForest
    rw [edit_bind_of_ok _ done, sound.edit_setRoot inside, unmoved]
    rfl
  · show after.size = branch.size
    rw [planted.size, start, Branch.sizeOfAll, Branch.sizeOfAll, Nat.zero_add,
      Nat.add_zero]
  · rw [same] at readDone
    exact readDone

/-- A document with a parameter that is refused is not loaded. -/
theorem toForest_of_refused {document : Document} {error : NodeError}
    (refused : document.branchFrom 0 = .error error) :
    document.toForest = .error (.error error) := by
  have plants := plants_load document Forest.empty sound_empty
  have start : Forest.empty.size = 0 := rfl
  rw [start, refused] at plants
  obtain ⟨after, stopped⟩ := plants
  unfold toForest
  rw [edit_bind_of_error _ stopped]
  rfl

end Document

end QueryForest
