import QueryForest.Proofs.Forest.History
import QueryForest.Proofs.Forest.Traversal

/-!
# Several forests

In a grove several forests are built side by side, and one can be moved into
another.  As long as no forest is moved whose root has a parent, the lists of
children make a forest of trees in each of them, so that every walk down ends.
Moving a forest whose root has a parent breaks this at once: the root stays in
the list of its parent without naming it.
-/

namespace QueryForest

namespace Forest

def Lists (forest : Forest) (parent child : NodeId) : Prop :=
  child ∈ forest.childrenOf parent

/-- The lists of children make a forest of trees: every node stands in one list
at most, once and with the owner as its parent, no node is below itself, and
walks down and copies end. -/
structure IsGrown (forest : Forest) : Prop where
  owner_unique : ∀ child first second,
    forest.Lists first child → forest.Lists second child → first = second
  nodup : ∀ parent, (forest.childrenOf parent).Nodup
  parent_of_lists : ∀ parent child,
    forest.Lists parent child → forest.parentOf child = some parent
  acyclic : ∀ id, ¬ Relation.TransGen forest.Lists id id
  walks_end : ∀ id, id < forest.size →
    (∃ order, forest.postOrder id = .ok order) ∧
      ∃ copy, forest.copy id = .ok copy

variable {forest : Forest}

theorem isAbove_of_transGen_lists
    (linked : ∀ parent child, forest.Lists parent child →
      forest.parentOf child = some parent)
    {ancestor id : NodeId} (below : Relation.TransGen forest.Lists ancestor id) :
    ∃ parent, forest.parentOf id = some parent ∧
      forest.IsAbove ancestor parent := by
  induction below with
  | single listed => exact ⟨ancestor, linked _ _ listed, .self⟩
  | tail _ listed inductionHypothesis =>
      obtain ⟨parent, parentLinked, above⟩ := inductionHypothesis
      exact ⟨_, linked _ _ listed, .linked parentLinked above⟩

/-- In a sound forest the lists of children make a forest of trees. -/
theorem Sound.isGrown (sound : forest.Sound) : forest.IsGrown := by
  have linked : ∀ parent child, forest.Lists parent child →
      forest.parentOf child = some parent :=
    fun parent child listed => (sound.mem_childrenOf_iff parent child).mp listed
  constructor
  · intro child first second firstLists secondLists
    have firstLinked := linked first child firstLists
    rw [linked second child secondLists] at firstLinked
    exact (Option.some.inj firstLinked).symm
  · exact sound.nodup_childrenOf
  · exact linked
  · intro id below
    obtain ⟨parent, parentLinked, above⟩ := isAbove_of_transGen_lists linked below
    exact (sound.endsAbove id).not_isAbove_parent parentLinked above
  · intro id inside
    obtain ⟨branch, read, _⟩ := sound.exists_branch inside
    exact ⟨⟨_, postOrder_eq_ok read⟩, ⟨_, copy_eq_ok read⟩⟩

end Forest

/-- The forests that exist side by side. -/
abbrev Grove := List Forest

/-- What can happen in a grove.  Forests are named by their places. -/
inductive GroveStep where
  /-- A new forest, without nodes. -/
  | plant
  /-- A new forest with the tree of a document. -/
  | load (document : Document)
  /-- A new forest that equals another one. -/
  | duplicate (place : Nat)
  /-- A new forest with a copy of a branch. -/
  | copy (place : Nat) (id : NodeId)
  /-- An operation on a forest. -/
  | operate (place : Nat) (operation : Operation)
  /-- Moving a forest into another one; the place that it leaves is empty. -/
  | graft (source target : Nat)

namespace Grove

/-- The grove after a step.  A forest that is moved to a place that does not
exist is gone; other steps with such places are none. -/
def run (grove : Grove) : GroveStep → Grove
  | .plant => grove ++ [.empty]
  | .load document => grove ++ document.toForest.toOption.toList
  | .duplicate place => grove ++ grove[place]?.toList
  | .copy place id =>
      grove ++ (grove[place]?.bind fun forest => (forest.copy id).toOption).toList
  | .operate place operation => grove.modify place fun forest => operation.run forest
  | .graft source target =>
      match grove[source]? with
      | some other =>
          (grove.set source .empty).modify target fun forest =>
            (forest.edit (Edit.graft other)).2
      | none => grove

def runAll (steps : List GroveStep) : Grove :=
  steps.foldl run []

/-- A step moves a forest whose root has a parent. -/
def MovesLinkedRoot (grove : Grove) (step : GroveStep) : Prop :=
  ∃ source target other root parent, step = .graft source target ∧
    grove[source]? = some other ∧ target < grove.length ∧
    other.root = some root ∧ other.parentOf root = some parent

variable {grove : Grove}

section Kept

variable {Holds : Forest → Prop}

theorem forall_append (all : ∀ forest ∈ grove, Holds forest) {added : Option Forest}
    (addedHolds : ∀ forest, added = some forest → Holds forest) :
    ∀ forest ∈ grove ++ added.toList, Holds forest := by
  intro forest member
  rcases List.mem_append.mp member with old | new
  · exact all forest old
  · exact addedHolds forest (Option.mem_toList.mp new)

theorem forall_set (all : ∀ forest ∈ grove, Holds forest) {forest : Forest}
    (newHolds : Holds forest) (place : Nat) :
    ∀ other ∈ grove.set place forest, Holds other := by
  intro other member
  rcases List.mem_or_eq_of_mem_set member with old | rfl
  · exact all other old
  · exact newHolds

theorem forall_modify (all : ∀ forest ∈ grove, Holds forest) {change : Forest → Forest}
    (keeps : ∀ forest, Holds forest → Holds (change forest)) (place : Nat) :
    ∀ other ∈ grove.modify place change, Holds other := by
  intro other member
  obtain ⟨index, present⟩ := List.mem_iff_getElem?.mp member
  rw [List.getElem?_modify] at present
  obtain ⟨forest, found, becomes⟩ := Option.map_eq_some_iff.mp present
  have holds := all forest (List.mem_of_getElem? found)
  rw [← becomes]
  split
  · exact keeps forest holds
  · exact holds

/-- What the empty forest, loaded and copied ones, and forests after operations
have, all forests of a grove have after a step, if grafting keeps it. -/
theorem forall_run (all : ∀ forest ∈ grove, Holds forest) {step : GroveStep}
    (planted : Holds .empty)
    (loaded : ∀ (document : Document) forest,
      document.toForest = .ok forest → Holds forest)
    (copied : ∀ forest id copy, Holds forest → forest.copy id = .ok copy → Holds copy)
    (operated : ∀ forest (operation : Operation),
      Holds forest → Holds (operation.run forest))
    (grafted : ∀ source target other, step = .graft source target →
      grove[source]? = some other → target < grove.length → Holds other →
        ∀ forest, Holds forest → Holds (forest.edit (Edit.graft other)).2) :
    ∀ forest ∈ grove.run step, Holds forest := by
  cases step with
  | plant =>
      have emptyHolds : ∀ forest, some Forest.empty = some forest → Holds forest := by
        rintro forest ⟨⟩
        exact planted
      exact forall_append all emptyHolds
  | load document =>
      apply forall_append all
      exact fun forest made => loaded document forest (toOption_eq_some.mp made)
  | duplicate place =>
      exact forall_append all fun forest present =>
        all forest (List.mem_of_getElem? present)
  | copy place id =>
      apply forall_append all
      intro made makes
      obtain ⟨forest, present, copies⟩ := Option.bind_eq_some_iff.mp makes
      have forestHolds := all forest (List.mem_of_getElem? present)
      exact copied forest id made forestHolds (toOption_eq_some.mp copies)
  | operate place operation =>
      exact forall_modify all (fun forest holds => operated forest operation holds) place
  | graft source target =>
      cases present : grove[source]? with
      | none =>
          simp only [Grove.run, present]
          exact all
      | some other =>
          simp only [Grove.run, present]
          have otherHolds := all other (List.mem_of_getElem? present)
          have emptied := forall_set all planted source
          by_cases inside : target < grove.length
          · exact forall_modify emptied
              (grafted source target other rfl present inside otherHolds) target
          · have nowhere : (List.set grove source Forest.empty).length ≤ target := by
              rw [List.length_set]
              exact Nat.not_lt.mp inside
            rw [List.modify_eq_self nowhere]
            exact emptied

end Kept

def AllSound (grove : Grove) : Prop :=
  ∀ forest ∈ grove, forest.Sound

/-- A step that moves no linked root keeps all forests sound. -/
theorem AllSound.run (sound : AllSound grove) {step : GroveStep}
    (spared : ¬ grove.MovesLinkedRoot step) : AllSound (grove.run step) := by
  apply forall_run sound Forest.sound_empty
  case loaded => exact fun _ _ loaded => Document.sound_toForest loaded
  case copied =>
    intro forest id copy forestSound copies
    obtain ⟨branch, read, rfl⟩ := Forest.copy_eq_ok_iff.mp copies
    exact (Forest.mirrors_of_branchWithin read).2.sound_toForest forestSound
  case operated => exact fun _ operation forestSound => operation.sound_run forestSound
  case grafted =>
    intro source target other isGraft present inside otherSound forest forestSound
    have free : other.RootParentless := by
      intro root rooted
      refine ⟨otherSound.root_lt root rooted, ?_⟩
      cases linked : other.parentOf root with
      | none => rfl
      | some parent =>
          exact absurd ⟨source, target, other, root, parent, isGraft, present, inside,
            rooted, linked⟩ spared
    rw [Forest.edit_graft forest free]
    exact forestSound.joined otherSound

/-- Where a linked root is moved, it stays in the list of a parent that it does
not name any more. -/
theorem not_isGrown_of_movesLinkedRoot (sound : AllSound grove)
    {step : GroveStep} (moves : grove.MovesLinkedRoot step) :
    ∃ forest ∈ grove.run step, ¬ forest.IsGrown := by
  obtain ⟨source, target, other, root, parent, rfl, present, inside, rooted,
    linked⟩ := moves
  have otherSound := sound other (List.mem_of_getElem? present)
  have targetInside : target < (List.set grove source Forest.empty).length := by
    rwa [List.length_set]
  obtain ⟨forest, targetPresent⟩ : ∃ forest,
      (List.set grove source Forest.empty)[target]? = some forest :=
    ⟨_, List.getElem?_eq_getElem targetInside⟩
  refine ⟨(forest.edit (Edit.graft other)).2, ?_, fun grown => ?_⟩
  · rw [run, present]
    refine List.mem_iff_getElem?.mpr ⟨target, ?_⟩
    rw [List.getElem?_modify, targetPresent]
    exact congrArg some (if_pos rfl)
  · obtain ⟨listed, unnamed⟩ :=
      Forest.not_linked_of_graft forest otherSound rooted linked
    rw [grown.parent_of_lists _ _ listed] at unnamed
    cases unnamed

theorem runAll_concat (steps : List GroveStep) (last : GroveStep) :
    runAll (steps ++ [last]) = (runAll steps).run last := by
  rw [runAll, List.foldl_append]
  rfl

theorem allSound_runAll {steps : List GroveStep}
    (spared : ∀ before step, before ++ [step] <+: steps →
      ¬ (runAll before).MovesLinkedRoot step) : AllSound (runAll steps) := by
  induction steps using List.reverseRecOn with
  | nil => exact fun _ member => nomatch member
  | append_singleton steps last inductionHypothesis =>
      rw [runAll_concat]
      refine (inductionHypothesis fun before step reached => ?_).run ?_
      · exact spared before step (reached.trans (List.prefix_append ..))
      · exact spared steps last List.prefix_rfl

/-- Whatever has grown to forests of trees throughout is sound: the first bad
move would show at once. -/
theorem allSound_of_isGrown {steps : List GroveStep}
    (grown : ∀ before, before <+: steps → ∀ forest ∈ runAll before, forest.IsGrown) :
    AllSound (runAll steps) := by
  induction steps using List.reverseRecOn with
  | nil => exact fun _ member => nomatch member
  | append_singleton steps last inductionHypothesis =>
      have sound := inductionHypothesis fun before reached =>
        grown before (reached.trans (List.prefix_append ..))
      have grownNow := grown (steps ++ [last]) List.prefix_rfl
      rw [runAll_concat] at grownNow ⊢
      apply sound.run
      intro moves
      obtain ⟨forest, member, ungrown⟩ := not_isGrown_of_movesLinkedRoot sound moves
      exact ungrown (grownNow forest member)

/-- The lists of children make forests of trees throughout the growth of a
grove exactly when no forest is moved whose root has a parent. -/
theorem isGrown_throughout_iff (steps : List GroveStep) :
    (∀ before, before <+: steps → ∀ forest ∈ runAll before, forest.IsGrown) ↔
      ∀ before step, before ++ [step] <+: steps →
        ¬ (runAll before).MovesLinkedRoot step := by
  constructor
  · intro grown before step reached moves
    have sound : AllSound (runAll before) :=
      allSound_of_isGrown fun earlier shorter =>
        grown earlier (shorter.trans ((List.prefix_append ..).trans reached))
    have grownThere := grown (before ++ [step]) reached
    rw [runAll_concat] at grownThere
    obtain ⟨forest, member, ungrown⟩ := not_isGrown_of_movesLinkedRoot sound moves
    exact ungrown (grownThere forest member)
  · intro spared before reached forest member
    have sound : AllSound (runAll before) :=
      allSound_runAll fun earlier step shorter =>
        spared earlier step (shorter.trans reached)
    exact (sound forest member).isGrown

/-- The root takes the place of another node, and its forest is moved. -/
def moveOfCapture : List GroveStep :=
  .plant :: .plant :: Operation.capture.map (.operate 1) ++ [.graft 1 0]

theorem listed_unnamed_after_moveOfCapture :
    ∃ forest, forest ∈ runAll moveOfCapture ∧ forest.Lists 0 2 ∧
      forest.parentOf 2 = none := by
  refine ⟨(runAll moveOfCapture).headD .empty, List.mem_cons_self, ?_, ?_⟩
  · unfold Forest.Lists
    decide +kernel
  · decide +kernel

end Grove

end QueryForest
