import QueryForest.Proofs.Document.Loading
import QueryForest.Proofs.Forest.Operation

/-!
# Histories of one forest

A history starts with an empty or a loaded forest and changes it by operations
and by grafting other trees.  Its forests stay sound, whatever the operations
are and however they end, as long as no grafted tree has a root with a parent.
The root itself stays parentless up to the first operation that captures it.
-/

namespace QueryForest

/-- A forest that a history can start with. -/
def Forest.IsFresh (forest : Forest) : Prop :=
  forest = .empty ∨ ∃ document : Document, document.toForest = .ok forest

namespace Forest.IsFresh

variable {start : Forest}

theorem sound (fresh : start.IsFresh) : start.Sound := by
  rcases fresh with rfl | ⟨document, loaded⟩
  · exact sound_empty
  · exact Document.sound_toForest loaded

theorem rootParentless (fresh : start.IsFresh) : start.RootParentless := by
  rcases fresh with rfl | ⟨document, loaded⟩
  · rintro root ⟨⟩
  · exact Document.rootParentless_toForest loaded

end Forest.IsFresh

/-- What can happen to a forest: an operation on it, or taking over another
tree. -/
inductive Change where
  | operate (operation : Operation)
  | graft (other : Forest)

namespace Change

def run (forest : Forest) : Change → Forest
  | .operate operation => operation.run forest
  | .graft other => (forest.edit (Edit.graft other)).2

def runAll (start : Forest) (changes : List Change) : Forest :=
  changes.foldl run start

/-- A change whose grafted tree, if it has one, is sound and has a root without
a parent. -/
def IsFit : Change → Prop
  | .operate _ => True
  | .graft other =>
      other.Sound ∧ ∀ root, other.root = some root → other.parentOf root = none

theorem sound_run {forest : Forest} (sound : forest.Sound) {change : Change}
    (fit : change.IsFit) : (change.run forest).Sound := by
  cases change with
  | operate operation => exact operation.sound_run sound
  | graft other =>
      obtain ⟨otherSound, parentless⟩ := fit
      have free : other.RootParentless := fun root rooted =>
        ⟨otherSound.root_lt root rooted, parentless root rooted⟩
      rw [run, Forest.edit_graft forest free]
      exact sound.joined otherSound

theorem sound_runAll {start : Forest} (sound : start.Sound)
    {changes : List Change} (fit : ∀ change ∈ changes, change.IsFit) :
    (runAll start changes).Sound := by
  induction changes generalizing start with
  | nil => exact sound
  | cons head tail inductionHypothesis =>
      exact inductionHypothesis (sound_run sound (fit head List.mem_cons_self))
        fun change member => fit change (List.mem_cons_of_mem head member)

/-- Throughout a history the forest is sound, and all links lead to nodes of
the arena. -/
theorem sound_throughout {start : Forest} (fresh : start.IsFresh)
    {changes : List Change} (fit : ∀ change ∈ changes, change.IsFit)
    {before : List Change} (reached : before <+: changes) :
    (runAll start before).Sound ∧
      (∀ child parent, (runAll start before).parentOf child = some parent →
        parent < (runAll start before).size) ∧
      ∀ parent child, child ∈ (runAll start before).childrenOf parent →
        child < (runAll start before).size := by
  have sound := sound_runAll fresh.sound
    fun change member => fit change (reached.subset member)
  exact ⟨sound, fun _ _ => sound.parent_lt, fun _ _ => sound.child_lt⟩

/-- A history in which a node moves, an operation is refused, another one meets
a name from elsewhere, and a tree is grafted. -/
def sample : List Change :=
  [.operate (.add (.wrapper .group)),
    .operate (.addWithChildren (.composite .multiPhrase) [0]),
    .operate (.addChild 0 1),
    .operate (.setChildren 1 [0, 7]),
    .graft (Operation.runAll .empty [.add (.leaf .matchAll), .setRoot 0])]

theorem sample_isFit : ∀ change ∈ sample, change.IsFit := by
  intro change member
  simp only [sample, List.mem_cons, List.not_mem_nil, or_false] at member
  rcases member with rfl | rfl | rfl | rfl | rfl
  · trivial
  · trivial
  · trivial
  · trivial
  · exact ⟨Operation.sound_runAll Forest.sound_empty _, by decide⟩

theorem sound_throughout_sample :
    Forest.empty.IsFresh ∧ (∀ change ∈ sample, change.IsFit) ∧
      sample <+: sample ∧ (runAll .empty sample).Sound :=
  ⟨.inl rfl, sample_isFit, List.prefix_rfl,
    (sound_throughout (.inl rfl) sample_isFit List.prefix_rfl).1⟩

end Change

namespace Operation

/-- The root is parentless up to every point of a history if no operation
before it captures the root. -/
theorem rootParentless_runAll {start : Forest} (sound : start.Sound)
    (parentless : start.RootParentless) {operations : List Operation}
    (never : ∀ before operation, before ++ [operation] <+: operations →
      ¬ operation.CapturesRoot (runAll start before)) :
    (runAll start operations).RootParentless := by
  induction operations generalizing start with
  | nil => exact parentless
  | cons head tail inductionHypothesis =>
      refine inductionHypothesis (head.sound_run sound) ?_ ?_
      · apply (rootParentless_run_iff sound parentless head).mpr
        exact never [] head (List.prefix_append [head] tail)
      · intro before operation reached
        exact never (head :: before) operation
          (List.cons_prefix_cons.mpr ⟨rfl, reached⟩)

/-- The root is a node without a parent throughout a history exactly when no
operation of it captures the root. -/
theorem rootParentless_throughout_iff {start : Forest} (fresh : start.IsFresh)
    (operations : List Operation) :
    (∀ before, before <+: operations → (runAll start before).RootParentless) ↔
      ∀ before operation, before ++ [operation] <+: operations →
        ¬ operation.CapturesRoot (runAll start before) := by
  constructor
  · intro parentless before operation reached
    have sound := sound_runAll fresh.sound before
    have here := parentless before ((List.prefix_append ..).trans reached)
    apply (rootParentless_run_iff sound here operation).mp
    have next := parentless (before ++ [operation]) reached
    rwa [runAll, List.foldl_append] at next
  · intro never before reached
    apply rootParentless_runAll fresh.sound fresh.rootParentless
    exact fun earlier operation shorter =>
      never earlier operation (shorter.trans reached)

/-- The root takes the place of the only child of another node. -/
def capture : List Operation :=
  [.add (.wrapper .group), .add (.leaf .matchAll), .add (.leaf .matchNone),
    .addChild 0 1, .setRoot 2, .replace 1 2]

theorem rootParentless_throughout_iff_capture :
    Forest.empty.IsFresh ∧
      ((∀ before, before <+: capture → (runAll .empty before).RootParentless) ↔
        ∀ before operation, before ++ [operation] <+: capture →
          ¬ operation.CapturesRoot (runAll .empty before)) :=
  ⟨.inl rfl, rootParentless_throughout_iff (.inl rfl) capture⟩

theorem root_linked_after_capture :
    (runAll .empty capture).root = some 2 ∧
      (runAll .empty capture).parentOf 2 = some 0 := by
  decide

end Operation

end QueryForest
