import QueryForest.Proofs.Forest.Binding
import QueryForest.Proofs.Forest.Operation

/-!
# What operations gather

Every operation but a write into a term and a copy gathers nodes below one parent,
also when it stops in the middle: then it has gathered some of them.  A node that
it attaches is among those, so it is in step with its parent afterwards.
-/

namespace QueryForest

namespace Forest

variable {forest : Forest}

/-- Nodes that go to a parent one by one are gathered there, up to one that is not
in the arena. -/
theorem CanTake.gathers {parent : NodeId} {children : List NodeId}
    (canTake : forest.CanTake parent children) :
    ∃ moved, forest.Gathers (forest.edit (children.forM (Edit.attach parent))).2 parent []
      moved := by
  induction children generalizing forest with
  | nil => exact ⟨[], .refl forest parent⟩
  | cons head tail inductionHypothesis =>
      rw [List.forM]
      by_cases inside : head < forest.size
      · rw [edit_bind_of_ok _ (canTake.edit_attach inside)]
        obtain ⟨moved, rest⟩ := inductionHypothesis (canTake.adopt inside)
        exact ⟨[head] ++ moved, (Gathers.placed_bound inside).trans rest⟩
      · rw [edit_bind_of_error _ (edit_attach_outside inside)]
        exact ⟨[], .refl forest parent⟩

theorem childrenOf_of_not_lt {id : NodeId} (outside : ¬ id < forest.size) :
    forest.childrenOf id = [] := by
  rw [childrenOf, getElem?_of_not_lt outside]
  rfl

namespace Sound

/-- Setting children frees the former ones and gathers new ones, unless it is
refused. -/
theorem gathers_setChildren (sound : forest.Sound) (parent : NodeId) (children : List NodeId) :
    (∃ error, forest.edit (Edit.setChildren parent children) = (.error (.error error), forest)) ∨
      ∃ moved, forest.Gathers (forest.edit (Edit.setChildren parent children)).2 parent
        (forest.childrenOf parent) moved := by
  by_cases inside : parent < forest.size
  · obtain ⟨node, present⟩ := exists_node_of_lt inside
    by_cases free : node.kind.arity.admits children.length ∧
        (∀ child ∈ children, ¬ forest.IsAbove child parent) ∧ children.Nodup
    · obtain ⟨room, apart, nodup⟩ := free
      obtain ⟨moved, rest⟩ := (sound.canTake_orphaned present room apart).gathers
      right
      rw [sound.edit_setChildren_of_free present room apart nodup]
      exact ⟨[] ++ moved, (Gathers.orphaned sound parent).trans rest⟩
    · obtain ⟨action, stopped⟩ := sound.anchored.edit_setChildren_of_refused present free
      exact .inl ⟨_, stopped⟩
  · right
    unfold Edit.setChildren
    rw [edit_bind_of_error _ (edit_node_of_none (getElem?_of_not_lt inside)),
      childrenOf_of_not_lt inside]
    exact ⟨[], .refl forest parent⟩

/-- Adding a child gathers it, unless it is refused or meets a name from
elsewhere. -/
theorem gathers_addChild (sound : forest.Sound) (parent child : NodeId) :
    (∃ error, forest.edit (Edit.addChild parent child) = (.error (.error error), forest)) ∨
      (¬ (parent < forest.size ∧ child < forest.size) ∧
        (forest.edit (Edit.addChild parent child)).2 = forest) ∨
      forest.Gathers (forest.edit (Edit.addChild parent child)).2 parent [] [child] := by
  by_cases parentInside : parent < forest.size
  · obtain ⟨node, present⟩ := exists_node_of_lt parentInside
    by_cases refused : ¬ node.kind.arity.admits (node.children.length + 1) ∨
        forest.IsAbove child parent
    · obtain ⟨action, stopped⟩ := sound.anchored.edit_addChild_of_refused present refused
      exact .inl ⟨_, stopped⟩
    · obtain ⟨room, apart⟩ := not_or.mp refused
      right
      rw [sound.anchored.edit_addChild_of_free present (Classical.not_not.mp room) apart]
      by_cases childInside : child < forest.size
      · have different : parent ≠ child := fun same => apart (same ▸ .self)
        rw [sound.edit_attach parentInside childInside different]
        exact .inr (.placed_bound childInside)
      · rw [edit_attach_outside childInside]
        exact .inl ⟨fun both => childInside both.2, rfl⟩
  · right
    unfold Edit.addChild
    rw [edit_bind_of_error _ (edit_node_of_none (getElem?_of_not_lt parentInside))]
    exact .inl ⟨fun both => parentInside both.1, rfl⟩

/-- Adding a node with children gathers some of them, or none if they are refused. -/
theorem gathers_addWithChildren (sound : forest.Sound) (kind : Kind) (children : List NodeId) :
    ∃ moved, (forest.push kind).Gathers
      (forest.edit (Edit.addWithChildren kind children)).2 forest.size [] moved := by
  have childless : (forest.push kind).childrenOf forest.size = [] :=
    childrenOf_of_getElem? (getElem?_push_self forest kind)
  have same : (forest.edit (Edit.addWithChildren kind children)).2 =
      ((forest.push kind).edit (Edit.setChildren forest.size children)).2 := by
    unfold Edit.addWithChildren
    rw [edit_bind_of_ok _ (Edit.run_add forest kind), edit_bind]
    rcases (forest.push kind).edit (Edit.setChildren forest.size children) with ⟨_ | _, _⟩ <;> rfl
  rw [same]
  rcases (sound.push kind).gathers_setChildren forest.size children with
    ⟨error, refused⟩ | ⟨moved, gathers⟩
  · rw [refused]
    exact ⟨[], .refl ..⟩
  · rw [childless] at gathers
    exact ⟨moved, gathers⟩

theorem exists_gathers_bindFields (sound : forest.Sound) (parent : NodeId) :
    ∃ moved, forest.Gathers (forest.edit (Edit.bindFields parent)).2 parent [] moved := by
  by_cases inside : parent < forest.size
  · rw [sound.edit_bindFields inside]
    exact ⟨_, .rebound sound parent⟩
  · rw [edit_bindFields_outside inside]
    exact ⟨[], .refl ..⟩

theorem edit_addWithChildren_ok {kind : Kind} {children : List NodeId} {id : NodeId}
    {after : Forest} (done : forest.edit (Edit.addWithChildren kind children) = (.ok id, after)) :
    id = forest.size := by
  unfold Edit.addWithChildren at done
  rw [edit_bind_of_ok _ (Edit.run_add forest kind), edit_bind] at done
  rcases outcome : (forest.push kind).edit (Edit.setChildren forest.size children) with ⟨_ | _, _⟩
  · rw [outcome] at done
    cases done
  · rw [outcome] at done
    cases done
    rfl

/-- Adding a proximity node gathers children below it, and lends its field to them
again. -/
theorem gathers_addProximity (sound : forest.Sound) (near : Proximity) (children : List NodeId) :
    ∃ moved, (forest.push (.composite (.proximity near))).Gathers
      (forest.edit (Edit.addProximity near children)).2 forest.size [] moved := by
  obtain ⟨moved, gathers⟩ :=
    sound.gathers_addWithChildren (.composite (.proximity near)) children
  have afterSound := (Edit.GoesInSteps.addWithChildren (.composite (.proximity near)) children
    forest sound).sound sound
  unfold Edit.addProximity
  rw [edit_bind]
  rcases outcome : forest.edit (Edit.addWithChildren (.composite (.proximity near)) children)
    with ⟨halt | id, after⟩
  · rw [outcome] at gathers
    exact ⟨moved, gathers⟩
  · cases edit_addWithChildren_ok outcome
    rw [outcome] at gathers afterSound
    obtain ⟨others, again⟩ := exists_gathers_bindFields afterSound forest.size
    refine ⟨moved ++ others, gathers.trans ?_⟩
    have same : (after.edit (Edit.bindFields forest.size >>= fun _ => pure forest.size)).2 =
        (after.edit (Edit.bindFields forest.size)).2 := by
      rw [edit_bind]
      rcases after.edit (Edit.bindFields forest.size) with ⟨_ | _, _⟩ <;> rfl
    exact same.symm ▸ again

theorem gathers_detach (sound : forest.Sound) (child : NodeId) :
    ∃ freed, forest.Gathers (forest.edit (Edit.detach child)).2 0 freed [] := by
  by_cases inside : child < forest.size
  · rw [sound.edit_detach inside]
    exact ⟨_, .severed forest 0 child⟩
  · rw [edit_detach_outside inside]
    exact ⟨[], .refl ..⟩

theorem gathers_setRoot (sound : forest.Sound) (root : NodeId) :
    ∃ freed, forest.Gathers (forest.edit (Edit.setRoot root)).2 0 freed [] := by
  by_cases inside : root < forest.size
  · rw [sound.edit_setRoot inside]
    exact ⟨_, .rooted forest 0 root⟩
  · rw [edit_setRoot_outside inside]
    exact ⟨[], .refl ..⟩

/-- A node whose place cannot be taken is not replaced, but may be followed as the
root. -/
theorem gathers_replace_of_cannot (sound : forest.Sound) {former replacement : NodeId}
    (cannot : ∀ parent, ¬ forest.CanSubstitute parent former replacement) :
    ∃ freed, forest.Gathers (forest.edit (Edit.replace former replacement)).2 0 freed [] := by
  rcases sound.edit_replace_of_cannot cannot with unchanged | ⟨_, becomesRoot⟩
  · rw [unchanged]
    exact ⟨[], .refl ..⟩
  · rw [becomesRoot]
    exact ⟨_, .rooted forest 0 replacement⟩

end Sound

end Forest

namespace Operation

variable {forest : Forest}

/-- The nodes that an operation is asked to put below another one. -/
def newcomers : Operation → List NodeId
  | .addWithChildren _ children | .addProximity _ children | .setChildren _ children => children
  | .addChild _ child => [child]
  | .replace former replacement => if former = replacement then [] else [replacement]
  | .add _ | .detach _ | .setRoot _ | .bindFields _ | .modifyTerm _ _ | .copyBranch _ => []

def target? (forest : Forest) : Operation → Option NodeId
  | .addWithChildren _ _ | .addProximity _ _ => some forest.size
  | .addChild parent _ | .setChildren parent _ => some parent
  | .replace former _ => forest.parentOf former
  | .add _ | .detach _ | .setRoot _ | .bindFields _ | .modifyTerm _ _ | .copyBranch _ => none

/-- An operation on links ends with an error that says it is not supported, before
it changes anything. -/
def IsRefused (forest : Forest) : Operation → Prop
  | .addChild parent child =>
      ∃ error, (forest.edit (Edit.addChild parent child)).1 = .error (.error error)
  | .setChildren parent children =>
      ∃ error, (forest.edit (Edit.setChildren parent children)).1 = .error (.error error)
  | .replace former replacement =>
      ∃ error, (forest.edit (Edit.replace former replacement)).1 = .error (.error error)
  | _ => False

/-- An operation attaches a node: it is asked to put the node below another one, is
not refused, and the node is below that one afterwards. -/
def Attaches (forest : Forest) (operation : Operation) (id : NodeId) : Prop :=
  id ∈ operation.newcomers ∧ ¬ operation.IsRefused forest ∧
    ∃ parent, operation.target? forest = some parent ∧
      (operation.run forest).parentOf id = some parent

/-- The forest that an operation starts with, with the node that it adds. -/
def base (forest : Forest) : Operation → Forest
  | .add kind | .addWithChildren kind _ => forest.push kind
  | .addProximity near _ => forest.push (.composite (.proximity near))
  | _ => forest

def Writes (operation : Operation) (id : NodeId) : Prop :=
  ∃ change, operation = .modifyTerm id change

def IsCopy (operation : Operation) : Prop :=
  ∃ id, operation = .copyBranch id

/-- Whoever is attached and has not been below the new parent before is among those
that are moved. -/
theorem Attaches.mem_moved {operation : Operation} {id parent other : NodeId}
    {base : Forest} {freed moved : List NodeId} (attaches : operation.Attaches forest id)
    (aimed : operation.target? forest = some parent)
    (gathers : base.Gathers (operation.run forest) other freed moved)
    (apart : base.parentOf id = some parent → id ∈ freed) : id ∈ moved := by
  obtain ⟨_, _, target, sameTarget, linked⟩ := attaches
  cases aimed.symm.trans sameTarget
  rw [gathers.parentOf] at linked
  by_contra notMoved
  rw [if_neg notMoved] at linked
  by_cases isFreed : id ∈ freed
  · rw [if_pos isFreed] at linked
    cases linked
  · rw [if_neg isFreed] at linked
    exact isFreed (apart linked)

theorem parentOf_push_ne_size (sound : forest.Sound) (kind : Kind) (id : NodeId) :
    (forest.push kind).parentOf id ≠ some forest.size := by
  rw [Forest.parentOf_push]
  exact fun linked => Nat.lt_irrefl _ (sound.parent_lt linked)

theorem exists_gathers_of_unchanged {operation : Operation}
    (starts : operation.base forest = forest) (unchanged : operation.run forest = forest)
    (nobody : ∀ id, ¬ operation.Attaches forest id) :
    ∃ parent freed moved,
      (operation.base forest).Gathers (operation.run forest) parent freed moved ∧
        ∀ id, operation.Attaches forest id → id ∈ moved := by
  rw [starts, unchanged]
  exact ⟨0, [], [], .refl .., fun id attaches => absurd attaches (nobody id)⟩

theorem exists_gathers_addChild (sound : forest.Sound) (parent child : NodeId) :
    ∃ other freed moved,
      forest.Gathers (run forest (.addChild parent child)) other freed moved ∧
        ∀ id, Attaches forest (.addChild parent child) id → id ∈ moved := by
  rcases sound.gathers_addChild parent child with
    ⟨error, refused⟩ | ⟨outside, unchanged⟩ | gathers
  · have same : run forest (.addChild parent child) = forest := by rw [run, refused]
    refine exists_gathers_of_unchanged rfl same fun id attaches => ?_
    exact attaches.2.1 ⟨error, by rw [refused]⟩
  · have same : run forest (.addChild parent child) = forest := unchanged
    refine exists_gathers_of_unchanged rfl same fun id attaches => outside ?_
    obtain ⟨member, _, target, sameTarget, linked⟩ := attaches
    cases sameTarget
    cases List.mem_singleton.mp member
    rw [same] at linked
    exact ⟨sound.parent_lt linked, Forest.lt_size_of_parentOf linked⟩
  · exact ⟨parent, [], [child], gathers, fun id attaches => attaches.1⟩

/-- Who follows the root in its place was not below the parent before: two children of
one parent can always change places. -/
theorem Attaches.not_linked_of_cannot (sound : forest.Sound) {former replacement id parent : NodeId}
    (attaches : Attaches forest (.replace former replacement) id)
    (cannot : ∀ parent, ¬ forest.CanSubstitute parent former replacement)
    (formerLinked : forest.parentOf former = some parent) :
    forest.parentOf id ≠ some parent := by
  intro linked
  have member := attaches.1
  by_cases same : former = replacement
  · rw [newcomers, if_pos same] at member
    cases member
  · rw [newcomers, if_neg same] at member
    cases List.mem_singleton.mp member
    exact cannot parent ⟨same, formerLinked, Forest.lt_size_of_parentOf linked,
      (sound.endsAbove replacement).not_isAbove_parent linked⟩

theorem exists_gathers_replace (sound : forest.Sound) (former replacement : NodeId) :
    ∃ other freed moved,
      forest.Gathers (run forest (.replace former replacement)) other freed moved ∧
        ∀ id, Attaches forest (.replace former replacement) id → id ∈ moved := by
  by_cases possible : ∃ parent, forest.CanSubstitute parent former replacement
  · obtain ⟨parent, can⟩ := possible
    refine ⟨parent, [former], [replacement], ?_, fun id attaches => ?_⟩
    · rw [run, can.edit_replace sound]
      exact .substituted_bound can
    · have member := attaches.1
      rwa [newcomers, if_neg can.different] at member
  · have cannot := not_exists.mp possible
    obtain ⟨freed, gathers⟩ := sound.gathers_replace_of_cannot cannot
    refine ⟨0, freed, [], gathers, fun id attaches => ?_⟩
    obtain ⟨parent, formerLinked, _⟩ := attaches.2.2
    refine attaches.mem_moved formerLinked gathers fun linked => ?_
    exact absurd linked (attaches.not_linked_of_cannot sound cannot formerLinked)

/-- Every operation but a write and a copy gathers nodes, and those that it attaches
are among them. -/
theorem exists_gathers_run (sound : forest.Sound) {operation : Operation}
    (noWrite : ∀ id, ¬ operation.Writes id) (noCopy : ¬ operation.IsCopy) :
    ∃ parent freed moved,
      (operation.base forest).Gathers (operation.run forest) parent freed moved ∧
        ∀ id, operation.Attaches forest id → id ∈ moved := by
  cases operation with
  | add kind => exact ⟨0, [], [], .refl .., fun id attaches => attaches.1⟩
  | addWithChildren kind children =>
      obtain ⟨moved, gathers⟩ := sound.gathers_addWithChildren kind children
      refine ⟨_, _, moved, gathers, fun id attaches => attaches.mem_moved rfl gathers ?_⟩
      exact fun linked => absurd linked (parentOf_push_ne_size sound kind id)
  | addProximity near children =>
      obtain ⟨moved, gathers⟩ := sound.gathers_addProximity near children
      refine ⟨_, _, moved, gathers, fun id attaches => attaches.mem_moved rfl gathers ?_⟩
      exact fun linked => absurd linked (parentOf_push_ne_size sound _ id)
  | addChild parent child => exact exists_gathers_addChild sound parent child
  | setChildren parent children =>
      rcases sound.gathers_setChildren parent children with ⟨error, refused⟩ | ⟨moved, gathers⟩
      · have same : run forest (.setChildren parent children) = forest := by rw [run, refused]
        refine exists_gathers_of_unchanged rfl same fun id attaches => ?_
        exact attaches.2.1 ⟨error, by rw [refused]⟩
      · refine ⟨_, _, moved, gathers, fun id attaches => attaches.mem_moved rfl gathers ?_⟩
        exact (sound.mem_childrenOf_iff parent id).mpr
  | detach child =>
      obtain ⟨freed, gathers⟩ := sound.gathers_detach child
      exact ⟨0, freed, [], gathers, fun id attaches => attaches.1⟩
  | setRoot root =>
      obtain ⟨freed, gathers⟩ := sound.gathers_setRoot root
      exact ⟨0, freed, [], gathers, fun id attaches => attaches.1⟩
  | replace former replacement => exact exists_gathers_replace sound former replacement
  | bindFields parent =>
      obtain ⟨moved, gathers⟩ := sound.exists_gathers_bindFields parent
      exact ⟨parent, [], moved, gathers, fun id attaches => absurd attaches.1 List.not_mem_nil⟩
  | modifyTerm id change => exact absurd ⟨change, rfl⟩ (noWrite id)
  | copyBranch id => exact absurd ⟨id, rfl⟩ noCopy

end Operation

end QueryForest
