import QueryForest.Proofs.Forest.Adoption
import QueryForest.Proofs.Forest.Copying

/-!
# Terms in step with their parents

A term below a proximity node is in step when it has the field of that node and
leaves it to the node to write it.  What an edit does to links and terms is that
some nodes lose their parent and others come below one parent, which lends them
its field.  So whoever comes below a parent is in step there, and whoever was in
step stays so.
-/

namespace QueryForest

namespace Kind

theorem mapTerm_eq_self_iff {change : Term → Term} {kind : Kind} :
    kind.mapTerm change = kind ↔ ∀ term, kind.term? = some term → change term = term := by
  cases kind with
  | leaf bottom => cases bottom <;> simp [mapTerm, Leaf.mapTerm, term?, Leaf.term?]
  | wrapper _ | composite _ | extension _ => simp [mapTerm, term?]

theorem bound_eq_self_iff {near : Proximity} {kind : Kind} :
    kind.bound (some near) = kind ↔
      ∀ term, kind.term? = some term → term.field = near.field ∧ term.ignoreField = true := by
  rw [bound, mapTerm_eq_self_iff]
  refine forall₂_congr fun term _ => ?_
  rcases term with ⟨field, text, position, start, stop, ignoreField⟩
  simp [eq_comm]

theorem bound_of_term?_eq_none {kind : Kind} (termless : kind.term? = none)
    (near? : Option Proximity) : kind.bound near? = kind := by
  cases near? with
  | none => rfl
  | some near =>
      rw [bound_eq_self_iff, termless]
      exact nofun

end Kind

namespace Forest

variable {forest after : Forest}

def termOf (forest : Forest) (id : NodeId) : Option Term :=
  (forest.kindOf id).bind Kind.term?

/-- The nearness that the parent of a node asks for, if that is a proximity node. -/
def lenderOf (forest : Forest) (id : NodeId) : Option Proximity :=
  (forest.parentOf id).bind forest.proximityOf

/-- A term below a proximity node has the field of that node, or none if the node
has none, and leaves it to the node to write the field. -/
def InStep (forest : Forest) (id : NodeId) : Prop :=
  ∀ near term, forest.lenderOf id = some near → forest.termOf id = some term →
    term.field = near.field ∧ term.ignoreField = true

theorem inStep_of_lenderOf_none {id : NodeId} (alone : forest.lenderOf id = none) :
    forest.InStep id := by
  intro near term lent
  rw [alone] at lent
  cases lent

/-- A node is in step exactly when nothing would change if its parent lent it the
field again. -/
theorem inStep_iff_bound {id : NodeId} {kind : Kind} (known : forest.kindOf id = some kind) :
    forest.InStep id ↔ kind.bound (forest.lenderOf id) = kind := by
  cases lent : forest.lenderOf id with
  | none => exact iff_of_true (inStep_of_lenderOf_none lent) rfl
  | some near =>
      rw [Kind.bound_eq_self_iff]
      unfold InStep termOf
      rw [lent, known]
      constructor
      · exact fun inStep term termed => inStep near term rfl termed
      · intro inStep _ term same termed
        cases same
        exact inStep term termed

/-! ## What edits do to terms and their parents -/

/-- Some nodes are freed from their parents, and others are moved below one parent,
which lends its field to them.  Nothing else changes about kinds and parents. -/
structure Gathers (forest after : Forest) (parent : NodeId) (freed moved : List NodeId) :
    Prop where
  kindOf : ∀ id, after.kindOf id = (forest.kindOf id).map fun kind =>
    if id ∈ moved then kind.bound (forest.proximityOf parent) else kind
  parentOf : ∀ id, after.parentOf id =
    if id ∈ moved then some parent else if id ∈ freed then none else forest.parentOf id

namespace Gathers

variable {parent : NodeId} {freed moved : List NodeId}

theorem proximityOf (gathers : forest.Gathers after parent freed moved) (id : NodeId) :
    after.proximityOf id = forest.proximityOf id :=
  proximityOf_of_map (gathers.kindOf id) (Kind.proximity?_bound _)

theorem lenderOf (gathers : forest.Gathers after parent freed moved) (id : NodeId) :
    after.lenderOf id =
      if id ∈ moved then forest.proximityOf parent
      else if id ∈ freed then none
      else forest.lenderOf id := by
  have same : after.proximityOf = forest.proximityOf := funext gathers.proximityOf
  unfold Forest.lenderOf
  rw [gathers.parentOf, same]
  by_cases isMoved : id ∈ moved
  · rw [if_pos isMoved, if_pos isMoved, Option.bind_some]
  · rw [if_neg isMoved, if_neg isMoved]
    by_cases isFreed : id ∈ freed
    · rw [if_pos isFreed, if_pos isFreed, Option.bind_none]
    · rw [if_neg isFreed, if_neg isFreed]

/-- Whoever is moved is in step with the new parent. -/
theorem inStep_of_mem (gathers : forest.Gathers after parent freed moved) {id : NodeId}
    (member : id ∈ moved) : after.InStep id := by
  cases known : after.kindOf id with
  | none =>
      intro near term _ termed
      rw [termOf, known] at termed
      cases termed
  | some kind =>
      rw [inStep_iff_bound known, gathers.lenderOf, if_pos member]
      have becomes := gathers.kindOf id
      rw [known] at becomes
      obtain ⟨former, _, rfl⟩ := Option.map_eq_some_iff.mp becomes.symm
      rw [if_pos member, Kind.bound_bound]

theorem termOf_of_not_mem (gathers : forest.Gathers after parent freed moved) {id : NodeId}
    (apart : id ∉ moved) : after.termOf id = forest.termOf id := by
  unfold termOf
  rw [gathers.kindOf]
  simp only [apart, if_false, Option.map_id']

/-- Whoever is in step stays so. -/
theorem inStep (gathers : forest.Gathers after parent freed moved) {id : NodeId}
    (before : forest.InStep id) : after.InStep id := by
  by_cases isMoved : id ∈ moved
  · exact gathers.inStep_of_mem isMoved
  · by_cases isFreed : id ∈ freed
    · apply inStep_of_lenderOf_none
      rw [gathers.lenderOf, if_neg isMoved, if_pos isFreed]
    · intro near term lent termed
      rw [gathers.lenderOf, if_neg isMoved, if_neg isFreed] at lent
      rw [gathers.termOf_of_not_mem isMoved] at termed
      exact before near term lent termed

/-- Gathering more nodes below the same parent is gathering all of them. -/
theorem trans {last : Forest} {others : List NodeId}
    (first : forest.Gathers after parent freed moved)
    (second : after.Gathers last parent [] others) :
    forest.Gathers last parent freed (moved ++ others) where
  kindOf id := by
    rw [second.kindOf, first.kindOf, first.proximityOf, Option.map_map]
    refine congrArg (Option.map · _) (funext fun kind => ?_)
    by_cases later : id ∈ others
    · by_cases earlier : id ∈ moved
      · simp [later, earlier, Kind.bound_bound]
      · simp [later, earlier]
    · by_cases earlier : id ∈ moved
      · simp [later, earlier]
      · simp [later, earlier]
  parentOf id := by
    rw [second.parentOf, first.parentOf]
    by_cases later : id ∈ others
    · simp [later]
    · simp [later]

theorem refl (forest : Forest) (parent : NodeId) : forest.Gathers forest parent [] [] where
  kindOf id := by simp
  parentOf id := by simp

theorem severed (forest : Forest) (parent child : NodeId) :
    forest.Gathers (forest.severed child) parent [child] [] where
  kindOf id := by
    rw [kindOf_severed]
    simp
  parentOf id := by
    rw [parentOf_severed]
    simp

theorem rooted (forest : Forest) (parent root : NodeId) :
    forest.Gathers { forest.severed root with root := some root } parent [root] [] where
  kindOf := (severed forest parent root).kindOf
  parentOf := (severed forest parent root).parentOf

theorem orphaned (sound : forest.Sound) (parent : NodeId) :
    forest.Gathers (forest.orphaned parent) parent (forest.childrenOf parent) [] where
  kindOf id := by
    rw [kindOf_orphaned]
    simp
  parentOf id := by
    rw [parentOf_orphaned]
    simp only [List.not_mem_nil, if_false, sound.mem_childrenOf_iff]

theorem placed_bound {child : NodeId} (inside : child < forest.size) :
    forest.Gathers ((forest.placed parent child).bound parent child) parent [] [child] where
  kindOf id := by
    rw [kindOf_bound, kindOf_placed, proximityOf_of_same (kindOf_placed ..)]
    simp only [List.mem_singleton]
  parentOf id := by
    rw [parentOf_bound, parentOf_placed _ _ _ _ inside]
    simp only [List.mem_singleton, List.not_mem_nil, if_false]

theorem bound {child : NodeId} (linked : forest.parentOf child = some parent) :
    forest.Gathers (forest.bound parent child) parent [] [child] where
  kindOf id := by
    rw [kindOf_bound]
    simp only [List.mem_singleton]
  parentOf id := by
    rw [parentOf_bound]
    by_cases same : id = child
    · simp [same, linked]
    · simp [same]

theorem substituted_bound {former replacement : NodeId}
    (can : forest.CanSubstitute parent former replacement) :
    forest.Gathers ((forest.substituted parent former replacement).bound parent replacement)
      parent [former] [replacement] where
  kindOf id := by
    rw [kindOf_bound, kindOf_substituted, proximityOf_of_same (kindOf_substituted ..)]
    simp only [List.mem_singleton]
  parentOf id := by
    rw [parentOf_bound, parentOf_substituted _ _ _ _ _ can.inside]
    simp only [List.mem_singleton]
    by_cases isReplacement : id = replacement
    · simp [isReplacement, Ne.symm can.different]
    · simp [isReplacement]

end Gathers

/-- Writing into the term of one node leaves all others in step that are so. -/
theorem inStep_rekinded {id other : NodeId} (apart : id ≠ other) (change : Term → Term)
    (before : forest.InStep id) : (forest.rekinded other (Kind.mapTerm change)).InStep id := by
  have known := fun id => kindOf_rekinded forest other id (Kind.mapTerm change)
  have lenders : (forest.rekinded other (Kind.mapTerm change)).proximityOf =
      forest.proximityOf :=
    funext fun id => proximityOf_of_map (known id) (Kind.proximity?_mapTerm change)
  intro near term lent termed
  rw [lenderOf, parentOf_rekinded, lenders] at lent
  rw [termOf, known] at termed
  simp only [apart, if_false, Option.map_id'] at termed
  exact before near term lent termed

theorem lenderOf_push (sound : forest.Sound) (kind : Kind) (id : NodeId) :
    (forest.push kind).lenderOf id = forest.lenderOf id := by
  unfold lenderOf
  rw [parentOf_push]
  cases linked : forest.parentOf id with
  | none => rfl
  | some parent =>
      exact proximityOf_of_same (kindOf_push_of_lt (sound.parent_lt linked))

theorem Sound.inStep_push (sound : forest.Sound) (kind : Kind) {id : NodeId}
    (before : forest.InStep id) : (forest.push kind).InStep id := by
  intro near term lent termed
  rw [lenderOf_push sound] at lent
  obtain ⟨parent, linked, _⟩ := Option.bind_eq_some_iff.mp lent
  rw [termOf, kindOf_push_of_lt (lt_size_of_parentOf linked)] at termed
  exact before near term lent termed

namespace Copies

variable {copy : Forest} {names : List NodeId}

theorem termOf (copies : forest.Copies copy names) {place name : NodeId}
    (named : names[place]? = some name) : copy.termOf place = forest.termOf name :=
  congrArg (Option.bind · Kind.term?) (copies.kindOf place name named)

/-- A node of a copy that has a parent is lent what its original is lent. -/
theorem lenderOf (copies : forest.Copies copy names) (sound : forest.Sound)
    (copySound : copy.Sound) {place parent name : NodeId} (named : names[place]? = some name)
    (linked : copy.parentOf place = some parent) : copy.lenderOf place = forest.lenderOf name := by
  obtain ⟨same, original, sameNamed, parentNamed, originalLinked⟩ :=
    copies.parentOf sound copySound linked
  cases named.symm.trans sameNamed
  unfold Forest.lenderOf
  rw [linked, originalLinked]
  exact congrArg (Option.bind · Kind.proximity?) (copies.kindOf parent original parentNamed)

theorem inStep (copies : forest.Copies copy names) (sound : forest.Sound)
    (copySound : copy.Sound) (before : ∀ id, forest.InStep id) (place : NodeId) :
    copy.InStep place := by
  intro near term lent termed
  obtain ⟨parent, linked, _⟩ := Option.bind_eq_some_iff.mp lent
  obtain ⟨name, named⟩ := copies.exists_name (lt_size_of_parentOf linked)
  rw [copies.lenderOf sound copySound named linked] at lent
  rw [copies.termOf named] at termed
  exact before name near term lent termed

end Copies

section Joined

variable {other : Forest}

theorem termOf_joined_left {id : NodeId} (inside : id < forest.size) :
    (forest.joined other).termOf id = forest.termOf id :=
  congrArg (Option.bind · Kind.term?) (kindOf_joined_left forest other inside)

theorem termOf_joined_right (id : NodeId) :
    (forest.joined other).termOf (id + forest.size) = other.termOf id :=
  congrArg (Option.bind · Kind.term?) (kindOf_joined_right forest other id)

theorem Sound.lenderOf_joined_left (sound : forest.Sound) {id : NodeId}
    (inside : id < forest.size) : (forest.joined other).lenderOf id = forest.lenderOf id := by
  unfold lenderOf
  rw [parentOf_joined_left forest other inside]
  cases linked : forest.parentOf id with
  | none => rfl
  | some parent =>
      exact proximityOf_of_same (kindOf_joined_left forest other (sound.parent_lt linked))

theorem lenderOf_joined_right (id : NodeId) :
    (forest.joined other).lenderOf (id + forest.size) = other.lenderOf id := by
  unfold lenderOf
  rw [parentOf_joined_right]
  cases other.parentOf id with
  | none => rfl
  | some parent =>
      exact congrArg (Option.bind · Kind.proximity?) (kindOf_joined_right forest other parent)

theorem Sound.inStep_joined (sound : forest.Sound) (before : ∀ id, forest.InStep id)
    (otherBefore : ∀ id, other.InStep id) (id : NodeId) : (forest.joined other).InStep id := by
  rcases lt_or_exists_add forest.size id with inside | ⟨place, rfl⟩
  · unfold InStep
    rw [sound.lenderOf_joined_left inside, termOf_joined_left inside]
    exact before id
  · unfold InStep
    rw [lenderOf_joined_right, termOf_joined_right]
    exact otherBefore place

end Joined

/-- Where all terms are in step, they are so after every plain step. -/
theorem Step.inStep (step : forest.Step after) (sound : forest.Sound)
    (before : ∀ id, forest.InStep id) (id : NodeId) : after.InStep id := by
  cases step with
  | pushed kind => exact sound.inStep_push kind (before id)
  | severed child => exact (Gathers.severed forest 0 child).inStep (before id)
  | rooted _ => exact (Gathers.rooted forest 0 _).inStep (before id)
  | placed _ childInside _ _ => exact (Gathers.placed_bound childInside).inStep (before id)
  | orphaned parent => exact (Gathers.orphaned sound parent).inStep (before id)
  | bound linked => exact (Gathers.bound linked).inStep (before id)
  | copied read =>
      have mirrors := (mirrors_of_branchWithin read).2
      exact sound.inStep_joined before
        ((copies_toForest mirrors).inStep sound (mirrors.sound_toForest sound) before) id

theorem Steps.inStep (steps : forest.Steps after) (sound : forest.Sound)
    (before : ∀ id, forest.InStep id) : ∀ id, after.InStep id := by
  induction steps with
  | refl => exact before
  | tail earlier last inductionHypothesis =>
      exact last.inStep (Steps.sound earlier sound) inductionHypothesis

/-- A node has lent its field to all its children. -/
def rebound (forest : Forest) (parent : NodeId) : Forest :=
  forest.revise fun _ node =>
    { node with
      kind :=
        if node.parent = some parent then node.kind.bound (forest.proximityOf parent)
        else node.kind }

/-- Lending a field again is lending it to all children at once. -/
theorem Sound.edit_bindFields (sound : forest.Sound) {parent : NodeId}
    (inside : parent < forest.size) :
    forest.edit (Edit.bindFields parent) = (.ok (), forest.rebound parent) := by
  obtain ⟨node, present⟩ := exists_node_of_lt inside
  have near := proximityOf_of_getElem? present
  unfold Edit.bindFields
  rw [edit_bind_of_ok _ (edit_node_of_some present)]
  by_cases lends : node.kind.proximity?.isSome
  · have listed := childrenOf_of_getElem? present
    rw [if_pos lends, edit_forM_bindField inside fun child member =>
      sound.child_lt (listed.symm ▸ member)]
    refine congrArg (Prod.mk _) (revise_congr fun id other found => ?_)
    have owned : id ∈ node.children ↔ other.parent = some parent := by
      rw [← listed, sound.mem_childrenOf_iff, parentOf_of_getElem? found]
    simp only [owned]
  · have nothing : forest.proximityOf parent = none := by
      rw [near]
      exact Option.not_isSome_iff_eq_none.mp lends
    rw [if_neg lends]
    refine congrArg (Prod.mk _) (revise_eq_self fun id other _ => ?_).symm
    rw [nothing]
    simp only [Kind.bound, ite_self]

theorem edit_bindFields_outside {parent : NodeId} (outside : ¬ parent < forest.size) :
    forest.edit (Edit.bindFields parent) =
      (.error (.breach (.missing parent forest.size)), forest) := by
  unfold Edit.bindFields
  rw [edit_bind_of_error _ (edit_node_of_none (getElem?_of_not_lt outside))]

theorem parentOf_rebound (forest : Forest) (parent id : NodeId) :
    (forest.rebound parent).parentOf id = forest.parentOf id := by
  unfold rebound
  rw [parentOf_revise, parentOf]
  rfl

theorem Gathers.rebound (sound : forest.Sound) (parent : NodeId) :
    forest.Gathers (forest.rebound parent) parent [] (forest.childrenOf parent) where
  kindOf id := by
    unfold Forest.rebound Forest.kindOf
    rw [getElem?_revise, Option.map_map, Option.map_map]
    cases present : forest.nodes[id]? with
    | none => rfl
    | some node =>
        simp only [Option.map_some, Function.comp_apply, sound.mem_childrenOf_iff,
          parentOf_of_getElem? present]
  parentOf id := by
    rw [parentOf_rebound]
    by_cases linked : forest.parentOf id = some parent
    · simp [sound.mem_childrenOf_iff, linked]
    · simp [sound.mem_childrenOf_iff, linked]

/-- Where all terms are in step, lending a field again changes nothing. -/
theorem rebound_eq_self (inStep : ∀ id, forest.InStep id) (parent : NodeId) :
    forest.rebound parent = forest := by
  apply revise_eq_self
  intro id node present
  by_cases linked : node.parent = some parent
  · have same := (inStep_iff_bound (kindOf_of_getElem? present)).mp (inStep id)
    rw [lenderOf, parentOf_of_getElem? present, linked, Option.bind_some] at same
    rw [if_pos linked, same]
  · rw [if_neg linked]

/-- A forest is as it was, except that the terms directly below one node are in step
with it again. -/
structure Restores (forest after : Forest) (parent : NodeId) : Prop where
  root : after.root = forest.root
  size : after.size = forest.size
  parentOf : ∀ id, after.parentOf id = forest.parentOf id
  childrenOf : ∀ id, after.childrenOf id = forest.childrenOf id
  inStep : ∀ id, forest.parentOf id = some parent → after.InStep id
  kept : ∀ id, forest.parentOf id ≠ some parent ∨ forest.termOf id = none ∨
    forest.proximityOf parent = none → after.nodes[id]? = forest.nodes[id]?

theorem Sound.restores_rebound (sound : forest.Sound) (parent : NodeId) :
    forest.Restores (forest.rebound parent) parent where
  root := root_revise ..
  size := size_revise ..
  parentOf id := parentOf_rebound ..
  childrenOf id := by
    unfold rebound
    rw [childrenOf_revise, Forest.childrenOf]
  inStep id linked := by
    apply (Gathers.rebound sound parent).inStep_of_mem
    rwa [sound.mem_childrenOf_iff]
  kept id apart := by
    unfold rebound
    rw [getElem?_revise]
    cases present : forest.nodes[id]? with
    | none => rfl
    | some node =>
        have same : (if node.parent = some parent then
            node.kind.bound (forest.proximityOf parent) else node.kind) = node.kind := by
          rw [parentOf_of_getElem? present, termOf, kindOf_of_getElem? present] at apart
          rcases apart with elsewhere | termless | nothing
          · rw [if_neg elsewhere]
          · rw [Kind.bound_of_term?_eq_none termless, ite_self]
          · rw [nothing]
            exact ite_self _
        rw [Option.map_some, same]

end Forest

end QueryForest
