import QueryForest.Proofs.Forest.Descent
import QueryForest.Proofs.Forest.Step

/-!
# Adding a node over others

A node that is added over nodes without a parent takes each of them up at once:
nothing was owned there before, so no other link changes.  The whole edit is
one revision of the forest with the new node behind it.
-/

namespace QueryForest

theorem Kind.proximity?_mapTerm (change : Term → Term) (kind : Kind) :
    (kind.mapTerm change).proximity? = kind.proximity? := by
  cases kind <;> rfl

@[simp]
theorem Kind.proximity?_bound (near? : Option Proximity) (kind : Kind) :
    (kind.bound near?).proximity? = kind.proximity? := by
  cases near? with
  | none => rfl
  | some near => exact Kind.proximity?_mapTerm _ kind

/-- Binding a kind twice is binding it once. -/
theorem Kind.bound_bound (near? : Option Proximity) (kind : Kind) :
    (kind.bound near?).bound near? = kind.bound near? := by
  cases near? with
  | none => rfl
  | some near =>
      cases kind with
      | leaf bottom => cases bottom <;> rfl
      | wrapper around => rfl
      | composite above => rfl
      | extension custom => rfl

namespace Forest

variable {forest : Forest}

def tookUp (forest : Forest) (parent : NodeId) (children : List NodeId) : Forest :=
  forest.revise fun id node =>
    { kind :=
        if id ∈ children then node.kind.bound (forest.proximityOf parent) else node.kind
      parent := if id ∈ children then some parent else node.parent
      children := if id = parent then node.children ++ children else node.children }

/-- Nodes that nobody owns, none of them the root. -/
structure Unowned (forest : Forest) (ids : List NodeId) : Prop where
  inside : ∀ id ∈ ids, id < forest.size
  parentless : ∀ id ∈ ids, forest.parentOf id = none
  apart : ∀ id ∈ ids, forest.root ≠ some id
  nodup : ids.Nodup

theorem proximityOf_of_same {other : Forest} {id : NodeId}
    (same : other.kindOf id = forest.kindOf id) :
    other.proximityOf id = forest.proximityOf id :=
  congrArg (Option.bind · Kind.proximity?) same

/-- One node without a parent goes to the end of the children of another. -/
theorem Sound.placed_bound (sound : forest.Sound) {parent child : NodeId}
    (different : parent ≠ child) (parentless : forest.parentOf child = none)
    (notRoot : forest.root ≠ some child) :
    (forest.placed parent child).bound parent child =
      forest.tookUp parent [child] := by
  have near : (forest.placed parent child).proximityOf parent =
      forest.proximityOf parent :=
    proximityOf_of_same (kindOf_placed ..)
  have unlisted : ∀ (id : NodeId) (node : Node), forest.nodes[id]? = some node →
      node.children.filter (· != child) = node.children := by
    intro id node present
    apply List.filter_eq_self.mpr
    intro other member
    have listed : other ∈ forest.childrenOf id := by
      rwa [childrenOf_of_getElem? present]
    have linked := (sound.mem_childrenOf_iff id other).mp listed
    have apart : other ≠ child := by
      rintro rfl
      rw [parentless] at linked
      cases linked
    simpa using apart
  have rootKept : forest.unrooted child = forest := by
    rw [unrooted_eq, if_neg notRoot]
  unfold Forest.bound Forest.rekinded
  rw [near]
  unfold Forest.placed tookUp
  rw [rootKept, revise_revise]
  apply revise_congr
  intro id node present
  rw [unlisted id node present]
  by_cases isParent : id = parent
  · subst isParent
    simp [different]
  · simp [isParent]

/-- Taking up nodes one by one is taking them up together. -/
theorem tookUp_tookUp (parent head : NodeId) (tail : List NodeId)
    (apart : parent ∉ head :: tail) :
    (forest.tookUp parent [head]).tookUp parent tail =
      forest.tookUp parent (head :: tail) := by
  have different : parent ≠ head := fun same => apart (same ▸ List.mem_cons_self)
  have near : (forest.tookUp parent [head]).proximityOf parent =
      forest.proximityOf parent := by
    apply proximityOf_of_same
    unfold tookUp kindOf
    rw [getElem?_revise, Option.map_map]
    refine congrArg (Option.map · _) (funext fun node => ?_)
    simp [different]
  unfold tookUp at near ⊢
  rw [near, revise_revise]
  apply revise_congr
  intro id node _
  by_cases isHead : id = head
  · subst isHead
    by_cases later : id ∈ tail
    · simp [later, Kind.bound_bound, Ne.symm different]
    · simp [later, Ne.symm different]
  · by_cases isParent : id = parent
    · subst isParent
      simp [isHead]
    · simp [isHead, isParent]

/-- Unowned nodes all find their place below a parent. -/
theorem CanTake.foldl_eq {parent : NodeId} {children : List NodeId}
    (canTake : forest.CanTake parent children) (unowned : forest.Unowned children) :
    children.foldl
        (fun forest child => (forest.placed parent child).bound parent child) forest =
      forest.tookUp parent children := by
  induction children generalizing forest with
  | nil =>
      refine (revise_eq_self fun id node _ => ?_).symm
      simp
  | cons head tail inductionHypothesis =>
      have headInside := unowned.inside head List.mem_cons_self
      have headless := unowned.parentless head List.mem_cons_self
      have apart : parent ∉ head :: tail := fun member =>
        canTake.apart parent member .self
      have different : parent ≠ head := fun same => apart (same ▸ List.mem_cons_self)
      have rest := canTake.adopt headInside
      have first := canTake.sound.placed_bound different headless
        (unowned.apart head List.mem_cons_self)
      rw [List.foldl_cons, first]
      rw [first] at rest
      rw [inductionHypothesis rest, tookUp_tookUp parent head tail apart]
      refine ⟨?_, ?_, ?_, (List.nodup_cons.mp unowned.nodup).2⟩
      · intro id member
        unfold tookUp
        rw [size_revise]
        exact unowned.inside id (List.mem_cons_of_mem head member)
      · intro id member
        have other : id ≠ head := fun same =>
          (List.nodup_cons.mp unowned.nodup).1 (same ▸ member)
        rw [← unowned.parentless id (List.mem_cons_of_mem head member)]
        unfold tookUp
        rw [parentOf_revise, parentOf]
        simp only [List.mem_singleton, other, if_false]
        rfl
      · exact fun id member => unowned.apart id (List.mem_cons_of_mem head member)

/-- A new node is there, above some nodes. -/
def adopted (forest : Forest) (kind : Kind) (children : List NodeId) : Forest :=
  (forest.push kind).tookUp forest.size children

theorem orphaned_eq_self (sound : forest.Sound) {parent : NodeId}
    (childless : forest.childrenOf parent = []) : forest.orphaned parent = forest := by
  apply revise_eq_self
  intro id node present
  have notLinked : node.parent ≠ some parent := by
    intro linked
    have member := (sound.mem_childrenOf_iff parent id).mpr
      ((parentOf_of_getElem? present).trans linked)
    rw [childless] at member
    cases member
  rw [if_neg notLinked]
  by_cases isParent : id = parent
  · subst isParent
    rw [childrenOf_of_getElem? present] at childless
    rw [if_pos rfl, ← childless]
  · rw [if_neg isParent]

section Adopted

variable {kind : Kind} {children : List NodeId}

theorem size_adopted : (forest.adopted kind children).size = forest.size + 1 := by
  unfold adopted tookUp
  rw [size_revise, size_push]

theorem proximityOf_push_self :
    (forest.push kind).proximityOf forest.size = kind.proximity? :=
  proximityOf_of_getElem? (getElem?_push_self forest kind)

theorem getElem?_adopted_self (inside : ∀ child ∈ children, child < forest.size) :
    (forest.adopted kind children).nodes[forest.size]? = some { kind, children } := by
  have apart : forest.size ∉ children := fun member =>
    Nat.lt_irrefl _ (inside _ member)
  unfold adopted tookUp
  rw [getElem?_revise, getElem?_push_self]
  simp [apart]

theorem getElem?_adopted_child {child : NodeId} {node : Node} (member : child ∈ children)
    (inside : child < forest.size) (present : forest.nodes[child]? = some node) :
    (forest.adopted kind children).nodes[child]? =
      some { node with
        kind := node.kind.bound kind.proximity?
        parent := some forest.size } := by
  have before : child ≠ forest.size := Nat.ne_of_lt inside
  unfold adopted tookUp
  rw [getElem?_revise, getElem?_push_of_lt inside, present, proximityOf_push_self]
  simp [member, before]

theorem getElem?_adopted_other {id : NodeId} (apart : id ∉ children)
    (inside : id < forest.size) :
    (forest.adopted kind children).nodes[id]? = forest.nodes[id]? := by
  have before : id ≠ forest.size := Nat.ne_of_lt inside
  unfold adopted tookUp
  rw [getElem?_revise, getElem?_push_of_lt inside]
  cases forest.nodes[id]? with
  | none => rfl
  | some node => simp [apart, before]

end Adopted

/-- Adding a node over unowned nodes adopts them. -/
theorem Sound.edit_addWithChildren (sound : forest.Sound) {kind : Kind}
    {children : List NodeId} (unowned : forest.Unowned children)
    (room : kind.arity.admits children.length) :
    forest.edit (Edit.addWithChildren kind children) =
      (.ok forest.size, forest.adopted kind children) := by
  have pushedSound := sound.push kind
  have present := getElem?_push_self forest kind
  have childless : (forest.push kind).childrenOf forest.size = [] :=
    childrenOf_of_getElem? present
  have apart : ∀ child ∈ children,
      ¬ (forest.push kind).IsAbove child forest.size := by
    intro child member above
    have same := above.eq_of_parentOf_none (parentOf_of_getElem? present)
    exact Nat.lt_irrefl _ (same ▸ unowned.inside child member)
  have canTake := pushedSound.canTake_orphaned present room apart
  have pushedUnowned : (forest.push kind).Unowned children := by
    refine ⟨fun id member => ?_, fun id member => ?_, unowned.apart, unowned.nodup⟩
    · rw [size_push]
      exact Nat.lt_succ_of_lt (unowned.inside id member)
    · rw [parentOf_push]
      exact unowned.parentless id member
  rw [orphaned_eq_self pushedSound childless] at canTake
  have attached := canTake.edit_forM_attach pushedUnowned.inside
  rw [canTake.foldl_eq pushedUnowned] at attached
  unfold Edit.addWithChildren
  rw [edit_bind_of_ok _ (Edit.run_add forest kind)]
  have set : (forest.push kind).edit (Edit.setChildren forest.size children) =
      (.ok (), forest.adopted kind children) := by
    rw [pushedSound.edit_setChildren_of_free present room apart unowned.nodup,
      orphaned_eq_self pushedSound childless, attached]
    rfl
  rw [edit_bind_of_ok _ set, edit_pure]

/-- Changing some kinds does not change what a node asks of its children if no change
does. -/
theorem proximityOf_of_map {other : Forest} {id : NodeId} {member : Prop} [Decidable member]
    {change : Kind → Kind}
    (known : other.kindOf id = (forest.kindOf id).map fun kind =>
      if member then change kind else kind)
    (kept : ∀ kind, (change kind).proximity? = kind.proximity?) :
    other.proximityOf id = forest.proximityOf id := by
  unfold proximityOf
  rw [known]
  cases forest.kindOf id with
  | none => rfl
  | some kind =>
      rw [Option.map_some, Option.bind_some, Option.bind_some]
      split
      · exact kept kind
      · rfl

/-- Lending a field to nodes one by one is lending it to all of them. -/
theorem edit_forM_bindField {parent : NodeId} {children : List NodeId}
    (parentInside : parent < forest.size) (inside : ∀ child ∈ children, child < forest.size) :
    forest.edit (children.forM (Edit.bindField parent)) =
      (.ok (), forest.revise fun id node =>
        { node with
          kind :=
            if id ∈ children then node.kind.bound (forest.proximityOf parent)
            else node.kind }) := by
  induction children generalizing forest with
  | nil =>
      refine congrArg (Prod.mk _) (revise_eq_self fun id node _ => ?_).symm
      simp
  | cons head tail inductionHypothesis =>
      have rest := @inductionHypothesis (forest.bound parent head) (by rwa [size_bound])
        fun child member => by
          rw [size_bound]
          exact inside child (List.mem_cons_of_mem head member)
      rw [List.forM,
        edit_bind_of_ok _ (edit_bindField parentInside (inside head List.mem_cons_self)),
        rest, proximityOf_of_map (kindOf_bound ..) (Kind.proximity?_bound _)]
      unfold Forest.bound Forest.rekinded
      rw [revise_revise]
      refine congrArg (Prod.mk _) (revise_congr fun id node _ => ?_)
      by_cases isHead : id = head
      · simp [isHead, Kind.bound_bound]
      · simp [isHead]

/-- Children that have the field of a proximity node already are left alone. -/
theorem edit_forM_bindField_of_bound {parent : NodeId} {children : List NodeId}
    (parentInside : parent < forest.size)
    (bound : ∀ child ∈ children, ∃ kind, forest.kindOf child = some kind ∧
      kind.bound (forest.proximityOf parent) = kind) :
    forest.edit (children.forM (Edit.bindField parent)) = (.ok (), forest) := by
  rw [edit_forM_bindField parentInside fun child member => ?_]
  · refine congrArg (Prod.mk _) (revise_eq_self fun id node present => ?_)
    by_cases member : id ∈ children
    · obtain ⟨kind, known, same⟩ := bound id member
      rw [kindOf_of_getElem? present] at known
      cases known
      rw [if_pos member, same]
    · rw [if_neg member]
  · obtain ⟨kind, known, _⟩ := bound child member
    obtain ⟨node, present, _⟩ := Option.map_eq_some_iff.mp known
    exact lt_size_of_getElem? present

/-- Adding a proximity node over unowned nodes adopts them: whoever is adopted
has its field already when all are given it. -/
theorem Sound.edit_addProximity (sound : forest.Sound) (near : Proximity)
    {children : List NodeId} (unowned : forest.Unowned children) :
    forest.edit (Edit.addProximity near children) =
      (.ok forest.size, forest.adopted (.composite (.proximity near)) children) := by
  have present : (forest.adopted (.composite (.proximity near)) children).nodes[
      forest.size]? = some { kind := .composite (.proximity near), children } :=
    getElem?_adopted_self unowned.inside
  have boundAlready : ∀ child ∈ children, ∃ kind,
      (forest.adopted (.composite (.proximity near)) children).kindOf child = some kind ∧
        kind.bound ((forest.adopted (.composite (.proximity near)) children).proximityOf
          forest.size) = kind := by
    intro child member
    have inside := unowned.inside child member
    obtain ⟨node, childPresent⟩ := exists_node_of_lt inside
    refine ⟨_, kindOf_of_getElem? (getElem?_adopted_child member inside childPresent), ?_⟩
    rw [proximityOf_of_getElem? present]
    exact Kind.bound_bound _ _
  have rebound := edit_forM_bindField_of_bound (lt_size_of_getElem? present) boundAlready
  have room : (Kind.composite (.proximity near)).arity.admits children.length := trivial
  unfold Edit.addProximity
  rw [edit_bind_of_ok _ (sound.edit_addWithChildren unowned room)]
  have bound : (forest.adopted (.composite (.proximity near)) children).edit
      (Edit.bindFields forest.size) =
        (.ok (), forest.adopted (.composite (.proximity near)) children) := by
    unfold Edit.bindFields
    rw [edit_bind_of_ok _ (edit_node_of_some present)]
    exact rebound
  rw [edit_bind_of_ok _ bound, edit_pure]

end Forest

end QueryForest
