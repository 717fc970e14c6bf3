import QueryForest.Proofs.Forest.Ancestry

/-!
# Moving nodes

The four ways in which edits change links, each as one revision of the whole
forest: a node leaves its parent, a node goes to the end of the children of
another, a node loses all its children, and a node takes the place of another
below the same parent.  Each way comes twice: as it is in a sound forest, and
as it is where lists may hold nodes that do not name their owner.  Whoever comes
under a proximity node also takes over its field, which changes the kind of one
node and no links.
-/

namespace QueryForest

theorem Arity.admits.mono {arity : Arity} {many few : Nat}
    (admitted : arity.admits many) (fewer : few ≤ many) :
    arity.admits few := by
  cases arity with
  | leaf =>
      have none : many = 0 := admitted
      exact Nat.le_zero.mp (none ▸ fewer)
  | one => exact Nat.le_trans fewer admitted
  | many => trivial

theorem Arity.admits_zero (arity : Arity) : arity.admits 0 := by
  cases arity <;> simp [Arity.admits]

/-- A kind below a proximity node, if it is one, has its field. -/
def Kind.bound (near? : Option Proximity) (kind : Kind) : Kind :=
  match near? with
  | none => kind
  | some near =>
      kind.mapTerm fun term =>
        { term with field := near.field, ignoreField := true }

@[simp]
theorem Kind.arity_mapTerm (change : Term → Term) (kind : Kind) :
    (kind.mapTerm change).arity = kind.arity := by
  cases kind <;> rfl

@[simp]
theorem Kind.arity_bound (near? : Option Proximity) (kind : Kind) :
    (kind.bound near?).arity = kind.arity := by
  cases near? with
  | none => rfl
  | some near => exact Kind.arity_mapTerm _ kind

namespace Forest

def proximityOf (forest : Forest) (id : NodeId) : Option Proximity :=
  (forest.kindOf id).bind Kind.proximity?

def severed (forest : Forest) (child : NodeId) : Forest :=
  forest.revise fun id node =>
    { kind := node.kind
      parent := if id = child then none else node.parent
      children := node.children.filter (· != child) }

def unrooted (forest : Forest) (id : NodeId) : Forest :=
  { forest with root := if forest.root = some id then none else forest.root }

def placed (forest : Forest) (parent child : NodeId) : Forest :=
  (forest.unrooted child).revise fun id node =>
    { kind := node.kind
      parent := if id = child then some parent else node.parent
      children :=
        node.children.filter (· != child) ++ if id = parent then [child] else [] }

def orphaned (forest : Forest) (parent : NodeId) : Forest :=
  forest.revise fun id node =>
    { kind := node.kind
      parent := if node.parent = some parent then none else node.parent
      children := if id = parent then [] else node.children }

def substituted (forest : Forest) (parent former replacement : NodeId) :
    Forest :=
  forest.revise fun id node =>
    { kind := node.kind
      parent :=
        if id = former then none
        else if id = replacement then some parent
        else node.parent
      children :=
        if id = parent then
          (node.children.filter (· != replacement)).map fun child =>
            if child = former then replacement else child
        else
          node.children.filter (· != replacement) }

/-- A node has left its parent; other lists may still hold it. -/
def released (forest : Forest) (child : NodeId) : Forest :=
  forest.revise fun id node =>
    { kind := node.kind
      parent := if id = child then none else node.parent
      children :=
        if forest.parentOf child = some id then node.children.filter (· != child)
        else node.children }

def attached (forest : Forest) (parent child : NodeId) : Forest :=
  (forest.unrooted child).revise fun id node =>
    { kind := node.kind
      parent := if id = child then some parent else node.parent
      children := node.children ++ if id = parent then [child] else [] }

/-- The list of a node is empty, and whoever stood there names no parent. -/
def cleared (forest : Forest) (parent : NodeId) : Forest :=
  forest.revise fun id node =>
    { kind := node.kind
      parent := if id ∈ forest.childrenOf parent then none else node.parent
      children := if id = parent then [] else node.children }

/-- A node stands at a place of a list instead of another one. -/
def supplanted (forest : Forest) (parent former replacement : NodeId) (place : Nat) :
    Forest :=
  forest.revise fun id node =>
    { kind := node.kind
      parent :=
        if id = former then none
        else if id = replacement then some parent
        else node.parent
      children :=
        if id = parent then node.children.set place replacement else node.children }

def rekinded (forest : Forest) (id : NodeId) (change : Kind → Kind) : Forest :=
  forest.revise fun other node =>
    { node with kind := if other = id then change node.kind else node.kind }

/-- A node has the field of a parent that is a proximity node. -/
def bound (forest : Forest) (parent child : NodeId) : Forest :=
  forest.rekinded child (Kind.bound (forest.proximityOf parent))

/-! ## Views -/

section Views

variable (forest : Forest) (child parent former replacement id : NodeId)

theorem unrooted_eq :
    forest.unrooted child =
      if forest.root = some child then { forest with root := none } else forest := by
  unfold unrooted
  by_cases same : forest.root = some child
  · rw [if_pos same, if_pos same]
  · rw [if_neg same, if_neg same]

@[simp]
theorem size_unrooted : (forest.unrooted child).size = forest.size :=
  rfl

@[simp]
theorem parentOf_unrooted :
    (forest.unrooted child).parentOf id = forest.parentOf id :=
  rfl

@[simp]
theorem childrenOf_unrooted :
    (forest.unrooted child).childrenOf id = forest.childrenOf id :=
  rfl

theorem parentOf_severed :
    (forest.severed child).parentOf id =
      if id = child then none else forest.parentOf id := by
  unfold severed
  rw [parentOf_revise, parentOf]
  cases forest.nodes[id]? with
  | none => simp
  | some node => simp

theorem childrenOf_severed :
    (forest.severed child).childrenOf id =
      (forest.childrenOf id).filter (· != child) := by
  unfold severed
  rw [childrenOf_revise, childrenOf]
  cases forest.nodes[id]? <;> rfl

theorem kindOf_severed :
    (forest.severed child).kindOf id = forest.kindOf id := by
  unfold severed
  rw [kindOf_revise, kindOf]

theorem parentOf_placed (inside : child < forest.size) :
    (forest.placed parent child).parentOf id =
      if id = child then some parent else forest.parentOf id := by
  unfold placed
  rw [parentOf_revise, parentOf]
  show (forest.nodes[id]?.bind _) = _
  cases present : forest.nodes[id]? with
  | none =>
      have different : id ≠ child := by
        rintro rfl
        obtain ⟨node, found⟩ := exists_node_of_lt inside
        rw [present] at found
        cases found
      simp [different]
  | some node => simp

theorem childrenOf_placed (inside : parent < forest.size) :
    (forest.placed parent child).childrenOf id =
      (forest.childrenOf id).filter (· != child)
        ++ if id = parent then [child] else [] := by
  unfold placed
  rw [childrenOf_revise, childrenOf]
  show (forest.nodes[id]?.elim [] _) = _
  cases present : forest.nodes[id]? with
  | none =>
      have different : id ≠ parent := by
        rintro rfl
        obtain ⟨node, found⟩ := exists_node_of_lt inside
        rw [present] at found
        cases found
      simp [different]
  | some node => rfl

theorem kindOf_placed :
    (forest.placed parent child).kindOf id = forest.kindOf id := by
  unfold placed
  rw [kindOf_revise, kindOf]
  rfl

theorem parentOf_orphaned :
    (forest.orphaned parent).parentOf id =
      if forest.parentOf id = some parent then none else forest.parentOf id := by
  unfold orphaned
  rw [parentOf_revise, parentOf]
  cases forest.nodes[id]? with
  | none => simp
  | some node => rfl

theorem childrenOf_orphaned :
    (forest.orphaned parent).childrenOf id =
      if id = parent then [] else forest.childrenOf id := by
  unfold orphaned
  rw [childrenOf_revise, childrenOf]
  cases forest.nodes[id]? with
  | none => simp
  | some node => rfl

theorem kindOf_orphaned :
    (forest.orphaned parent).kindOf id = forest.kindOf id := by
  unfold orphaned
  rw [kindOf_revise, kindOf]

theorem parentOf_substituted (inside : replacement < forest.size) :
    (forest.substituted parent former replacement).parentOf id =
      if id = former then none
      else if id = replacement then some parent
      else forest.parentOf id := by
  unfold substituted
  rw [parentOf_revise, parentOf]
  cases present : forest.nodes[id]? with
  | none =>
      have different : id ≠ replacement := by
        rintro rfl
        obtain ⟨node, found⟩ := exists_node_of_lt inside
        rw [present] at found
        cases found
      simp [different]
  | some node => rfl

theorem childrenOf_substituted :
    (forest.substituted parent former replacement).childrenOf id =
      if id = parent then
        ((forest.childrenOf id).filter (· != replacement)).map fun child =>
          if child = former then replacement else child
      else
        (forest.childrenOf id).filter (· != replacement) := by
  unfold substituted
  rw [childrenOf_revise, childrenOf]
  cases forest.nodes[id]? with
  | none => simp
  | some node => rfl

theorem kindOf_substituted :
    (forest.substituted parent former replacement).kindOf id =
      forest.kindOf id := by
  unfold substituted
  rw [kindOf_revise, kindOf]

theorem parentOf_released :
    (forest.released child).parentOf id =
      if id = child then none else forest.parentOf id := by
  rw [released, parentOf_revise]
  cases present : forest.nodes[id]? with
  | none => simp [parentOf, present]
  | some node => rw [parentOf_of_getElem? present, Option.bind_some]

theorem parentOf_of_released {parent : NodeId}
    (linked : (forest.released child).parentOf id = some parent) :
    id ≠ child ∧ forest.parentOf id = some parent := by
  rw [parentOf_released] at linked
  by_cases isChild : id = child
  · rw [if_pos isChild] at linked
    cases linked
  · rw [if_neg isChild] at linked
    exact ⟨isChild, linked⟩

theorem childrenOf_released :
    (forest.released child).childrenOf id =
      if forest.parentOf child = some id then (forest.childrenOf id).filter (· != child)
      else forest.childrenOf id := by
  rw [released, childrenOf_revise]
  cases present : forest.nodes[id]? with
  | none => simp [childrenOf, present]
  | some node => rw [childrenOf_of_getElem? present, Option.elim_some]

theorem kindOf_released : (forest.released child).kindOf id = forest.kindOf id := by
  rw [released, kindOf_revise, kindOf]

theorem parentOf_attached (inside : child < forest.size) :
    (forest.attached parent child).parentOf id =
      if id = child then some parent else forest.parentOf id := by
  rw [attached, parentOf_revise, ← parentOf_unrooted forest child id]
  cases present : (forest.unrooted child).nodes[id]? with
  | none =>
      have different : id ≠ child := by
        rintro rfl
        exact absurd inside (Array.getElem?_eq_none_iff.mp present).not_gt
      simp [different, parentOf, present]
  | some node => rw [parentOf_of_getElem? present, Option.bind_some]

theorem childrenOf_attached (inside : parent < forest.size) :
    (forest.attached parent child).childrenOf id =
      forest.childrenOf id ++ if id = parent then [child] else [] := by
  rw [attached, childrenOf_revise, ← childrenOf_unrooted forest child id]
  cases present : (forest.unrooted child).nodes[id]? with
  | none =>
      have different : id ≠ parent := by
        rintro rfl
        exact absurd inside (Array.getElem?_eq_none_iff.mp present).not_gt
      simp [different, childrenOf, present]
  | some node => rw [childrenOf_of_getElem? present, Option.elim_some]

theorem kindOf_attached : (forest.attached parent child).kindOf id = forest.kindOf id := by
  rw [attached, kindOf_revise]
  rfl

theorem parentOf_cleared :
    (forest.cleared parent).parentOf id =
      if id ∈ forest.childrenOf parent then none else forest.parentOf id := by
  rw [cleared, parentOf_revise]
  cases present : forest.nodes[id]? with
  | none => simp [parentOf, present]
  | some node => rw [parentOf_of_getElem? present, Option.bind_some]

theorem parentOf_of_cleared {owner : NodeId}
    (linked : (forest.cleared parent).parentOf id = some owner) :
    id ∉ forest.childrenOf parent ∧ forest.parentOf id = some owner := by
  rw [parentOf_cleared] at linked
  by_cases former : id ∈ forest.childrenOf parent
  · rw [if_pos former] at linked
    cases linked
  · rw [if_neg former] at linked
    exact ⟨former, linked⟩

/-- Who is linked after a node has gone to a parent was linked before, or is that node. -/
theorem parentOf_of_placement {forest : Forest} {parent child id owner : NodeId}
    (linked : (if id = child then some parent else forest.parentOf id) = some owner) :
    forest.parentOf id = some owner ∨ id = child ∧ owner = parent := by
  by_cases isChild : id = child
  · rw [if_pos isChild] at linked
    cases linked
    exact .inr ⟨isChild, rfl⟩
  · rw [if_neg isChild] at linked
    exact .inl linked

/-- Who is linked after one node has taken the place of another was linked before, or
is the one that has taken the place. -/
theorem parentOf_of_exchange {forest : Forest} {parent former replacement id owner : NodeId}
    (linked : (if id = former then none
      else if id = replacement then some parent
      else forest.parentOf id) = some owner) :
    forest.parentOf id = some owner ∨ id = replacement ∧ owner = parent := by
  by_cases isFormer : id = former
  · rw [if_pos isFormer] at linked
    cases linked
  · rw [if_neg isFormer] at linked
    exact parentOf_of_placement linked

theorem childrenOf_cleared :
    (forest.cleared parent).childrenOf id =
      if id = parent then [] else forest.childrenOf id := by
  rw [cleared, childrenOf_revise]
  cases present : forest.nodes[id]? with
  | none => simp [childrenOf, present]
  | some node => rw [childrenOf_of_getElem? present, Option.elim_some]

theorem kindOf_cleared : (forest.cleared parent).kindOf id = forest.kindOf id := by
  rw [cleared, kindOf_revise, kindOf]

theorem parentOf_supplanted (place : Nat) (inside : replacement < forest.size) :
    (forest.supplanted parent former replacement place).parentOf id =
      if id = former then none
      else if id = replacement then some parent
      else forest.parentOf id := by
  rw [supplanted, parentOf_revise]
  cases present : forest.nodes[id]? with
  | none =>
      have different : id ≠ replacement := by
        rintro rfl
        exact absurd inside (Array.getElem?_eq_none_iff.mp present).not_gt
      simp [different, parentOf, present]
  | some node => rw [parentOf_of_getElem? present, Option.bind_some]

theorem childrenOf_supplanted (place : Nat) :
    (forest.supplanted parent former replacement place).childrenOf id =
      if id = parent then (forest.childrenOf id).set place replacement
      else forest.childrenOf id := by
  rw [supplanted, childrenOf_revise]
  cases present : forest.nodes[id]? with
  | none => simp [childrenOf, present]
  | some node => rw [childrenOf_of_getElem? present, Option.elim_some]

theorem kindOf_supplanted (place : Nat) :
    (forest.supplanted parent former replacement place).kindOf id = forest.kindOf id := by
  rw [supplanted, kindOf_revise, kindOf]

theorem parentOf_rekinded (change : Kind → Kind) :
    (forest.rekinded child change).parentOf id = forest.parentOf id := by
  unfold rekinded
  rw [parentOf_revise, parentOf]
  cases forest.nodes[id]? <;> rfl

theorem childrenOf_rekinded (change : Kind → Kind) :
    (forest.rekinded child change).childrenOf id = forest.childrenOf id := by
  unfold rekinded
  rw [childrenOf_revise, childrenOf]

theorem kindOf_rekinded (change : Kind → Kind) :
    (forest.rekinded child change).kindOf id =
      (forest.kindOf id).map fun kind =>
        if id = child then change kind else kind := by
  unfold rekinded
  rw [kindOf_revise, kindOf, Option.map_map]
  rfl

@[simp]
theorem size_severed : (forest.severed child).size = forest.size :=
  size_revise ..

@[simp]
theorem size_placed : (forest.placed parent child).size = forest.size :=
  size_revise ..

@[simp]
theorem size_orphaned : (forest.orphaned parent).size = forest.size :=
  size_revise ..

@[simp]
theorem size_substituted :
    (forest.substituted parent former replacement).size = forest.size :=
  size_revise ..

@[simp]
theorem size_released : (forest.released child).size = forest.size :=
  size_revise ..

@[simp]
theorem size_attached : (forest.attached parent child).size = forest.size :=
  size_revise ..

@[simp]
theorem size_cleared : (forest.cleared parent).size = forest.size :=
  size_revise ..

@[simp]
theorem size_supplanted (place : Nat) :
    (forest.supplanted parent former replacement place).size = forest.size :=
  size_revise ..

@[simp]
theorem size_rekinded (change : Kind → Kind) :
    (forest.rekinded child change).size = forest.size :=
  size_revise ..

@[simp]
theorem size_bound : (forest.bound parent child).size = forest.size :=
  size_rekinded ..

theorem parentOf_bound :
    (forest.bound parent child).parentOf id = forest.parentOf id :=
  parentOf_rekinded ..

theorem childrenOf_bound :
    (forest.bound parent child).childrenOf id = forest.childrenOf id :=
  childrenOf_rekinded ..

theorem kindOf_bound :
    (forest.bound parent child).kindOf id =
      (forest.kindOf id).map fun kind =>
        if id = child then kind.bound (forest.proximityOf parent) else kind :=
  kindOf_rekinded ..

end Views

end Forest

end QueryForest
