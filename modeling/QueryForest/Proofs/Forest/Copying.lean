import QueryForest.Proofs.Forest.Within

/-!
# What copies hold

A copy has the nodes of a branch in pre-order.  Read back from its arena, the
branch has new names, counted up in that order, and nothing around it, but the
same kinds and the same children in the same order.
-/

namespace QueryForest

namespace Branch

mutual

/-- All branches within a branch, a parent before its children. -/
def preOrder : Branch → List Branch
  | .node id kind enclosing children =>
      .node id kind enclosing children :: preOrderOfAll children
termination_by structural branch => branch

def preOrderOfAll : List Branch → List Branch
  | [] => []
  | head :: tail => head.preOrder ++ preOrderOfAll tail
termination_by structural branches => branches

end

theorem preOrder_eq (branch : Branch) :
    branch.preOrder = branch :: preOrderOfAll branch.children := by
  cases branch with
  | node id kind enclosing children => rw [preOrder, Branch.children]

mutual

theorem perm_preOrder_postOrder : (branch : Branch) →
    branch.preOrder.Perm branch.postOrder
  | .node id kind enclosing children => by
      rw [preOrder, postOrder]
      exact ((perm_preOrderOfAll_postOrderOfAll children).cons _).trans
        (List.perm_append_singleton _ _).symm

theorem perm_preOrderOfAll_postOrderOfAll : (branches : List Branch) →
    (preOrderOfAll branches).Perm (postOrderOfAll branches)
  | [] => .nil
  | head :: tail => by
      rw [preOrderOfAll, postOrderOfAll]
      exact (perm_preOrder_postOrder head).append (perm_preOrderOfAll_postOrderOfAll tail)

end

theorem length_preOrder (branch : Branch) : branch.preOrder.length = branch.size := by
  rw [branch.perm_preOrder_postOrder.length_eq, length_postOrder]

/-- The names of the nodes of a branch in pre-order. -/
def names (branch : Branch) : List NodeId :=
  branch.preOrder.map id

theorem perm_names (branch : Branch) : branch.names.Perm (branch.postOrder.map id) :=
  branch.perm_preOrder_postOrder.map id

theorem drop_children {order rest : List Branch} {branch : Branch} {start : Nat}
    (standing : order.drop start = branch.preOrder ++ rest) :
    order.drop (start + 1) = preOrderOfAll branch.children ++ rest := by
  rw [← List.drop_drop, standing, preOrder_eq]
  rfl

theorem drop_size {order rest : List Branch} {branch : Branch} {start : Nat}
    (standing : order.drop start = branch.preOrder ++ rest) :
    order.drop (start + branch.size) = rest := by
  rw [← List.drop_drop, standing, ← length_preOrder, List.drop_left]

theorem getElem?_of_drop {order rest : List Branch} {branch : Branch} {start : Nat}
    (standing : order.drop start = branch.preOrder ++ rest) : order[start]? = some branch := by
  have first := congrArg (·[0]?) standing
  rw [preOrder_eq] at first
  simpa using first

mutual

/-- What stands somewhere in a pre-order is followed by all that is within it. -/
theorem drop_preOrder : (branch : Branch) → {place : Nat} → {part : Branch} →
    branch.preOrder[place]? = some part →
      ∃ rest, branch.preOrder.drop place = part.preOrder ++ rest
  | .node id kind enclosing children, 0, part, standing => by
      rw [preOrder] at standing
      cases standing
      exact ⟨[], (List.append_nil _).symm⟩
  | .node id kind enclosing children, place + 1, part, standing => by
      rw [preOrder] at standing ⊢
      exact drop_preOrderOfAll children standing

theorem drop_preOrderOfAll : (branches : List Branch) → {place : Nat} → {part : Branch} →
    (preOrderOfAll branches)[place]? = some part →
      ∃ rest, (preOrderOfAll branches).drop place = part.preOrder ++ rest
  | [], place, part, standing => by
      rw [preOrderOfAll] at standing
      cases standing
  | head :: tail, place, part, standing => by
      rw [preOrderOfAll] at standing ⊢
      rcases Nat.lt_or_ge place head.preOrder.length with early | late
      · rw [List.getElem?_append_left early] at standing
        obtain ⟨rest, dropped⟩ := drop_preOrder head standing
        refine ⟨rest ++ preOrderOfAll tail, ?_⟩
        rw [List.drop_append_of_le_length (Nat.le_of_lt early), dropped, List.append_assoc]
      · rw [List.getElem?_append_right late] at standing
        obtain ⟨rest, dropped⟩ := drop_preOrderOfAll tail standing
        refine ⟨rest, ?_⟩
        rw [List.drop_append, List.drop_eq_nil_of_le late, List.nil_append, dropped]

end

/-- In a copy of a branch all nodes but the first have a parent. -/
theorem Mirrors.exists_parentOf_toForest {forest : Forest} {branch : Branch}
    (mirrors : branch.Mirrors forest) (sound : forest.Sound) {place : NodeId}
    (inside : place < branch.toForest.size) (later : place ≠ 0) :
    ∃ parent, branch.toForest.parentOf place = some parent := by
  have whole := segment_layOut sound.anchored branch mirrors 0 none branch.holds_toForest
  rw [Nat.zero_add, ← size_toForest] at whole
  obtain ⟨owner, _, linked, _⟩ := whole.owned place (Nat.zero_le _) inside
    fun first => later (List.mem_singleton.mp first)
  exact ⟨owner, linked⟩

/-! ## New names -/

mutual

/-- A branch with new names in pre-order from a place on, below a node of some
kind or none. -/
def relaid (start : NodeId) (enclosing : Option Kind) : Branch → Branch
  | .node _ kind _ children =>
      .node start kind enclosing (relaidAll (start + 1) kind children)
termination_by structural branch => branch

def relaidAll (start : NodeId) (kind : Kind) : List Branch → List Branch
  | [] => []
  | head :: tail =>
      head.relaid start (some kind) :: relaidAll (start + head.size) kind tail
termination_by structural branches => branches

end

@[simp]
theorem id_relaid (start : NodeId) (enclosing : Option Kind) (branch : Branch) :
    (branch.relaid start enclosing).id = start := by
  cases branch with
  | node id kind around children => rw [relaid, Branch.id]

@[simp]
theorem kind_relaid (start : NodeId) (enclosing : Option Kind) (branch : Branch) :
    (branch.relaid start enclosing).kind = branch.kind := by
  cases branch with
  | node id kind around children => rw [relaid, Branch.kind, Branch.kind]

theorem children_relaid (start : NodeId) (enclosing : Option Kind) (branch : Branch) :
    (branch.relaid start enclosing).children =
      relaidAll (start + 1) branch.kind branch.children := by
  cases branch with
  | node id kind around children => rw [relaid]; rfl

theorem map_id_relaidAll (start : NodeId) (kind : Kind) (branches : List Branch) :
    (relaidAll start kind branches).map id = places start branches := by
  induction branches generalizing start with
  | nil => rfl
  | cons head tail inductionHypothesis =>
      rw [relaidAll, List.map_cons, id_relaid, inductionHypothesis, places]

/-- Where several branches come one after the other in pre-order, the new name of
each is its place there. -/
theorem forall₂_relaidAll {order branches rest : List Branch} {start : Nat}
    (standing : order.drop start = preOrderOfAll branches ++ rest) (kind : Kind) :
    List.Forall₂ (fun branch twin => twin.kind = branch.kind ∧ order[twin.id]? = some branch)
      branches (relaidAll start kind branches) := by
  induction branches generalizing start with
  | nil => exact .nil
  | cons head tail inductionHypothesis =>
      rw [preOrderOfAll, List.append_assoc] at standing
      refine .cons ⟨kind_relaid .., ?_⟩ (inductionHypothesis (drop_size standing))
      rw [id_relaid]
      exact getElem?_of_drop standing

theorem forall₂_children_relaid {order rest : List Branch} {part : Branch} {place : Nat}
    (standing : order.drop place = part.preOrder ++ rest) (enclosing : Option Kind) :
    List.Forall₂ (fun child twin => twin.kind = child.kind ∧ order[twin.id]? = some child)
      part.children (part.relaid place enclosing).children := by
  rw [children_relaid]
  exact forall₂_relaidAll (drop_children standing) part.kind

variable {forest : Forest}

mutual

/-- Where a branch is laid out, the forest shows it with its new names. -/
theorem mirrors_relaid : (branch : Branch) → {start : NodeId} → {parent : Option NodeId} →
    {enclosing : Option Kind} → forest.Holds start (branch.layOut start parent) →
      parent.bind forest.kindOf = enclosing → (branch.relaid start enclosing).Mirrors forest
  | .node id kind around children, start, parent, enclosing, holds, encloses => by
      rw [layOut] at holds
      have present := holds.head
      have known := Forest.kindOf_of_getElem? present
      rw [relaid]
      refine .node known ?_ ?_ ?_
      · rwa [Forest.parentOf_of_getElem? present]
      · rw [Forest.childrenOf_of_getElem? present, map_id_relaidAll]
      · exact mirrors_relaidAll children holds.tail known

theorem mirrors_relaidAll : (branches : List Branch) → {start parent : NodeId} → {kind : Kind} →
    forest.Holds start (layOutAll start parent branches) → forest.kindOf parent = some kind →
      ∀ branch ∈ relaidAll start kind branches, branch.Mirrors forest
  | [], start, parent, kind, _, _ => by
      rw [relaidAll]
      exact fun _ member => nomatch member
  | head :: tail, start, parent, kind, holds, known => by
      rw [layOutAll] at holds
      have rest := holds.right
      rw [length_layOut] at rest
      rw [relaidAll, List.forall_mem_cons]
      exact ⟨mirrors_relaid head holds.left known, mirrors_relaidAll tail rest known⟩

end

mutual

/-- A forest that shows a branch with new names shows all that is within it, each
at its place. -/
theorem Mirrors.relaid_within : (branch : Branch) → {start : NodeId} →
    {enclosing : Option Kind} → (branch.relaid start enclosing).Mirrors forest →
      {place : Nat} → {part : Branch} → branch.preOrder[place]? = some part →
        ∃ around, (part.relaid (start + place) around).Mirrors forest
  | .node id kind around children, start, enclosing, mirrors, 0, part, standing => by
      rw [preOrder] at standing
      cases standing
      exact ⟨enclosing, mirrors⟩
  | .node id kind around children, start, enclosing, mirrors, place + 1, part, standing => by
      rw [preOrder] at standing
      rw [relaid] at mirrors
      have later :=
        relaidAll_within children (fun _ member => mirrors.child_mirrors member) standing
      rwa [Nat.add_assoc, Nat.add_comm 1] at later

theorem Mirrors.relaidAll_within : (branches : List Branch) → {start : NodeId} → {kind : Kind} →
    (∀ branch ∈ relaidAll start kind branches, branch.Mirrors forest) →
      {place : Nat} → {part : Branch} → (preOrderOfAll branches)[place]? = some part →
        ∃ around, (part.relaid (start + place) around).Mirrors forest
  | [], start, kind, _, place, part, standing => by
      rw [preOrderOfAll] at standing
      cases standing
  | head :: tail, start, kind, mirrors, place, part, standing => by
      rw [relaidAll, List.forall_mem_cons] at mirrors
      rw [preOrderOfAll] at standing
      rcases Nat.lt_or_ge place head.preOrder.length with early | late
      · rw [List.getElem?_append_left early] at standing
        exact relaid_within head mirrors.1 standing
      · rw [List.getElem?_append_right late] at standing
        have later := relaidAll_within tail mirrors.2 standing
        have placed : start + head.size + (place - head.preOrder.length) = start + place := by
          rw [← length_preOrder, Nat.add_assoc, Nat.add_sub_of_le late]
        rwa [placed] at later

end

end Branch

namespace Forest

variable {forest copy : Forest}

/-- Each node of a copy is a copy of the node with the name at its place: it has
the same kind, and copies of the same children in the same order. -/
structure Copies (forest copy : Forest) (names : List NodeId) : Prop where
  size : copy.size = names.length
  kindOf : ∀ (place : NodeId) (name : NodeId), names[place]? = some name →
    copy.kindOf place = forest.kindOf name
  childrenOf : ∀ (place : NodeId) (name : NodeId), names[place]? = some name →
    List.Forall₂ (fun (original child : NodeId) => names[child]? = some original)
      (forest.childrenOf name) (copy.childrenOf place)

/-- A copy of a branch holds the nodes of the branch in pre-order. -/
theorem copies_toForest {branch : Branch} (mirrors : branch.Mirrors forest) :
    forest.Copies branch.toForest branch.names := by
  have shown : (branch.relaid 0 none).Mirrors branch.toForest :=
    branch.mirrors_relaid branch.holds_toForest rfl
  refine ⟨?_, ?_, ?_⟩
  · rw [Branch.size_toForest, Branch.names, List.length_map, Branch.length_preOrder]
  · intro place name named
    rw [Branch.names, List.getElem?_map] at named
    obtain ⟨part, standing, rfl⟩ := Option.map_eq_some_iff.mp named
    obtain ⟨around, partShown⟩ := shown.relaid_within branch standing
    have within : part ∈ branch.postOrder :=
      branch.perm_preOrder_postOrder.mem_iff.mp (List.mem_of_getElem? standing)
    have known := partShown.kindOf_id
    rw [Branch.id_relaid, Branch.kind_relaid, Nat.zero_add] at known
    rw [known, (mirrors.within part within).kindOf_id]
  · intro place name named
    rw [Branch.names, List.getElem?_map] at named
    obtain ⟨part, standing, rfl⟩ := Option.map_eq_some_iff.mp named
    obtain ⟨around, partShown⟩ := shown.relaid_within branch standing
    have within : part ∈ branch.postOrder :=
      branch.perm_preOrder_postOrder.mem_iff.mp (List.mem_of_getElem? standing)
    have listed := partShown.childrenOf_id
    rw [Branch.id_relaid, Nat.zero_add] at listed
    rw [listed, (mirrors.within part within).childrenOf_id, List.forall₂_map_left_iff,
      List.forall₂_map_right_iff]
    obtain ⟨rest, dropped⟩ := branch.drop_preOrder standing
    refine (Branch.forall₂_children_relaid dropped around).imp fun child twin pair => ?_
    rw [Branch.names, List.getElem?_map, pair.2, Option.map_some]

/-- Read back from its copy, a branch has new names and nothing around it. -/
theorem Sound.branch_toForest (sound : forest.Sound) {branch : Branch}
    (mirrors : branch.Mirrors forest) :
    branch.toForest.branch 0 = .ok (branch.relaid 0 none) := by
  have shown : (branch.relaid 0 none).Mirrors branch.toForest :=
    branch.mirrors_relaid branch.holds_toForest rfl
  have inside : 0 < branch.toForest.size := by
    rw [Branch.size_toForest]
    exact branch.size_pos
  obtain ⟨found, read, named, foundShown⟩ := (mirrors.sound_toForest sound).exists_branch inside
  rw [read, foundShown.unique shown (by rw [named, Branch.id_relaid])]

namespace Copies

variable {names : List NodeId}

theorem exists_name (copies : forest.Copies copy names) {place : NodeId}
    (inside : place < copy.size) : ∃ name, names[place]? = some name := by
  rw [copies.size] at inside
  exact ⟨_, List.getElem?_eq_getElem inside⟩

/-- The parent of a node of a copy is a copy of the parent of the original. -/
theorem parentOf (copies : forest.Copies copy names) (sound : forest.Sound)
    (copySound : copy.Sound) {place parent : NodeId} (linked : copy.parentOf place = some parent) :
    ∃ name original, names[place]? = some name ∧ names[parent]? = some original ∧
      forest.parentOf name = some original := by
  have listed := (copySound.mem_childrenOf_iff parent place).mpr linked
  obtain ⟨original, named⟩ := copies.exists_name (copySound.parent_lt linked)
  obtain ⟨name, member, childNamed⟩ :=
    exists_related_of_mem (copies.childrenOf parent original named).flip listed
  exact ⟨name, original, childNamed, named, (sound.mem_childrenOf_iff original name).mp member⟩

end Copies

end Forest

end QueryForest
