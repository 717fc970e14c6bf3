import QueryForest.Forest.Branch
import QueryForest.Proofs.Forest.Soundness
import QueryForest.Proofs.Sequence

/-!
# Branches of sound forests

Reading the branch at a node always succeeds in a sound forest: the way up
from a node that is met `depth` levels down has more than `depth` nodes, all
different, so the bound on the depth is never reached.  The branch then shows
at each of its nodes what the forest has there.
-/

namespace QueryForest

/-- A branch shows what a forest has at its node and everywhere below. -/
inductive Branch.Mirrors (forest : Forest) : Branch → Prop where
  | node {id : NodeId} {kind : Kind} {enclosing : Option Kind}
      {children : List Branch} :
      forest.kindOf id = some kind →
      (forest.parentOf id).bind forest.kindOf = enclosing →
      forest.childrenOf id = children.map Branch.id →
      (∀ child ∈ children, Branch.Mirrors forest child) →
      Branch.Mirrors forest (.node id kind enclosing children)

namespace Forest

variable {forest : Forest}

theorem node_eq_ok {id : NodeId} {node : Node} :
    forest.node id = .ok node ↔ forest.nodes[id]? = some node := by
  unfold Forest.node
  cases forest.nodes[id]? with
  | none => simp
  | some found => simp

theorem node_of_not_lt {id : NodeId} (outside : ¬ id < forest.size) :
    forest.node id = .error (.missing id forest.size) := by
  rw [Forest.node, getElem?_of_not_lt outside]

/-- The kind of a parent, looked up where there is one. -/
theorem enclosing_eq_ok {node : Node} {enclosing : Option Kind} :
    node.parent.mapM (fun parent => return (← forest.node parent).kind)
        = .ok enclosing →
      node.parent.bind forest.kindOf = enclosing := by
  cases node.parent with
  | none =>
      intro looked
      cases looked
      rfl
  | some parent =>
      intro looked
      obtain ⟨kind, found, same⟩ := bind_eq_ok.mp looked
      cases same
      obtain ⟨parentNode, present, sameKind⟩ := bind_eq_ok.mp found
      cases sameKind
      exact kindOf_of_getElem? (node_eq_ok.mp present)

/-- A branch that is read shows the forest. -/
theorem mirrors_of_branchWithin {depth : Nat} {id : NodeId} {branch : Branch}
    (read : forest.branchWithin depth id = .ok branch) :
    branch.id = id ∧ branch.Mirrors forest := by
  induction depth generalizing id branch with
  | zero => cases read
  | succ depth inductionHypothesis =>
      obtain ⟨node, present, afterNode⟩ := bind_eq_ok.mp read
      obtain ⟨enclosing, looked, afterParent⟩ := bind_eq_ok.mp afterNode
      obtain ⟨children, descended, same⟩ := bind_eq_ok.mp afterParent
      cases same
      have found := node_eq_ok.mp present
      refine ⟨rfl, .node (kindOf_of_getElem? found) ?_ ?_ ?_⟩
      · rw [parentOf_of_getElem? found]
        exact enclosing_eq_ok looked
      · rw [childrenOf_of_getElem? found]
        exact (map_eq_of_mapM descended fun _ _ childRead =>
          (inductionHypothesis childRead).1).symm
      · intro child member
        obtain ⟨place, _, childRead⟩ := exists_item_of_mem descended member
        exact (inductionHypothesis childRead).2

/-- Where the way up from a node is long enough, the branch at it is not too
deep. -/
theorem Sound.exists_branchWithin (sound : forest.Sound) {depth : Nat}
    {id : NodeId} {way : List NodeId} (inside : id < forest.size)
    (wayUp : forest.WayUp id way) (deep : forest.size < way.length + depth) :
    ∃ branch, forest.branchWithin depth id = .ok branch := by
  induction depth generalizing id way with
  | zero =>
      have short :=
        length_le_size wayUp.nodup (sound.anchored.wayUp_inside wayUp inside)
      omega
  | succ depth inductionHypothesis =>
      obtain ⟨node, found⟩ := exists_node_of_lt inside
      have present := node_eq_ok.mpr found
      obtain ⟨enclosing, looked⟩ : ∃ enclosing,
          node.parent.mapM (fun parent => return (← forest.node parent).kind)
            = .ok enclosing := by
        cases parent : node.parent with
        | none => exact ⟨none, rfl⟩
        | some parent =>
            have linked := (parentOf_of_getElem? found).trans parent
            obtain ⟨parentNode, parentFound⟩ :=
              exists_node_of_lt (sound.parent_lt linked)
            refine ⟨some parentNode.kind, bind_eq_ok.mpr ⟨parentNode.kind, ?_, rfl⟩⟩
            exact bind_eq_ok.mpr
              ⟨parentNode, node_eq_ok.mpr parentFound, rfl⟩
      obtain ⟨children, descended⟩ : ∃ children,
          node.children.mapM (forest.branchWithin depth) = .ok children := by
        apply exists_mapM_eq_ok
        intro child member
        have listed : child ∈ forest.childrenOf id := by
          rwa [childrenOf_of_getElem? found]
        have linked := (sound.mem_childrenOf_iff id child).mp listed
        refine inductionHypothesis (lt_size_of_parentOf linked)
          (.step linked wayUp) ?_
        rw [List.length_cons]
        omega
      refine ⟨.node id node.kind enclosing children, ?_⟩
      refine bind_eq_ok.mpr ⟨node, present, ?_⟩
      refine bind_eq_ok.mpr ⟨enclosing, looked, ?_⟩
      exact bind_eq_ok.mpr ⟨children, descended, rfl⟩

/-- In a sound forest every node has a branch, and the branch shows it. -/
theorem Sound.exists_branch (sound : forest.Sound) {id : NodeId}
    (inside : id < forest.size) :
    ∃ branch, forest.branch id = .ok branch ∧ branch.id = id ∧
      branch.Mirrors forest := by
  obtain ⟨way, wayUp⟩ := exists_wayUp (sound.endsAbove id)
  obtain ⟨branch, read⟩ :=
    sound.exists_branchWithin inside wayUp
      (Nat.lt_of_lt_of_le (Nat.lt_succ_self _) (Nat.le_add_left ..))
  exact ⟨branch, read, mirrors_of_branchWithin read⟩

theorem branch_outside {id : NodeId} (outside : ¬ id < forest.size) :
    forest.branch id = .error (.missing id forest.size) := by
  unfold branch branchWithin
  rw [node_of_not_lt outside]
  rfl

end Forest

end QueryForest
