import QueryForest.Proofs.Forest.Descent

namespace QueryForest

namespace Branch.Mirrors

variable {forest : Forest} {id : NodeId} {kind : Kind} {enclosing : Option Kind}
  {children : List Branch}

theorem exists_node
    (mirrors : (Branch.node id kind enclosing children).Mirrors forest) :
    ∃ node, forest.nodes[id]? = some node ∧
      node.children = children.map Branch.id := by
  cases mirrors with
  | node known _ listed _ =>
      obtain ⟨node, present, _⟩ := Option.map_eq_some_iff.mp known
      refine ⟨node, present, ?_⟩
      rw [← Forest.childrenOf_of_getElem? present, listed]

theorem of_mem (mirrors : (Branch.node id kind enclosing children).Mirrors forest) :
    ∀ child ∈ children, child.Mirrors forest := by
  cases mirrors with
  | node _ _ _ below => exact below

end Branch.Mirrors

namespace Forest

variable {forest : Forest}

mutual

/-- A visit to the node of a branch walks through the whole branch. -/
theorem walk_before :
    (branch : Branch) → branch.Mirrors forest →
      (visits : Nat) → (stack : List Visit) → (done : List NodeId) →
      forest.walk (2 * branch.size + visits) (.before branch.id :: stack) done =
        forest.walk visits stack
          ((branch.postOrder.map Branch.id).reverse ++ done)
  | .node id kind enclosing children, mirrors, visits, stack, done => by
      obtain ⟨node, present, listed⟩ := mirrors.exists_node
      have turns : 2 * (Branch.node id kind enclosing children).size + visits =
          2 * Branch.sizeOfAll children + (visits + 1) + 1 := by
        rw [Branch.size]
        omega
      rw [turns, Branch.id, walk, node_eq_ok.mpr present]
      show forest.walk _ (node.children.map .before ++ .after id :: stack) done = _
      rw [listed, List.map_map,
        walk_beforeAll children mirrors.of_mem (visits + 1) (.after id :: stack),
        walk, Branch.postOrder, List.map_append, List.reverse_append]
      rfl

/-- Visits to several nodes walk through their branches one by one. -/
theorem walk_beforeAll :
    (branches : List Branch) → (∀ branch ∈ branches, branch.Mirrors forest) →
      (visits : Nat) → (stack : List Visit) → (done : List NodeId) →
      forest.walk (2 * Branch.sizeOfAll branches + visits)
          (branches.map (Visit.before ∘ Branch.id) ++ stack) done =
        forest.walk visits stack
          (((Branch.postOrderOfAll branches).map Branch.id).reverse ++ done)
  | [], _, visits, stack, done => by
      rw [Branch.sizeOfAll, Nat.mul_zero, Nat.zero_add]
      rfl
  | head :: tail, mirrors, visits, stack, done => by
      have turns : 2 * Branch.sizeOfAll (head :: tail) + visits =
          2 * head.size + (2 * Branch.sizeOfAll tail + visits) := by
        rw [Branch.sizeOfAll]
        omega
      have first := walk_before head (mirrors head List.mem_cons_self)
        (2 * Branch.sizeOfAll tail + visits)
        (tail.map (Visit.before ∘ Branch.id) ++ stack) done
      rw [turns, List.map_cons, List.cons_append, Function.comp_apply, first,
        walk_beforeAll tail
          (fun branch member => mirrors branch (List.mem_cons_of_mem head member)),
        Branch.postOrderOfAll, List.map_append, List.reverse_append,
        List.append_assoc]

end

/-- The post-order of a forest is that of its branch. -/
theorem postOrder_eq_ok {id : NodeId} {branch : Branch}
    (read : forest.branch id = .ok branch) :
    forest.postOrder id = .ok (branch.postOrder.map Branch.id) := by
  have shown := mirrors_of_branchWithin read
  have walked := walk_before branch shown.2 0 [] []
  unfold postOrder
  rw [read]
  show forest.walk (2 * branch.size) [.before id] [] = _
  rw [← shown.1]
  rw [Nat.add_zero] at walked
  rw [walked, walk, List.append_nil, List.reverse_reverse]

end Forest

end QueryForest
