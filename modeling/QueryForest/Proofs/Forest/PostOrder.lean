import QueryForest.Proofs.Forest.Operation
import QueryForest.Proofs.Forest.Traversal
import QueryForest.Proofs.Forest.Within

/-!
# The post-order as a recursion

The post-order of a node is the post-orders of its children, one after the
other, and then the node.  In a sound forest one function alone satisfies this
equation, and the loop with its stack of visits comes to an end and answers
with it.  Everything else that a post-order is good for follows from the
branch: each node below is met once, and nothing above is met before it.
-/

namespace QueryForest

namespace Forest

variable {forest : Forest}

/-- A function satisfies the recursion of a post-order at every node. -/
def IsPostOrder (forest : Forest) (post : NodeId → List NodeId) : Prop :=
  ∀ id, id < forest.size → post id = (forest.childrenOf id).flatMap post ++ [id]

/-- The nodes of the branch at a node, children before their parent; no nodes
where there is no branch. -/
def post (forest : Forest) (id : NodeId) : List NodeId :=
  (forest.branch id).toOption.elim [] fun branch => branch.postOrder.map Branch.id

theorem post_of_branch {id : NodeId} {branch : Branch} (read : forest.branch id = .ok branch) :
    forest.post id = branch.postOrder.map Branch.id := by
  rw [post, read]
  rfl

theorem Sound.post_of_mirrors (sound : forest.Sound) {branch : Branch}
    (mirrors : branch.Mirrors forest) :
    forest.post branch.id = branch.postOrder.map Branch.id := by
  obtain ⟨found, read, named, foundMirrors⟩ := sound.exists_branch mirrors.id_lt_size
  rw [post_of_branch read, foundMirrors.unique mirrors named]

/-- The nodes of a branch come one child after the other, and its own node
last. -/
theorem Sound.isPostOrder_post (sound : forest.Sound) : forest.IsPostOrder forest.post := by
  intro id inside
  obtain ⟨branch, read, named, mirrors⟩ := sound.exists_branch inside
  have below : (branch.children.map Branch.id).flatMap forest.post =
      branch.children.flatMap fun child => child.postOrder.map Branch.id := by
    rw [List.flatMap_map]
    exact List.flatMap_congr fun child member =>
      sound.post_of_mirrors (mirrors.child_mirrors member)
  rw [post_of_branch read, ← named, mirrors.childrenOf_id, below, branch.postOrder_eq,
    Branch.postOrderOfAll_eq_flatMap, List.map_append, List.map_flatMap]
  rfl

/-- Only one function satisfies the recursion, as every way down ends. -/
theorem Sound.eq_post_of_isPostOrder (sound : forest.Sound) {other : NodeId → List NodeId}
    (recursion : forest.IsPostOrder other) {id : NodeId} (inside : id < forest.size) :
    other id = forest.post id := by
  have agrees : ∀ branch : Branch, branch.Mirrors forest →
      other branch.id = forest.post branch.id := by
    intro branch
    induction branch with
    | node own kind enclosing children inductionHypothesis =>
        intro mirrors
        rw [recursion _ mirrors.id_lt_size, sound.isPostOrder_post _ mirrors.id_lt_size,
          mirrors.childrenOf_id, List.flatMap_map, List.flatMap_map]
        congr 1
        exact List.flatMap_congr fun child member =>
          inductionHypothesis child member (mirrors.child_mirrors member)
  obtain ⟨branch, _, rfl, mirrors⟩ := sound.exists_branch inside
  exact agrees branch mirrors

/-- Two turns for each node below are enough for the loop, whatever else is on
the stack. -/
theorem Sound.walk_post (sound : forest.Sound) {id : NodeId} (inside : id < forest.size)
    (turns : Nat) (stack : List Visit) (done : List NodeId) :
    forest.walk (2 * (forest.post id).length + turns) (.before id :: stack) done =
      forest.walk turns stack ((forest.post id).reverse ++ done) := by
  obtain ⟨branch, read, named, mirrors⟩ := sound.exists_branch inside
  have walked := walk_before branch mirrors turns stack done
  rw [named] at walked
  rw [post_of_branch read, List.length_map, Branch.length_postOrder, walked]

theorem Sound.walk_eq_ok (sound : forest.Sound) {id : NodeId} (inside : id < forest.size)
    {turns : Nat} (enough : 2 * (forest.post id).length ≤ turns) :
    forest.walk turns [.before id] [] = .ok (forest.post id) := by
  obtain ⟨spare, rfl⟩ := Nat.exists_eq_add_of_le enough
  rw [sound.walk_post inside, walk, List.append_nil, List.reverse_reverse]

theorem Sound.postOrder_eq_post (sound : forest.Sound) {id : NodeId}
    (inside : id < forest.size) : forest.postOrder id = .ok (forest.post id) := by
  obtain ⟨branch, read, _⟩ := sound.exists_branch inside
  rw [postOrder_eq_ok read, post_of_branch read]

theorem Sound.mem_post_iff (sound : forest.Sound) {id node : NodeId}
    (inside : id < forest.size) : node ∈ forest.post id ↔ forest.IsAbove id node := by
  obtain ⟨branch, read, rfl, mirrors⟩ := sound.exists_branch inside
  rw [post_of_branch read, mirrors.mem_names_iff sound]

theorem Sound.nodup_post (sound : forest.Sound) {id : NodeId} (inside : id < forest.size) :
    (forest.post id).Nodup := by
  obtain ⟨branch, read, _, mirrors⟩ := sound.exists_branch inside
  rw [post_of_branch read]
  exact mirrors.nodup_names sound

/-- What is below a node of a post-order stands before that node. -/
theorem Sound.mem_before_of_isAbove (sound : forest.Sound) {id upper lower : NodeId}
    (inside : id < forest.size) {before behind : List NodeId}
    (placed : forest.post id = before ++ upper :: behind)
    (above : forest.IsAbove upper lower) (different : lower ≠ upper) : lower ∈ before := by
  obtain ⟨branch, read, _, mirrors⟩ := sound.exists_branch inside
  rw [post_of_branch read] at placed
  obtain ⟨early, late, split, rfl, behindUpper⟩ := List.map_eq_append_iff.mp placed
  obtain ⟨part, others, rfl, rfl, _⟩ := List.map_eq_cons_iff.mp behindUpper
  have partMirrors := mirrors.within part (by rw [split]; simp)
  obtain ⟨inner, within, rfl⟩ :=
    List.mem_map.mp ((partMirrors.mem_names_iff sound).mpr above)
  have upToPart : branch.postOrder = (early ++ [part]) ++ others := by
    rw [split, List.append_assoc, List.singleton_append]
  have met := Branch.mem_before_of_mem_postOrder upToPart
    (List.mem_append_right early (List.mem_singleton_self part)) within
  rcases List.mem_append.mp met with earlier | same
  · exact List.mem_map_of_mem earlier
  · exact absurd (congrArg Branch.id (List.mem_singleton.mp same)) different

/-- In a sound forest the recursion of a post-order has one solution, and the
loop that keeps its visits on a stack ends after two turns for each node and
answers with it.  Every node below is there once, after all that is below it,
and no other node is. -/
theorem Sound.postOrder_is_recursive (sound : forest.Sound) :
    forest.IsPostOrder forest.post ∧
      ∀ post, forest.IsPostOrder post → ∀ id, id < forest.size →
        forest.postOrder id = .ok (post id) ∧
        (∀ turns, 2 * (post id).length ≤ turns →
          forest.walk turns [.before id] [] = .ok (post id)) ∧
        (post id).Nodup ∧
        (∀ node, node ∈ post id ↔ forest.IsAbove id node) ∧
        ∀ before upper behind lower, post id = before ++ upper :: behind →
          forest.IsAbove upper lower → lower ≠ upper → lower ∈ before := by
  refine ⟨sound.isPostOrder_post, fun post recursion id inside => ?_⟩
  rw [sound.eq_post_of_isPostOrder recursion inside]
  refine ⟨sound.postOrder_eq_post inside, fun turns => sound.walk_eq_ok inside,
    sound.nodup_post inside, fun node => sound.mem_post_iff inside, ?_⟩
  intro before upper behind lower placed
  exact sound.mem_before_of_isAbove inside placed

end Forest

def nestedClauses : Forest :=
  Operation.runAll .empty
    [.add (.leaf .matchAll), .add (.leaf .matchAll),
      .addWithChildren (.composite (.junction .disjunction)) [0, 1], .add (.leaf .matchAll),
      .addWithChildren (.composite (.junction .conjunction)) [2, 3]]

theorem sound_nestedClauses : nestedClauses.Sound :=
  Operation.sound_runAll Forest.sound_empty _

/-- The visits to a small tree, in their order. -/
theorem Forest.postOrder_is_recursive_nested :
    nestedClauses.Sound ∧ nestedClauses.IsPostOrder nestedClauses.post ∧
      4 < nestedClauses.size ∧ nestedClauses.post 4 = [0, 1, 2, 3, 4] ∧
      nestedClauses.postOrder 4 = .ok (nestedClauses.post 4) ∧
      10 = 2 * (nestedClauses.post 4).length ∧
      nestedClauses.walk 10 [.before 4] [] = .ok (nestedClauses.post 4) ∧
      [0, 1, 2, 3, 4] = [0, 1] ++ 2 :: [3, 4] ∧
      nestedClauses.IsAbove 2 1 ∧ 1 ≠ 2 ∧ 1 ∈ [0, 1] := by
  have listed : nestedClauses.post 4 = [0, 1, 2, 3, 4] := by decide +kernel
  have below : nestedClauses.IsAbove 2 1 := .linked (by decide +kernel) .self
  obtain ⟨recursion, shown⟩ := sound_nestedClauses.postOrder_is_recursive
  obtain ⟨walked, ends, _, _, belowFirst⟩ :=
    shown nestedClauses.post recursion 4 (by decide +kernel)
  exact ⟨sound_nestedClauses, recursion, by decide +kernel, listed, walked, by rw [listed]; rfl,
    ends 10 (by rw [listed]; decide), rfl, below, by decide,
    belowFirst [0, 1] 2 [3, 4] 1 listed below (by decide)⟩

end QueryForest
