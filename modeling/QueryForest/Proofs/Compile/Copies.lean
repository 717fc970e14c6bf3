import QueryForest.Proofs.Compile.Transfer
import QueryForest.Proofs.View.Renaming

/-!
# Copies are like their originals

A copy of a branch cannot be told from the original by any view that does not show
names or surroundings: it has the same outline, is saved as the same document and
compiles to the same query.  Only the parentheses of a junction tell whether it is
the copy or stands below another node.
-/

namespace QueryForest

namespace Branch

variable (defaultField : String)

/-- With a new name that is its place in pre-order a branch is a twin of itself. -/
theorem isTwin_relaid {order rest : List Branch} {branch : Branch} {start : NodeId}
    (standing : order.drop start = branch.preOrder ++ rest) (enclosing : Option Kind) :
    branch.IsTwin defaultField (fun id twin => (order.map Branch.id)[twin]? = some id)
      (branch.relaid start enclosing) where
  id := by rw [id_relaid, List.getElem?_map, getElem?_of_drop standing, Option.map_some]
  kind := .of_eq (kind_relaid ..)
  children := (forall₂_children_relaid standing enclosing).imp fun child twin pair => by
    rw [List.getElem?_map, pair.2]
    exact ⟨.of_eq pair.1, rfl⟩

mutual

/-- So is all that is within the branch. -/
theorem forall₂_isTwin_relaid {order : List Branch} : (branch : Branch) → {start : NodeId} →
    (enclosing : Option Kind) → {rest : List Branch} →
      order.drop start = branch.preOrder ++ rest →
        List.Forall₂ (IsTwin defaultField fun id twin => (order.map Branch.id)[twin]? = some id)
          branch.postOrder (branch.relaid start enclosing).postOrder
  | .node id kind around children, start, enclosing, rest, standing => by
      rw [postOrder_eq, postOrder_eq ((node id kind around children).relaid start enclosing),
        children_relaid]
      exact List.rel_append (forall₂_isTwin_relaidAll children kind (drop_children standing))
        (.cons (isTwin_relaid defaultField standing enclosing) .nil)

theorem forall₂_isTwin_relaidAll {order : List Branch} : (branches : List Branch) →
    {start : NodeId} → (kind : Kind) → {rest : List Branch} →
      order.drop start = preOrderOfAll branches ++ rest →
        List.Forall₂ (IsTwin defaultField fun id twin => (order.map Branch.id)[twin]? = some id)
          (postOrderOfAll branches) (postOrderOfAll (relaidAll start kind branches))
  | [], start, kind, rest, _ => .nil
  | head :: tail, start, kind, rest, standing => by
      rw [preOrderOfAll, List.append_assoc] at standing
      rw [relaidAll, postOrderOfAll, postOrderOfAll]
      exact List.rel_append (forall₂_isTwin_relaid head (some kind) standing)
        (forall₂_isTwin_relaidAll tail kind (drop_size standing))

end

/-- Two branches look the same, but for the parentheses of a junction whose copy
stands at the top. -/
structure SameViews (branch copied : Branch) : Prop where
  outline : copied.outline = branch.outline
  save : copied.save = branch.save
  write_bracketed : ∀ style : QueryStyle, branch.IsBracketed → branch.write style ≠ "" →
    branch.write style = "( " ++ copied.write style ++ " )"
  write_bare : ∀ style : QueryStyle, ¬ (branch.IsBracketed ∧ branch.write style ≠ "") →
    branch.write style = copied.write style

theorem Mirrors.sameViews {forest : Forest} {branch : Branch} (mirrors : branch.Mirrors forest)
    (sound : forest.Sound) (start : NodeId) : branch.SameViews (branch.relaid start none) where
  outline := outlineAt_relaid start none 0 branch
  save := save_relaid start none branch
  write_bracketed style bracketed present := by
    have lifted := (branch.write_lifted style start).1
    rw [write_relaid sound style start branch mirrors] at lifted
    exact lifted ⟨bracketed, present⟩
  write_bare style bare := by
    have lifted := (branch.write_lifted style start).2
    rw [write_relaid sound style start branch mirrors] at lifted
    exact lifted bare

end Branch

namespace Forest

/-- Some nodes stand behind those of a forest, which are left as they are. -/
structure Appended (forest added after : Forest) : Prop where
  root : after.root = forest.root
  size : after.size = forest.size + added.size
  kept : ∀ id < forest.size, after.nodes[id]? = forest.nodes[id]?
  added : ∀ id : NodeId, after.nodes[id + forest.size]? =
    added.nodes[id]?.map (Node.shift forest.size)

theorem appended_joined (forest added : Forest) :
    forest.Appended added (forest.joined added) where
  root := rfl
  size := size_joined ..
  kept _ inside := getElem?_joined_left _ _ inside
  added := getElem?_joined_right _ _

variable {forest : Forest} {branch : Branch}

theorem Sound.nodup_names (sound : forest.Sound) (mirrors : branch.Mirrors forest) :
    branch.names.Nodup :=
  branch.perm_names.nodup_iff.mpr (mirrors.nodup_names sound)

/-- What a branch compiles to, it compiles to with new names. -/
theorem Sound.compile_toForest (sound : forest.Sound) {id : NodeId}
    (read : forest.branch id = .ok branch) (options : CompileOptions) (query : Query) :
    (Standard.compiler options).compileNode forest id = .ok query ↔
      (Standard.compiler options).compile branch.toForest = .ok query := by
  obtain ⟨rfl, mirrors⟩ := mirrors_of_branchWithin read
  have whole : branch.preOrder.drop 0 = branch.preOrder ++ [] := by
    rw [List.drop_zero, List.append_nil]
  have each := branch.forall₂_isTwin_relaid options.defaultField none whole
  have unique : Relator.BiUnique fun (id twin : NodeId) => branch.names[twin]? = some id := by
    refine ⟨fun first second twin firstNamed secondNamed => ?_,
      fun id first second firstNamed secondNamed => ?_⟩
    · exact Option.some.inj (firstNamed.symm.trans secondNamed)
    · have inside := (List.getElem?_eq_some_iff.mp firstNamed).1
      exact (List.getElem?_inj inside (sound.nodup_names mirrors)).mp
        (firstNamed.trans secondNamed.symm)
  have copied : branch.toForest.branch (branch.relaid 0 none).id = .ok (branch.relaid 0 none) := by
    rw [Branch.id_relaid]
    exact sound.branch_toForest mirrors
  have alike := @Standard.compileNode_iff_of_isTwin options _ _ _ _ _ unique read copied each
    (Branch.isTwin_relaid options.defaultField whole none) query
  rwa [Branch.id_relaid] at alike

/-- A copy of a branch has its nodes in pre-order and looks like it in every view;
within the forest such a copy is put behind all nodes. -/
theorem Sound.copy_alike (sound : forest.Sound) {id : NodeId} (inside : id < forest.size) :
    ∃ branch copy copied, forest.branch id = .ok branch ∧ forest.copy id = .ok copy ∧
      copy.branch 0 = .ok copied ∧ copy.Sound ∧ copy.root = some 0 ∧
      (∀ name, name ∈ branch.names ↔ forest.IsAbove id name) ∧ branch.names.Nodup ∧
      forest.Copies copy branch.names ∧ branch.SameViews copied ∧
      (∀ options query, (Standard.compiler options).compileNode forest id = .ok query ↔
        (Standard.compiler options).compile copy = .ok query) ∧
      ∃ after, forest.edit (Edit.copyBranch id) = (.ok forest.size, after) ∧
        forest.Appended copy after ∧ after.parentOf forest.size = none := by
  obtain ⟨branch, read, rfl, mirrors⟩ := sound.exists_branch inside
  have parentless := (branch.rootParentless_toForest 0 rfl).2
  refine ⟨branch, branch.toForest, branch.relaid 0 none, read, copy_eq_ok read,
    sound.branch_toForest mirrors, mirrors.sound_toForest sound, rfl, fun name => ?_,
    sound.nodup_names mirrors, copies_toForest mirrors, mirrors.sameViews sound 0,
    sound.compile_toForest read, forest.joined branch.toForest, edit_copyBranch read,
    appended_joined .., ?_⟩
  · rw [branch.perm_names.mem_iff, mirrors.mem_names_iff sound]
  · have behind := parentOf_joined_right forest branch.toForest 0
    rwa [Nat.zero_add, parentless, Option.map_none] at behind

/-- Alternatives that are the second of two clauses, and a node that is in no tree. -/
def alternatives : Forest :=
  Operation.runAll .empty
    [.add (.leaf .matchNone), .add (.leaf .matchAll), .add (.leaf .matchAll),
      .addWithChildren (.composite (.junction .disjunction)) [1, 2],
      .addWithChildren (.composite (.junction .conjunction)) [0, 3], .detach 0]

def alternativesBranch : Branch :=
  .node 3 (.composite (.junction .disjunction)) (some (.composite (.junction .conjunction)))
    [.node 1 (.leaf .matchAll) (some (.composite (.junction .disjunction))) [],
      .node 2 (.leaf .matchAll) (some (.composite (.junction .disjunction))) []]

theorem copy_alike_alternatives :
    alternatives.Sound ∧ 3 < alternatives.size ∧
      ∃ copy copied, alternatives.copy 3 = .ok copy ∧ copy.branch 0 = .ok copied ∧
        alternatives.Copies copy [3, 1, 2] ∧ copied.outline = alternativesBranch.outline ∧
        alternativesBranch.standardText = "( " ++ copied.standardText ++ " )" := by
  have sound : alternatives.Sound := Operation.sound_runAll sound_empty _
  obtain ⟨branch, copy, copied, read, copyMade, copyRead, _, _, _, _, copies, views, _⟩ :=
    sound.copy_alike (show 3 < alternatives.size by decide)
  have shown : alternatives.branch 3 = .ok alternativesBranch := rfl
  cases shown.symm.trans read
  refine ⟨sound, by decide, copy, copied, copyMade, copyRead, copies, views.outline, ?_⟩
  exact views.write_bracketed _ ⟨.disjunction, _, rfl, rfl, rfl⟩ (by decide)

end Forest

end QueryForest
