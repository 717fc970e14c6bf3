import QueryForest.Forest.Edit

/-!
# Running edits

What an edit does to a forest is computed from what its steps do.  An edit
that stops leaves the changes of the steps before.
-/

namespace QueryForest

namespace Forest

variable {Result Other : Type}

@[simp]
theorem edit_pure (forest : Forest) (result : Result) :
    forest.edit (pure result) = (.ok result, forest) :=
  rfl

@[simp]
theorem edit_get (forest : Forest) :
    forest.edit get = (.ok forest, forest) :=
  rfl

@[simp]
theorem edit_modify (forest : Forest) (change : Forest → Forest) :
    forest.edit (modify change) = (.ok (), change forest) :=
  rfl

@[simp]
theorem edit_throw (forest : Forest) (halt : Halt NodeError) :
    forest.edit (throw halt : Edit Result) = (.error halt, forest) :=
  rfl

@[simp]
theorem edit_refuse (forest : Forest) (variant : Variant) (action : Action) :
    forest.edit (Edit.refuse variant action : Edit Result) =
      (.error (.error (.actionNotSupported variant action)), forest) :=
  rfl

/-- The second step runs where the first one ended, if it ended well. -/
theorem edit_bind (forest : Forest) (first : Edit Result)
    (next : Result → Edit Other) :
    forest.edit (first >>= next) =
      match forest.edit first with
      | (.ok result, after) => after.edit (next result)
      | (.error halt, after) => (.error halt, after) := by
  show StateT.run (ExceptT.run (first >>= next)) forest = _
  simp only [Forest.edit, ExceptT.run_bind, StateT.run_bind]
  rcases StateT.run (ExceptT.run first) forest with ⟨_ | _, _⟩ <;> rfl

theorem edit_bind_of_ok {forest after : Forest} {first : Edit Result}
    {result : Result} (next : Result → Edit Other)
    (done : forest.edit first = (.ok result, after)) :
    forest.edit (first >>= next) = after.edit (next result) := by
  rw [edit_bind, done]

theorem edit_bind_of_error {forest after : Forest} {first : Edit Result}
    {halt : Halt NodeError} (next : Result → Edit Other)
    (stopped : forest.edit first = (.error halt, after)) :
    forest.edit (first >>= next) = (.error halt, after) := by
  rw [edit_bind, stopped]

theorem edit_check (forest : Forest) (outcome : Except Breach Result) :
    forest.edit (Edit.check outcome) = (outcome.mapError .breach, forest) := by
  cases outcome <;> rfl

theorem edit_node_of_some {forest : Forest} {id : NodeId} {found : Node}
    (present : forest.nodes[id]? = some found) :
    forest.edit (Edit.node id) = (.ok found, forest) := by
  unfold Edit.node
  rw [edit_bind_of_ok _ (edit_get forest), edit_check, Forest.node, present]
  rfl

theorem edit_node_of_none {forest : Forest} {id : NodeId}
    (absent : forest.nodes[id]? = none) :
    forest.edit (Edit.node id) =
      (.error (.breach (.missing id forest.size)), forest) := by
  unfold Edit.node
  rw [edit_bind_of_ok _ (edit_get forest), edit_check, Forest.node, absent]
  rfl

theorem edit_modifyNode {forest : Forest} {id : NodeId}
    (inside : id < forest.size) (change : Node → Node) :
    forest.edit (Edit.modifyNode id change) =
      (.ok (), forest.modifyNode id change) := by
  unfold Edit.modifyNode
  rw [edit_bind_of_ok _ (edit_node_of_some (Array.getElem?_eq_getElem inside)),
    edit_modify]

end Forest

end QueryForest
