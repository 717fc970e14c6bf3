namespace QueryForest

variable {Item : Type}

/-- Put an item behind those of its position. -/
def insertAtPosition (position : UInt32) (item : Item) :
    List (UInt32 × List Item) → List (UInt32 × List Item)
  | [] => [(position, [item])]
  | (other, items) :: tail =>
      if position < other then
        (position, [item]) :: (other, items) :: tail
      else if position = other then
        (other, items ++ [item]) :: tail
      else
        (other, items) :: insertAtPosition position item tail

/-- Gather items by position. -/
def groupByPosition (items : List (UInt32 × Item)) : List (UInt32 × List Item) :=
  items.foldl (fun groups item => insertAtPosition item.1 item.2 groups) []

/-- Putting an item in adds its position to those of the groups. -/
theorem mem_positions_insertAtPosition (position other : UInt32) (item : Item)
    (groups : List (UInt32 × List Item)) :
    other ∈ (insertAtPosition position item groups).map Prod.fst ↔
      other = position ∨ other ∈ groups.map Prod.fst := by
  induction groups with
  | nil => simp [insertAtPosition]
  | cons group tail inductionHypothesis =>
      obtain ⟨held, items⟩ := group
      rw [insertAtPosition]
      split
      · simp
      · split
        · next same => simp [same]
        · rw [List.map_cons, List.mem_cons, inductionHypothesis, List.map_cons,
            List.mem_cons]
          exact or_left_comm

/-- Putting an item in keeps the positions ascending. -/
theorem ascending_insertAtPosition (position : UInt32) (item : Item)
    {groups : List (UInt32 × List Item)}
    (ascending : (groups.map Prod.fst).Pairwise (· < ·)) :
    ((insertAtPosition position item groups).map Prod.fst).Pairwise (· < ·) := by
  induction groups with
  | nil => simp [insertAtPosition]
  | cons group tail inductionHypothesis =>
      obtain ⟨other, items⟩ := group
      have ordered := List.pairwise_cons.mp ascending
      rw [insertAtPosition]
      split
      · next below =>
          refine .cons ?_ ascending
          intro later mem
          rcases List.mem_cons.mp mem with rfl | mem
          · exact below
          · exact UInt32.lt_trans below (ordered.1 later mem)
      · split
        · exact ascending
        · next notBelow different =>
            refine .cons ?_ (inductionHypothesis ordered.2)
            intro later mem
            rcases (mem_positions_insertAtPosition ..).mp mem with rfl | mem
            · exact UInt32.lt_of_le_of_ne (UInt32.not_lt.mp notBelow)
                (Ne.symm different)
            · exact ordered.1 later mem

/-- The positions of gathered items ascend. -/
theorem ascending_groupByPosition (items : List (UInt32 × Item)) :
    ((groupByPosition items).map Prod.fst).Pairwise (· < ·) := by
  suffices extended : ∀ groups : List (UInt32 × List Item),
      (groups.map Prod.fst).Pairwise (· < ·) →
        ((items.foldl
          (fun groups item => insertAtPosition item.1 item.2 groups)
          groups).map Prod.fst).Pairwise (· < ·) from
    extended [] .nil
  induction items with
  | nil => exact fun _ ascending => ascending
  | cons head tail inductionHypothesis =>
      exact fun groups ascending =>
        inductionHypothesis _ (ascending_insertAtPosition head.1 head.2 ascending)

end QueryForest
