import Mathlib.Data.List.Induction
import Mathlib.Data.List.Perm.Basic
import QueryForest.Node.Grouping

/-!
# What grouping by position keeps

Gathering items by position is sorting them by position and telling the groups
apart, and it is stable: the groups stand in ascending order, there is one for each
position that occurs, and each holds the items of its position in their order.  So
no item is lost or taken twice, and items of different positions may come in any
order.
-/

namespace QueryForest

variable {Item Other : Type}

theorem groupByPosition_append_singleton (items : List (UInt32 × Item)) (last : UInt32 × Item) :
    groupByPosition (items ++ [last]) = insertAtPosition last.1 last.2 (groupByPosition items) := by
  rw [groupByPosition, List.foldl_append]
  rfl

theorem flatMap_insertAtPosition_perm (position : UInt32) (item : Item)
    (groups : List (UInt32 × List Item)) :
    ((insertAtPosition position item groups).flatMap Prod.snd).Perm
      (groups.flatMap Prod.snd ++ [item]) := by
  induction groups with
  | nil => exact .refl _
  | cons group tail inductionHypothesis =>
      obtain ⟨other, items⟩ := group
      rw [insertAtPosition]
      split
      · exact @List.perm_append_comm _ [item] _
      · split
        · simp only [List.flatMap_cons, List.append_assoc]
          exact List.perm_append_comm.append_left items
        · simp only [List.flatMap_cons, List.append_assoc]
          exact inductionHypothesis.append_left items

theorem flatMap_groupByPosition_perm (items : List (UInt32 × Item)) :
    ((groupByPosition items).flatMap Prod.snd).Perm (items.map Prod.snd) := by
  induction items using List.reverseRecOn with
  | nil => exact .refl _
  | append_singleton items last inductionHypothesis =>
      rw [groupByPosition_append_singleton, List.map_append]
      exact (flatMap_insertAtPosition_perm last.1 last.2 (groupByPosition items)).trans
        (inductionHypothesis.append_right [last.2])

def changeItems (change : Item → Other) (groups : List (UInt32 × List Item)) :
    List (UInt32 × List Other) :=
  groups.map fun group => (group.1, group.2.map change)

theorem insertAtPosition_changeItems (change : Item → Other) (position : UInt32) (item : Item)
    (groups : List (UInt32 × List Item)) :
    insertAtPosition position (change item) (changeItems change groups) =
      changeItems change (insertAtPosition position item groups) := by
  induction groups with
  | nil => rfl
  | cons group tail inductionHypothesis =>
      obtain ⟨other, items⟩ := group
      change insertAtPosition position (change item)
        ((other, items.map change) :: changeItems change tail) = _
      rw [insertAtPosition, insertAtPosition, inductionHypothesis]
      split
      · rfl
      · split
        · simp [changeItems]
        · rfl

/-- Items can be changed before or after they are gathered. -/
theorem groupByPosition_map (change : Item → Other) (items : List (UInt32 × Item)) :
    groupByPosition (items.map fun item => (item.1, change item.2)) =
      changeItems change (groupByPosition items) := by
  induction items using List.reverseRecOn with
  | nil => rfl
  | append_singleton items last inductionHypothesis =>
      rw [List.map_append, List.map_singleton, groupByPosition_append_singleton,
        groupByPosition_append_singleton, inductionHypothesis]
      exact insertAtPosition_changeItems change last.1 last.2 (groupByPosition items)

/-! ## What groups hold -/

/-- A group is not empty, and what it holds has stood at its position. -/
def IsGathered (holds : UInt32 → Item → Prop) (group : UInt32 × List Item) : Prop :=
  group.2 ≠ [] ∧ ∀ item ∈ group.2, holds group.1 item

theorem isGathered_insertAtPosition {holds : UInt32 → Item → Prop} {position : UInt32}
    {item : Item} (held : holds position item) {groups : List (UInt32 × List Item)}
    (gathered : ∀ group ∈ groups, IsGathered holds group) :
    ∀ group ∈ insertAtPosition position item groups, IsGathered holds group := by
  have alone : IsGathered holds (position, [item]) :=
    ⟨List.cons_ne_nil _ _, List.forall_mem_singleton.mpr held⟩
  induction groups with
  | nil => exact List.forall_mem_singleton.mpr alone
  | cons group tail inductionHypothesis =>
      obtain ⟨other, items⟩ := group
      obtain ⟨ofHead, ofTail⟩ := List.forall_mem_cons.mp gathered
      rw [insertAtPosition]
      split
      · exact List.forall_mem_cons.mpr ⟨alone, gathered⟩
      · split
        · next same =>
            refine List.forall_mem_cons.mpr ⟨⟨by simp, ?_⟩, ofTail⟩
            exact List.forall_mem_append.mpr
              ⟨ofHead.2, List.forall_mem_singleton.mpr (same ▸ held)⟩
        · exact List.forall_mem_cons.mpr ⟨ofHead, inductionHypothesis ofTail⟩

theorem isGathered_groupByPosition {holds : UInt32 → Item → Prop}
    {items : List (UInt32 × Item)} (held : ∀ item ∈ items, holds item.1 item.2) :
    ∀ group ∈ groupByPosition items, IsGathered holds group := by
  induction items using List.reverseRecOn with
  | nil => exact fun _ member => absurd member List.not_mem_nil
  | append_singleton items last inductionHypothesis =>
      obtain ⟨early, final⟩ := List.forall_mem_append.mp held
      rw [groupByPosition_append_singleton]
      exact isGathered_insertAtPosition (final last (List.mem_singleton_self last))
        (inductionHypothesis early)

theorem insertAtPosition_ne_nil (position : UInt32) (item : Item)
    (groups : List (UInt32 × List Item)) : insertAtPosition position item groups ≠ [] := by
  cases groups with
  | nil => exact List.cons_ne_nil _ _
  | cons group tail =>
      rw [insertAtPosition]
      split
      · exact List.cons_ne_nil _ _
      · split <;> exact List.cons_ne_nil _ _

theorem groupByPosition_ne_nil {items : List (UInt32 × Item)} (some : items ≠ []) :
    groupByPosition items ≠ [] := by
  obtain ⟨before, last, rfl⟩ := (List.eq_nil_or_concat' items).resolve_left some
  rw [groupByPosition_append_singleton]
  exact insertAtPosition_ne_nil last.1 last.2 _

theorem ascending_tail {group : UInt32 × List Item} {tail : List (UInt32 × List Item)}
    (ascending : ((group :: tail).map Prod.fst).Pairwise (· < ·)) :
    (∀ other ∈ tail, group.1.toNat < other.1.toNat) ∧
      (tail.map Prod.fst).Pairwise (· < ·) := by
  obtain ⟨below, ordered⟩ := List.pairwise_cons.mp ascending
  exact ⟨fun other member => below other.1 (List.mem_map_of_mem member), ordered⟩

theorem mem_positions_groupByPosition (items : List (UInt32 × Item)) (position : UInt32) :
    position ∈ (groupByPosition items).map Prod.fst ↔ position ∈ items.map Prod.fst := by
  induction items using List.reverseRecOn with
  | nil => exact .rfl
  | append_singleton items last inductionHypothesis =>
      rw [groupByPosition_append_singleton, mem_positions_insertAtPosition, inductionHypothesis,
        List.map_append, List.mem_append, List.map_singleton, List.mem_singleton, or_comm]

/-- Among ascending groups an item goes to the end of the group of its position, or
makes a group of its own if there is none yet.  All other groups stay. -/
theorem mem_insertAtPosition {position : UInt32} {item : Item}
    {groups : List (UInt32 × List Item)} (ascending : (groups.map Prod.fst).Pairwise (· < ·))
    {group : UInt32 × List Item} (member : group ∈ insertAtPosition position item groups) :
    (group.1 ≠ position ∧ group ∈ groups) ∨
      (∃ items, (position, items) ∈ groups ∧ group = (position, items ++ [item])) ∨
        (position ∉ groups.map Prod.fst ∧ group = (position, [item])) := by
  induction groups with
  | nil =>
      cases List.mem_singleton.mp member
      exact .inr (.inr ⟨List.not_mem_nil, rfl⟩)
  | cons first tail inductionHypothesis =>
      obtain ⟨other, items⟩ := first
      obtain ⟨below, ordered⟩ := List.pairwise_cons.mp ascending
      have apart {later : UInt32 × List Item} (inside : later ∈ tail) : other ≠ later.1 :=
        UInt32.ne_of_lt (below later.1 (List.mem_map_of_mem inside))
      rw [insertAtPosition] at member
      split at member
      · next before =>
          -- All later groups are behind this one, so none of them can have the position.
          have new : position ∉ ((other, items) :: tail).map Prod.fst := by
            rw [List.map_cons, List.mem_cons, not_or]
            refine ⟨UInt32.ne_of_lt before, fun later => ?_⟩
            exact UInt32.lt_irrefl _ (UInt32.lt_trans before (below position later))
          rcases List.mem_cons.mp member with rfl | stays
          · exact .inr (.inr ⟨new, rfl⟩)
          · refine .inl ⟨?_, stays⟩
            rintro rfl
            exact new (List.mem_map_of_mem stays)
      · split at member
        · next same =>
            rcases List.mem_cons.mp member with rfl | stays
            · exact .inr (.inl ⟨items, same ▸ List.mem_cons_self, same ▸ rfl⟩)
            · exact .inl ⟨fun equal => apart stays (same ▸ equal.symm),
                List.mem_cons_of_mem _ stays⟩
        · next notBefore different =>
            rcases List.mem_cons.mp member with rfl | inTail
            · exact .inl ⟨Ne.symm different, List.mem_cons_self⟩
            · rcases inductionHypothesis ordered inTail with
                ⟨elsewhere, stays⟩ | ⟨held, inside, rfl⟩ | ⟨new, rfl⟩
              · exact .inl ⟨elsewhere, List.mem_cons_of_mem _ stays⟩
              · exact .inr (.inl ⟨held, List.mem_cons_of_mem _ inside, rfl⟩)
              · refine .inr (.inr ⟨?_, rfl⟩)
                rw [List.map_cons, List.mem_cons, not_or]
                exact ⟨different, new⟩

/-- Some items that stand at a position, in their order. -/
def itemsAt (position : UInt32) (items : List (UInt32 × Item)) : List Item :=
  (items.filter (·.1 = position)).map Prod.snd

theorem itemsAt_append (position : UInt32) (items others : List (UInt32 × Item)) :
    itemsAt position (items ++ others) = itemsAt position items ++ itemsAt position others := by
  rw [itemsAt, List.filter_append, List.map_append]
  rfl

theorem itemsAt_eq_nil_iff {position : UInt32} {items : List (UInt32 × Item)} :
    itemsAt position items = [] ↔ position ∉ items.map Prod.fst := by
  rw [itemsAt, List.map_eq_nil_iff, List.filter_eq_nil_iff, List.mem_map, not_exists]
  simp

/-- A group holds the items of its position in their order. -/
theorem eq_itemsAt_of_mem_groupByPosition {items : List (UInt32 × Item)}
    {group : UInt32 × List Item} (member : group ∈ groupByPosition items) :
    group.2 = itemsAt group.1 items := by
  induction items using List.reverseRecOn generalizing group with
  | nil => exact absurd member List.not_mem_nil
  | append_singleton items last inductionHypothesis =>
      obtain ⟨position, item⟩ := last
      have own : itemsAt position [(position, item)] = [item] := by simp [itemsAt]
      rw [groupByPosition_append_singleton] at member
      rw [itemsAt_append]
      rcases mem_insertAtPosition (ascending_groupByPosition items) member with
        ⟨elsewhere, stays⟩ | ⟨held, inside, rfl⟩ | ⟨new, rfl⟩
      · have other : itemsAt group.1 [(position, item)] = [] :=
          itemsAt_eq_nil_iff.mpr (by simpa using elsewhere)
        rw [other, List.append_nil]
        exact inductionHypothesis stays
      · rw [own]
        exact congrArg (· ++ [item]) (inductionHypothesis inside)
      · rw [mem_positions_groupByPosition, ← itemsAt_eq_nil_iff] at new
        rw [own, new]
        rfl

theorem groupByPosition_eq_map (items : List (UInt32 × Item)) :
    groupByPosition items =
      ((groupByPosition items).map Prod.fst).map fun position =>
        (position, itemsAt position items) := by
  rw [List.map_map]
  refine (List.map_id _).symm.trans (List.map_congr_left fun group member => ?_)
  exact Prod.ext rfl (eq_itemsAt_of_mem_groupByPosition member)

/-- Items are gathered to the same groups when there are the same items in the same
order at each position. -/
theorem groupByPosition_congr {items others : List (UInt32 × Item)}
    (same : ∀ position, itemsAt position items = itemsAt position others) :
    groupByPosition items = groupByPosition others := by
  have ascending := ascending_groupByPosition items
  have othersAscending := ascending_groupByPosition others
  have members (position : UInt32) : position ∈ (groupByPosition items).map Prod.fst ↔
      position ∈ (groupByPosition others).map Prod.fst := by
    rw [mem_positions_groupByPosition, mem_positions_groupByPosition, ← not_iff_not,
      ← itemsAt_eq_nil_iff, ← itemsAt_eq_nil_iff, same]
  have positions : (groupByPosition items).map Prod.fst =
      (groupByPosition others).map Prod.fst := by
    refine List.Perm.eq_of_pairwise (fun first second _ _ below above => ?_) ascending
      othersAscending ((List.perm_ext_iff_of_nodup (ascending.imp UInt32.ne_of_lt)
        (othersAscending.imp UInt32.ne_of_lt)).mpr members)
    exact absurd (UInt32.lt_trans below above) (UInt32.lt_irrefl first)
  rw [groupByPosition_eq_map items, groupByPosition_eq_map others, positions]
  exact List.map_congr_left fun position _ => Prod.ext rfl (same position)

end QueryForest
