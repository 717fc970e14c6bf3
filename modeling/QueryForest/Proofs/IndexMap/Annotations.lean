import Mathlib.Data.List.Induction
import Mathlib.Data.Set.Card
import QueryForest.Annotation
import QueryForest.Proofs.IndexMap.Changes
import QueryForest.Proofs.Sequence

/-!
# What annotations record

Annotations are the outcome of their history, a list of changes.  Whichever lawful map
holds them, they answer by the history, and the order in which they stand is the order
that the changes leave.  The annotations of a node are the entries of the node in that
order, so each entry belongs to one node and no entry is lost between nodes.
-/

namespace QueryForest

section Parts

variable {Item Key : Type} [DecidableEq Key] (keyOf : Item → Key)

theorem filter_filter_of_ne {key other : Key} (different : other ≠ key) (items : List Item) :
    (items.filter fun item => !decide (keyOf item = key)).filter (keyOf · = other) =
      items.filter (keyOf · = other) := by
  rw [List.filter_filter]
  apply List.filter_congr
  intro item _
  by_cases same : keyOf item = other <;> simp [same, different]

/-- Items that are taken key by key are all items. -/
theorem flatMap_filter_perm {keys : List Key} (nodup : keys.Nodup) {items : List Item}
    (known : ∀ item ∈ items, keyOf item ∈ keys) :
    (keys.flatMap fun key => items.filter (keyOf · = key)).Perm items := by
  induction keys generalizing items with
  | nil =>
      have empty : items = [] := List.eq_nil_iff_forall_not_mem.mpr fun item member =>
        List.not_mem_nil (known item member)
      rw [empty]
      exact .refl _
  | cons key tail inductionHypothesis =>
      obtain ⟨fresh, others⟩ := List.nodup_cons.mp nodup
      have remaining : ∀ item ∈ items.filter (fun item => !decide (keyOf item = key)),
          keyOf item ∈ tail := by
        intro item member
        obtain ⟨inside, different⟩ := List.mem_filter.mp member
        exact (List.mem_cons.mp (known item inside)).resolve_left (by simpa using different)
      have ofRemaining (other : Key) (member : other ∈ tail) :
          items.filter (keyOf · = other) =
            (items.filter fun item => !decide (keyOf item = key)).filter (keyOf · = other) := by
        have different : other ≠ key := fun same => fresh (same ▸ member)
        exact (filter_filter_of_ne keyOf different items).symm
      rw [List.flatMap_cons, List.flatMap_congr ofRemaining]
      exact ((inductionHypothesis others remaining).append_left _).trans
        (List.filter_append_perm _ items)

end Parts

namespace IndexMap

variable {Key Value : Type} [DecidableEq Key]

/-- The value that was last set for a key and neither removed nor cleared since. -/
def recorded (history : List (Change Key Value)) (key : Key) : Option Value :=
  (history.filterMap (Change.about? key)).getLast?.join

theorem recorded_concat (history : List (Change Key Value)) (change : Change Key Value)
    (key : Key) :
    recorded (history ++ [change]) key = (change.about? key).getD (recorded history key) := by
  rw [recorded, getLast?_filterMap_concat]
  cases change.about? key <;> rfl

/-- A lawful map has as many entries as keys have a value. -/
theorem size_eq_encard {Map : Type → Type → Type} [IndexMap Map] [LawfulIndexMap Map]
    (map : Map Key Value) : {key | get? map key ≠ none}.encard = size map := by
  have same : {key | get? map key ≠ none} =
      (((toList map).map Prod.fst).toFinset : Set Key) := by
    ext key
    rw [Set.mem_ofPred_eq, Finset.mem_coe, List.mem_toFinset, ne_eq, get?_eq_none_iff, not_not]
  rw [same, Set.encard_coe_eq_coe_finsetCard,
    List.toFinset_card_of_nodup (LawfulIndexMap.nodup_keys map), List.length_map,
    LawfulIndexMap.size_eq_length]

theorem isEmpty_iff_get? {Map : Type → Type → Type} [IndexMap Map] [LawfulIndexMap Map]
    (map : Map Key Value) : isEmpty map = true ↔ ∀ key, get? map key = none := by
  have noKeys : toList map = [] ↔ (toList map).map Prod.fst = [] := List.map_eq_nil_iff.symm
  rw [LawfulIndexMap.isEmpty_iff, noKeys, List.eq_nil_iff_forall_not_mem]
  simp only [get?_eq_none_iff]

end IndexMap

namespace Annotations

variable {Map : Type → Type → Type} [IndexMap Map] {Value : Type}

def alter (annotations : Annotations Map Value) :
    IndexMap.Change (NodeId × String) Value → Annotations Map Value
  | .set (id, label) value => (annotations.set id label value).2
  | .remove (id, label) => (annotations.remove id label).2
  | .clear => annotations.clear

theorem entries_alter (annotations : Annotations Map Value)
    (change : IndexMap.Change (NodeId × String) Value) :
    (annotations.alter change).entries = IndexMap.alter annotations.entries change := by
  cases change <;> rfl

variable (Map) in
/-- The annotations after several changes, none at first. -/
def ofChanges (history : List (IndexMap.Change (NodeId × String) Value)) : Annotations Map Value :=
  history.foldl alter .empty

theorem ofChanges_concat (history : List (IndexMap.Change (NodeId × String) Value))
    (change : IndexMap.Change (NodeId × String) Value) :
    ofChanges Map (history ++ [change]) = (ofChanges Map history).alter change := by
  simp [ofChanges]

def entryOf (id : NodeId) : String × Value → (NodeId × String) × Value :=
  fun (label, value) => ((id, label), value)

theorem map_entryOf_ofNode (annotations : Annotations Map Value) (id : NodeId) :
    (annotations.ofNode id).map (entryOf id) =
      annotations.toList.filter (fun entry => entry.1.1 = id) := by
  rw [ofNode, List.map_map]
  refine (List.map_congr_left fun entry member => ?_).trans (List.map_id _)
  obtain ⟨_, ofNode⟩ := List.mem_filter.mp member
  rw [Function.comp_apply, entryOf, ← of_decide_eq_true ofNode]
  rfl

theorem flatMap_ofNode_perm (annotations : Annotations Map Value) {nodes : List NodeId}
    (nodup : nodes.Nodup) (known : ∀ entry ∈ annotations.toList, entry.1.1 ∈ nodes) :
    (nodes.flatMap fun id => (annotations.ofNode id).map (entryOf id)).Perm
      annotations.toList := by
  simp only [map_entryOf_ofNode]
  exact flatMap_filter_perm (fun entry : (NodeId × String) × Value => entry.1.1) nodup known

section Lawful

variable [LawfulIndexMap Map]

theorem toList_empty : (empty : Annotations Map Value).toList = [] :=
  LawfulIndexMap.toList_empty

theorem nodup_keys (annotations : Annotations Map Value) :
    (annotations.toList.map Prod.fst).Nodup :=
  LawfulIndexMap.nodup_keys annotations.entries

theorem get?_eq_some_iff {annotations : Annotations Map Value} {id : NodeId} {label : String}
    {value : Value} :
    annotations.get? id label = some value ↔ ((id, label), value) ∈ annotations.toList :=
  LawfulIndexMap.get?_eq_some_iff

theorem get?_eq_none_iff {annotations : Annotations Map Value} {id : NodeId} {label : String} :
    annotations.get? id label = none ↔ (id, label) ∉ annotations.toList.map Prod.fst :=
  IndexMap.get?_eq_none_iff annotations.entries (id, label)

theorem get?_empty (id : NodeId) (label : String) :
    (empty : Annotations Map Value).get? id label = none := by
  rw [get?_eq_none_iff, toList_empty]
  exact List.not_mem_nil

theorem set_fst (annotations : Annotations Map Value) (id : NodeId) (label : String)
    (value : Value) : (annotations.set id label value).1 = annotations.get? id label :=
  (IndexMap.insert_spec annotations.entries (id, label) value).1

theorem remove_fst (annotations : Annotations Map Value) (id : NodeId) (label : String) :
    (annotations.remove id label).1 = annotations.get? id label :=
  (IndexMap.swapRemove_spec annotations.entries (id, label)).1

theorem toList_set_of_new {annotations : Annotations Map Value} {id : NodeId} {label : String}
    (new : (id, label) ∉ annotations.toList.map Prod.fst) (value : Value) :
    (annotations.set id label value).2.toList = annotations.toList ++ [((id, label), value)] :=
  (LawfulIndexMap.insert_new new value).2

theorem get?_set (annotations : Annotations Map Value) (id other : NodeId) (label : String)
    (value : Value) :
    (annotations.set id label value).2.get? other label =
      if other = id then some value else annotations.get? other label := by
  refine (IndexMap.get?_insert annotations.entries (id, label) (other, label) value).trans ?_
  simp only [Prod.mk.injEq, and_true, eq_comm, get?]

theorem get?_ofChanges (history : List (IndexMap.Change (NodeId × String) Value)) (id : NodeId)
    (label : String) :
    (ofChanges Map history).get? id label = IndexMap.recorded history (id, label) := by
  induction history using List.reverseRecOn with
  | nil => exact get?_empty id label
  | append_singleton earlier change inductionHypothesis =>
      rw [ofChanges_concat, IndexMap.recorded_concat, ← inductionHypothesis, get?, entries_alter]
      exact IndexMap.get?_alter _ change (id, label)

/-- The laws fix the entries, so it does not matter which lawful map holds them. -/
theorem toList_ofChanges_eq (Other : Type → Type → Type) [IndexMap Other] [LawfulIndexMap Other]
    (history : List (IndexMap.Change (NodeId × String) Value)) :
    (ofChanges Map history).toList = (ofChanges Other history).toList := by
  induction history using List.reverseRecOn with
  | nil => rw [ofChanges, ofChanges, List.foldl_nil, List.foldl_nil, toList_empty, toList_empty]
  | append_singleton earlier change inductionHypothesis =>
      rw [ofChanges_concat, ofChanges_concat, toList, toList, entries_alter, entries_alter]
      exact (IndexMap.rearranges_alter _ change).eq_alter inductionHypothesis.symm

variable (Map) in
/-- Annotations that a lawful map holds answer by what the history of their changes
records: a label of a node has the value that was last set for it, if it was neither removed
nor cleared since, a change gives back the value of before, and there are as many entries as
labels that have a value.  Every change rearranges the entries, of which each label of a
node has one, in the known way.  The annotations of a node are its entries in their order,
and those of all nodes are all entries. -/
theorem changes_are_recorded (history : List (IndexMap.Change (NodeId × String) Value)) :
    (∀ id label,
      (ofChanges Map history).get? id label = IndexMap.recorded history (id, label) ∧
      (ofChanges Map history).contains id label = (IndexMap.recorded history (id, label)).isSome ∧
      (∀ value,
        ((ofChanges Map history).set id label value).1 = IndexMap.recorded history (id, label)) ∧
      ((ofChanges Map history).remove id label).1 = IndexMap.recorded history (id, label)) ∧
    {key | IndexMap.recorded history key ≠ none}.encard = (ofChanges Map history).size ∧
    ((ofChanges Map history).isEmpty = true ↔ ∀ key, IndexMap.recorded history key = none) ∧
    ((ofChanges Map history).toList.map Prod.fst).Nodup ∧
    (∀ change next, IndexMap.Change.Rearranges change (ofChanges Map history).toList next ↔
      next = (ofChanges Map (history ++ [change])).toList) ∧
    (∀ id, ((ofChanges Map history).ofNode id).map (entryOf id) =
      (ofChanges Map history).toList.filter (fun entry => entry.1.1 = id)) ∧
    ∀ nodes : List NodeId, nodes.Nodup →
      (∀ entry ∈ (ofChanges Map history).toList, entry.1.1 ∈ nodes) →
        (nodes.flatMap fun id => ((ofChanges Map history).ofNode id).map (entryOf id)).Perm
          (ofChanges Map history).toList := by
  have values (key : NodeId × String) :
      IndexMap.get? (ofChanges Map history).entries key = IndexMap.recorded history key :=
    get?_ofChanges history key.1 key.2
  refine ⟨fun id label => ⟨values _, ?_, fun value => ?_, ?_⟩, ?_, ?_, nodup_keys _,
    fun change next => ?_, map_entryOf_ofNode _, fun nodes nodup known => ?_⟩
  · rw [contains, IndexMap.contains_eq, values]
  · rw [set_fst, get?_ofChanges]
  · rw [remove_fst, get?_ofChanges]
  · rw [← funext values, IndexMap.size_eq_encard]
    rfl
  · rw [← funext values]
    exact IndexMap.isEmpty_iff_get? _
  · rw [ofChanges_concat, toList, toList, entries_alter]
    exact IndexMap.rearranges_iff _ change next
  · exact flatMap_ofNode_perm _ nodup known

end Lawful

/-- A history in which a removed entry is not the last, and comes back. -/
def refilledHistory : List (IndexMap.Change (NodeId × String) Nat) :=
  [.set (0, "artifact") 1, .set (0, "note") 2, .set (1, "artifact") 3, .remove (0, "artifact"),
    .set (0, "note") 4, .set (0, "artifact") 5]

theorem changes_are_recorded_refilled :
    (ofChanges Table refilledHistory).toList =
        [((1, "artifact"), 3), ((0, "note"), 4), ((0, "artifact"), 5)] ∧
      (ofChanges Table refilledHistory).get? 0 "note" = some 4 ∧
      ((ofChanges Table refilledHistory).remove 0 "artifact").1 = some 5 ∧
      (ofChanges Table refilledHistory).ofNode 0 = [("note", 4), ("artifact", 5)] ∧
      [0, 1].Nodup ∧
      (∀ entry ∈ (ofChanges Table refilledHistory).toList, entry.1.1 ∈ [0, 1]) ∧
      ([0, 1].flatMap fun id =>
        ((ofChanges Table refilledHistory).ofNode id).map (entryOf id)).Perm
          (ofChanges Table refilledHistory).toList := by
  obtain ⟨values, _, _, _, _, _, parts⟩ := changes_are_recorded Table refilledHistory
  have known : ∀ entry ∈ (ofChanges Table refilledHistory).toList, entry.1.1 ∈ [0, 1] := by
    decide
  exact ⟨by decide, (values 0 "note").1, (values 0 "artifact").2.2.2, by decide, by decide, known,
    parts [0, 1] (by decide) known⟩

end Annotations

end QueryForest
