import Mathlib.Data.List.Perm.Basic
import QueryForest.Table

/-!
# How a map changes

One relation says how a change rearranges the entries of a map that keeps an order.  It
follows from the laws of the map, and they leave it no choice.  All that a map keeps is
read off the relation: the keys stay different, and each key has the value that a change
says, or else the one that it had.
-/

namespace QueryForest.IndexMap

variable {Key Value : Type}

inductive Change (Key Value : Type) where
  | set (key : Key) (value : Value)
  | remove (key : Key)
  | clear

/-- How a change rearranges entries: a new key goes to the end, a known one keeps its
place, and the last entry takes the place of one that is removed. -/
inductive Change.Rearranges : Change Key Value → List (Key × Value) → List (Key × Value) → Prop
  | appended {key : Key} {value : Value} {entries : List (Key × Value)}
      (new : key ∉ entries.map Prod.fst) :
      Rearranges (.set key value) entries (entries ++ [(key, value)])
  | overwritten (key : Key) (former value : Value) (before after : List (Key × Value)) :
      Rearranges (.set key value) (before ++ (key, former) :: after)
        (before ++ (key, value) :: after)
  | filled (key : Key) (former : Value) (last : Key × Value) (before after : List (Key × Value)) :
      Rearranges (.remove key) (before ++ (key, former) :: after ++ [last])
        (before ++ last :: after)
  | dropped (key : Key) (former : Value) (before : List (Key × Value)) :
      Rearranges (.remove key) (before ++ [(key, former)]) before
  | ignored {key : Key} {entries : List (Key × Value)} (unknown : key ∉ entries.map Prod.fst) :
      Rearranges (.remove key) entries entries
  | cleared (entries : List (Key × Value)) : Rearranges .clear entries []

/-- What is left of entries without a key, in any order. -/
inductive IsWithout (key : Key) (entries rest : List (Key × Value)) : Prop
  | unknown (absent : key ∉ entries.map Prod.fst) (same : entries.Perm rest)
  | known (former : Value) (split : entries.Perm ((key, former) :: rest))

theorem IsWithout.nodup_cons {key : Key} {entries rest : List (Key × Value)}
    (without : IsWithout key entries rest) (nodup : (entries.map Prod.fst).Nodup) :
    (key :: rest.map Prod.fst).Nodup := by
  cases without with
  | unknown absent same =>
      have keys := same.map Prod.fst
      exact List.nodup_cons.mpr
        ⟨fun later => absent (keys.mem_iff.mpr later), keys.nodup_iff.mp nodup⟩
  | known former split => exact (split.map Prod.fst).nodup_iff.mp nodup

namespace Change.Rearranges

variable {entries next : List (Key × Value)}

theorem exists_isWithout {key : Key} {value : Value}
    (rearranges : (Change.set key value).Rearranges entries next) :
    ∃ rest, IsWithout key entries rest ∧ next.Perm ((key, value) :: rest) := by
  cases rearranges with
  | appended new => exact ⟨entries, .unknown new (.refl _), List.perm_append_singleton _ _⟩
  | overwritten key former value before after =>
      exact ⟨before ++ after, .known former List.perm_middle, List.perm_middle⟩

/-- Removing a key leaves the others. -/
theorem isWithout {key : Key} (rearranges : (Change.remove key).Rearranges entries next) :
    IsWithout key entries next := by
  cases rearranges with
  | filled key former last before after =>
      have moved : (before ++ (after ++ [last])).Perm (before ++ last :: after) :=
        (List.perm_append_singleton last after).append_left before
      rw [List.append_assoc, List.cons_append]
      exact .known former (List.perm_middle.trans (moved.cons _))
  | dropped key former => exact .known former (List.perm_append_singleton _ _)
  | ignored unknown => exact .unknown unknown (.refl _)

/-- Different keys stay different. -/
theorem nodup {change : Change Key Value} (rearranges : change.Rearranges entries next)
    (nodup : (entries.map Prod.fst).Nodup) : (next.map Prod.fst).Nodup := by
  cases change with
  | set key value =>
      obtain ⟨rest, without, placed⟩ := rearranges.exists_isWithout
      exact (placed.map Prod.fst).nodup_iff.mpr (without.nodup_cons nodup)
  | remove key => exact (List.nodup_cons.mp (rearranges.isWithout.nodup_cons nodup)).2
  | clear =>
      cases rearranges
      exact List.nodup_nil

end Change.Rearranges

section Values

variable [DecidableEq Key]

/-- What a change says of a key, if it concerns the key: the value that the key has from
then on, or that it has none. -/
def Change.about? (sought : Key) : Change Key Value → Option (Option Value)
  | .set key value => if key = sought then some (some value) else none
  | .remove key => if key = sought then some none else none
  | .clear => some none

theorem lookup_of_perm {entries others : List (Key × Value)} (same : entries.Perm others)
    (nodup : (entries.map Prod.fst).Nodup) (sought : Key) :
    entries.lookup sought = others.lookup sought := by
  have othersNodup := (same.map Prod.fst).nodup_iff.mp nodup
  ext value
  rw [Table.lookup_eq_some_iff_mem nodup, Table.lookup_eq_some_iff_mem othersNodup, same.mem_iff]

theorem IsWithout.lookup {key : Key} {entries rest : List (Key × Value)}
    (without : IsWithout key entries rest) (nodup : (entries.map Prod.fst).Nodup)
    (sought : Key) :
    rest.lookup sought = if key = sought then none else entries.lookup sought := by
  obtain ⟨absent, _⟩ := List.nodup_cons.mp (without.nodup_cons nodup)
  split
  · next same => exact Table.lookup_eq_none_of_not_mem (same ▸ absent)
  · next different =>
      cases without with
      | unknown _ same => exact (lookup_of_perm same nodup sought).symm
      | known former split =>
          rw [lookup_of_perm split nodup, Table.lookup_cons, if_neg (Ne.symm different)]

/-- A key has the value that the change says, or else the one it had. -/
theorem Change.Rearranges.lookup {change : Change Key Value} {entries next : List (Key × Value)}
    (rearranges : change.Rearranges entries next) (nodup : (entries.map Prod.fst).Nodup)
    (sought : Key) :
    next.lookup sought = (change.about? sought).getD (entries.lookup sought) := by
  cases change with
  | set key value =>
      obtain ⟨rest, without, placed⟩ := rearranges.exists_isWithout
      -- where the entry was put does not matter to the look-up, so it may stand first
      rw [lookup_of_perm placed (rearranges.nodup nodup), Table.lookup_cons,
        without.lookup nodup, about?]
      by_cases known : key = sought
      · rw [if_pos known.symm, if_pos known, Option.getD_some]
      · rw [if_neg (Ne.symm known), if_neg known, if_neg known, Option.getD_none]
  | remove key =>
      rw [rearranges.isWithout.lookup nodup, about?]
      split <;> rfl
  | clear =>
      cases rearranges
      rfl

/-! ## Changes of a lawful map -/

variable {Map : Type → Type → Type} [IndexMap Map]

def alter (map : Map Key Value) : Change Key Value → Map Key Value
  | .set key value => (insert map key value).2
  | .remove key => (swapRemove map key).2
  | .clear => clear map

variable [LawfulIndexMap Map]

theorem get?_eq_lookup (map : Map Key Value) (key : Key) :
    get? map key = (toList map).lookup key := by
  ext value
  rw [LawfulIndexMap.get?_eq_some_iff,
    Table.lookup_eq_some_iff_mem (LawfulIndexMap.nodup_keys map)]

theorem get?_eq_none_iff (map : Map Key Value) (key : Key) :
    get? map key = none ↔ key ∉ (toList map).map Prod.fst := by
  constructor
  · intro absent known
    obtain ⟨⟨_, value⟩, member, rfl⟩ := List.mem_map.mp known
    rw [LawfulIndexMap.get?_eq_some_iff.mpr member] at absent
    cases absent
  · intro unknown
    rw [get?_eq_lookup, Table.lookup_eq_none_of_not_mem unknown]

theorem contains_eq (map : Map Key Value) (key : Key) :
    contains map key = (get? map key).isSome := by
  rw [Bool.eq_iff_iff, LawfulIndexMap.contains_iff, Option.isSome_iff_ne_none,
    ne_eq, get?_eq_none_iff, not_not]

theorem get?_of_entry {map : Map Key Value} {key : Key} {value : Value}
    {before after : List (Key × Value)} (split : toList map = before ++ (key, value) :: after) :
    get? map key = some value :=
  LawfulIndexMap.get?_eq_some_iff.mpr (split ▸ List.mem_append_right before List.mem_cons_self)

/-- Setting a key gives back what it had. -/
theorem insert_spec (map : Map Key Value) (key : Key) (value : Value) :
    (insert map key value).1 = get? map key ∧
      (Change.set key value).Rearranges (toList map) (toList (insert map key value).2) := by
  by_cases known : key ∈ (toList map).map Prod.fst
  · obtain ⟨before, former, after, split⟩ := Table.exists_entry known
    obtain ⟨returned, entries⟩ := LawfulIndexMap.insert_known split value
    rw [returned, entries, get?_of_entry split, split]
    exact ⟨rfl, .overwritten key former value before after⟩
  · obtain ⟨returned, entries⟩ := LawfulIndexMap.insert_new known value
    rw [returned, entries, (get?_eq_none_iff map key).mpr known]
    exact ⟨rfl, .appended known⟩

/-- Removing a key gives back what it had. -/
theorem swapRemove_spec (map : Map Key Value) (key : Key) :
    (swapRemove map key).1 = get? map key ∧
      (Change.remove key).Rearranges (toList map) (toList (swapRemove map key).2) := by
  by_cases known : key ∈ (toList map).map Prod.fst
  · obtain ⟨before, former, after, split⟩ := Table.exists_entry known
    rw [get?_of_entry split]
    rcases List.eq_nil_or_concat' after with rfl | ⟨between, last, rfl⟩
    · obtain ⟨returned, entries⟩ := LawfulIndexMap.swapRemove_last split
      rw [returned, entries, split]
      exact ⟨rfl, .dropped key former before⟩
    · rw [← List.cons_append, ← List.append_assoc] at split
      obtain ⟨returned, entries⟩ := LawfulIndexMap.swapRemove_earlier split
      rw [returned, entries, split]
      exact ⟨rfl, .filled key former last before between⟩
  · obtain ⟨returned, entries⟩ := LawfulIndexMap.swapRemove_unknown known
    rw [returned, entries, (get?_eq_none_iff map key).mpr known]
    exact ⟨rfl, .ignored known⟩

theorem rearranges_alter (map : Map Key Value) (change : Change Key Value) :
    change.Rearranges (toList map) (toList (alter map change)) := by
  cases change with
  | set key value => exact (insert_spec map key value).2
  | remove key => exact (swapRemove_spec map key).2
  | clear =>
      rw [alter, LawfulIndexMap.toList_clear]
      exact .cleared _

/-- A change can rearrange the entries of a map in one way only. -/
theorem Change.Rearranges.eq_alter {map : Map Key Value} {change : Change Key Value}
    {entries next : List (Key × Value)} (rearranges : change.Rearranges entries next)
    (held : toList map = entries) : next = toList (alter map change) := by
  cases rearranges with
  | appended new =>
      subst held
      exact (LawfulIndexMap.insert_new new _).2.symm
  | overwritten key former value before after =>
      exact (LawfulIndexMap.insert_known held value).2.symm
  | filled key former last before after =>
      exact (LawfulIndexMap.swapRemove_earlier held).2.symm
  | dropped key former => exact (LawfulIndexMap.swapRemove_last held).2.symm
  | ignored unknown =>
      subst held
      exact (LawfulIndexMap.swapRemove_unknown unknown).2.symm
  | cleared => exact (LawfulIndexMap.toList_clear map).symm

theorem rearranges_iff (map : Map Key Value) (change : Change Key Value)
    (next : List (Key × Value)) :
    change.Rearranges (toList map) next ↔ next = toList (alter map change) := by
  constructor
  · exact fun rearranges => rearranges.eq_alter rfl
  · rintro rfl
    exact rearranges_alter map change

theorem get?_alter (map : Map Key Value) (change : Change Key Value) (sought : Key) :
    get? (alter map change) sought = (change.about? sought).getD (get? map sought) := by
  rw [get?_eq_lookup, get?_eq_lookup]
  exact (rearranges_alter map change).lookup (LawfulIndexMap.nodup_keys map) sought

theorem get?_insert (map : Map Key Value) (key other : Key) (value : Value) :
    get? (insert map key value).2 other = if key = other then some value else get? map other := by
  rw [← show alter map (.set key value) = (insert map key value).2 from rfl, get?_alter,
    Change.about?]
  split <;> rfl

end Values

end QueryForest.IndexMap
