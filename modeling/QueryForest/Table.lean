import QueryForest.IndexMap

/-!
# Tables in order of insertion

A table holds one value for each of its keys, in a list of entries.  It is one of the maps
that keep an order.
-/

namespace QueryForest

/-- Keys with their values, each key once. -/
structure Table (Key Value : Type) where
  entries : List (Key × Value) := []
  distinct : (entries.map Prod.fst).Nodup := by exact List.nodup_nil

namespace Table

variable {Key Value : Type}

@[ext]
theorem ext {table other : Table Key Value} (same : table.entries = other.entries) :
    table = other := by
  cases table
  cases other
  cases same
  rfl

def empty : Table Key Value := {}

section Keys

variable [DecidableEq Key]

def get? (table : Table Key Value) (key : Key) : Option Value :=
  table.entries.lookup key

/-- Change the value of a key in place, or append the key. -/
def insertInto (key : Key) (value : Value) :
    List (Key × Value) → List (Key × Value)
  | [] => [(key, value)]
  | (other, held) :: tail =>
      if other = key then
        (key, value) :: tail
      else
        (other, held) :: insertInto key value tail

/-- Remove the entry at a place, which the last entry then takes. -/
def eraseAt (place : Nat) (entries : List (Key × Value)) :
    List (Key × Value) :=
  match entries.getLast? with
  | none => []
  | some last => (entries.set place last).dropLast

def eraseFrom (key : Key) (entries : List (Key × Value)) : List (Key × Value) :=
  match (entries.map Prod.fst).idxOf? key with
  | none => entries
  | some place => eraseAt place entries

omit [DecidableEq Key] in
theorem exists_entry {key : Key} {entries : List (Key × Value)}
    (known : key ∈ entries.map Prod.fst) :
    ∃ before former after, entries = before ++ (key, former) :: after := by
  obtain ⟨⟨_, former⟩, member, rfl⟩ := List.mem_map.mp known
  obtain ⟨before, after, split⟩ := List.append_of_mem member
  exact ⟨before, former, after, split⟩

omit [DecidableEq Key] in
theorem not_mem_before {key : Key} {former : Value} {before after : List (Key × Value)}
    (nodup : ((before ++ (key, former) :: after).map Prod.fst).Nodup) :
    key ∉ before.map Prod.fst := by
  rw [List.map_append, List.map_cons, List.nodup_append] at nodup
  exact fun earlier => nodup.2.2 key earlier key List.mem_cons_self rfl

theorem insertInto_of_not_mem {key : Key} {entries : List (Key × Value)}
    (new : key ∉ entries.map Prod.fst) (value : Value) :
    insertInto key value entries = entries ++ [(key, value)] := by
  induction entries with
  | nil => rfl
  | cons entry tail inductionHypothesis =>
      rw [List.map_cons, List.mem_cons, not_or] at new
      rw [insertInto, if_neg (Ne.symm new.1), inductionHypothesis new.2, List.cons_append]

/-- The first entry of a known key changes its value. -/
theorem insertInto_append {key : Key} {before : List (Key × Value)}
    (first : key ∉ before.map Prod.fst) (former value : Value) (after : List (Key × Value)) :
    insertInto key value (before ++ (key, former) :: after) = before ++ (key, value) :: after := by
  induction before with
  | nil => rw [List.nil_append, insertInto, if_pos rfl, List.nil_append]
  | cons entry tail inductionHypothesis =>
      rw [List.map_cons, List.mem_cons, not_or] at first
      rw [List.cons_append, insertInto, if_neg (Ne.symm first.1), inductionHypothesis first.2,
        List.cons_append]

theorem nodup_insertInto {key : Key} {entries : List (Key × Value)}
    (nodup : (entries.map Prod.fst).Nodup) (value : Value) :
    ((insertInto key value entries).map Prod.fst).Nodup := by
  by_cases known : key ∈ entries.map Prod.fst
  · obtain ⟨before, former, after, rfl⟩ := exists_entry known
    rw [insertInto_append (not_mem_before nodup)]
    rw [List.map_append, List.map_cons] at nodup ⊢
    exact nodup
  · rw [insertInto_of_not_mem known, List.map_append, List.nodup_append]
    refine ⟨nodup, List.pairwise_singleton _ _, fun held member new listed same => known ?_⟩
    obtain rfl : new = key := List.mem_singleton.mp listed
    exact same ▸ member

omit [DecidableEq Key] in
theorem eraseAt_concat (before : List (Key × Value)) (last : Key × Value) :
    eraseAt before.length (before ++ [last]) = before := by
  rw [eraseAt, List.getLast?_concat]
  simp only [List.set_append_right, Nat.le_refl, Nat.sub_self, List.set_cons_zero,
    List.dropLast_concat]

omit [DecidableEq Key] in
theorem eraseAt_append_concat (before after : List (Key × Value)) (removed last : Key × Value) :
    eraseAt before.length (before ++ removed :: after ++ [last]) = before ++ last :: after := by
  have inside : before.length < (before ++ removed :: after).length := by simp
  rw [eraseAt, List.getLast?_concat]
  simp only [List.set_append_left _ _ inside, List.set_append_right, Nat.le_refl, Nat.sub_self,
    List.set_cons_zero, List.dropLast_concat]

theorem eraseFrom_of_not_mem {key : Key} {entries : List (Key × Value)}
    (unknown : key ∉ entries.map Prod.fst) : eraseFrom key entries = entries := by
  rw [eraseFrom, List.idxOf?_eq_none_iff.mpr unknown]

/-- It is the first entry of a key that is removed. -/
theorem eraseFrom_append {key : Key} {before : List (Key × Value)}
    (first : key ∉ before.map Prod.fst) (former : Value) (after : List (Key × Value)) :
    eraseFrom key (before ++ (key, former) :: after) =
      eraseAt before.length (before ++ (key, former) :: after) := by
  have place : ((before ++ (key, former) :: after).map Prod.fst).idxOf? key =
      some before.length := by
    rw [List.map_append, List.map_cons, List.idxOf?_eq_some_iff]
    refine ⟨by simp, by simp, fun earlier inside same => first ?_⟩
    rw [List.getElem_append_left (by simpa using inside)] at same
    exact same ▸ List.getElem_mem _
  simp only [eraseFrom, place]

theorem eraseFrom_concat {key : Key} {former : Value} {before : List (Key × Value)}
    (first : key ∉ before.map Prod.fst) : eraseFrom key (before ++ [(key, former)]) = before := by
  rw [eraseFrom_append first, eraseAt_concat]

theorem eraseFrom_append_concat {key : Key} {former : Value} {before after : List (Key × Value)}
    (first : key ∉ before.map Prod.fst) (last : Key × Value) :
    eraseFrom key (before ++ (key, former) :: after ++ [last]) = before ++ last :: after := by
  rw [← eraseAt_append_concat before after (key, former) last, List.append_assoc,
    List.cons_append, eraseFrom_append first]

theorem nodup_eraseFrom (key : Key) {entries : List (Key × Value)}
    (nodup : (entries.map Prod.fst).Nodup) : ((eraseFrom key entries).map Prod.fst).Nodup := by
  by_cases known : key ∈ entries.map Prod.fst
  · obtain ⟨before, former, after, rfl⟩ := exists_entry known
    have first := not_mem_before nodup
    rcases after.eq_nil_or_concat with rfl | ⟨between, last, rfl⟩
    · rw [eraseFrom_concat first]
      exact nodup.sublist ((List.sublist_append_left _ _).map _)
    · have moved : (before ++ (between ++ [last])).Perm (before ++ last :: between) :=
        (List.perm_append_singleton last between).append_left before
      have others : (before ++ (between ++ [last])).Sublist
          (before ++ (key, former) :: (between ++ [last])) :=
        (List.sublist_cons_self _ _).append_left before
      rw [List.concat_eq_append] at nodup ⊢
      rw [← List.cons_append, ← List.append_assoc, eraseFrom_append_concat first]
      exact (moved.map Prod.fst).nodup_iff.mp (nodup.sublist (others.map Prod.fst))
  · rwa [eraseFrom_of_not_mem known]

def insert (table : Table Key Value) (key : Key) (value : Value) :
    Table Key Value where
  entries := insertInto key value table.entries
  distinct := nodup_insertInto table.distinct value

def erase (table : Table Key Value) (key : Key) : Table Key Value where
  entries := eraseFrom key table.entries
  distinct := nodup_eraseFrom key table.distinct

theorem lookup_cons (key held : Key) (value : Value)
    (tail : List (Key × Value)) :
    List.lookup key ((held, value) :: tail) =
      if key = held then some value else tail.lookup key := by
  rw [List.lookup_cons]
  by_cases same : key = held
  · rw [beq_iff_eq.mpr same, if_pos same]
  · rw [beq_eq_false_iff_ne.mpr same, if_neg same]

/-- Of entries with different keys, each is found under its key. -/
theorem lookup_eq_some_iff_mem {entries : List (Key × Value)}
    (nodup : (entries.map Prod.fst).Nodup) {key : Key} {value : Value} :
    entries.lookup key = some value ↔ (key, value) ∈ entries := by
  induction entries with
  | nil => simp
  | cons entry tail inductionHypothesis =>
      obtain ⟨held, content⟩ := entry
      obtain ⟨fresh, others⟩ := List.nodup_cons.mp nodup
      rw [lookup_cons, List.mem_cons]
      by_cases same : key = held
      · subst same
        have absent : (key, value) ∉ tail := fun later => fresh (List.mem_map.mpr ⟨_, later, rfl⟩)
        simp [absent, eq_comm]
      · rw [if_neg same, inductionHypothesis others]
        simp [same]

theorem lookup_eq_none_of_not_mem {entries : List (Key × Value)} {key : Key}
    (unknown : key ∉ entries.map Prod.fst) : entries.lookup key = none := by
  rw [List.lookup_eq_none_iff]
  intro entry member
  exact bne_iff_ne.mpr fun same => unknown (List.mem_map.mpr ⟨entry, member, same.symm⟩)

/-- Setting a key among entries gives it the value and leaves other keys
alone. -/
theorem lookup_insertInto (key other : Key) (value : Value)
    (entries : List (Key × Value)) :
    (insertInto key value entries).lookup other =
      if other = key then some value else entries.lookup other := by
  induction entries with
  | nil => exact lookup_cons other key value []
  | cons entry tail inductionHypothesis =>
      obtain ⟨held, content⟩ := entry
      rw [insertInto]
      split
      · next same =>
          subst same
          simp only [lookup_cons]
          split <;> rfl
      · next different =>
          simp only [lookup_cons, inductionHypothesis]
          split
          · next same => rw [if_neg (same ▸ different)]
          · rfl

theorem get?_insert (table : Table Key Value) (key other : Key) (value : Value) :
    (table.insert key value).get? other =
      if other = key then some value else table.get? other :=
  lookup_insertInto key other value table.entries

end Keys

/-! ## Tables as maps that keep an order -/

instance : IndexMap Table where
  empty := empty
  toList := entries
  size table := table.entries.length
  isEmpty table := table.entries.isEmpty
  clear _ := empty
  get? := get?
  contains table key := (table.get? key).isSome
  insert table key value := (table.get? key, table.insert key value)
  swapRemove table key := (table.get? key, table.erase key)

theorem get?_eq_some_iff [DecidableEq Key] {table : Table Key Value} {key : Key}
    {value : Value} : table.get? key = some value ↔ (key, value) ∈ table.entries :=
  lookup_eq_some_iff_mem table.distinct

theorem found_of_entries_eq [DecidableEq Key] {table : Table Key Value} {key : Key}
    {former : Value} {before after : List (Key × Value)}
    (known : table.entries = before ++ (key, former) :: after) :
    table.get? key = some former ∧ key ∉ before.map Prod.fst :=
  ⟨get?_eq_some_iff.mpr (known ▸ by simp), not_mem_before (known ▸ table.distinct)⟩

instance : LawfulIndexMap Table where
  nodup_keys table := table.distinct
  toList_empty := rfl
  size_eq_length _ := rfl
  isEmpty_iff _ := List.isEmpty_iff
  toList_clear _ := rfl
  get?_eq_some_iff := get?_eq_some_iff
  contains_iff {_ _ _ table key} := by
    constructor
    · intro found
      obtain ⟨value, held⟩ := Option.isSome_iff_exists.mp found
      exact List.mem_map.mpr ⟨_, get?_eq_some_iff.mp held, rfl⟩
    · intro known
      obtain ⟨⟨_, value⟩, member, rfl⟩ := List.mem_map.mp known
      exact Option.isSome_iff_exists.mpr ⟨value, get?_eq_some_iff.mpr member⟩
  insert_new new value := ⟨lookup_eq_none_of_not_mem new, insertInto_of_not_mem new value⟩
  insert_known {_ _ _ table _ former _ after} known value := by
    obtain ⟨found, first⟩ := found_of_entries_eq known
    refine ⟨found, ?_⟩
    change insertInto _ value table.entries = _
    rw [show table.entries = _ from known, insertInto_append first former value after]
  swapRemove_unknown unknown :=
    ⟨lookup_eq_none_of_not_mem unknown, eraseFrom_of_not_mem unknown⟩
  swapRemove_last {_ _ _ table _ _ _} known := by
    obtain ⟨found, first⟩ := found_of_entries_eq known
    refine ⟨found, ?_⟩
    change eraseFrom _ table.entries = _
    rw [show table.entries = _ from known, eraseFrom_concat first]
  swapRemove_earlier {_ _ _ table key former last before after} known := by
    have split : table.entries = before ++ (key, former) :: (after ++ [last]) := by
      rw [show table.entries = _ from known, List.append_assoc, List.cons_append]
    obtain ⟨found, first⟩ := found_of_entries_eq split
    refine ⟨found, ?_⟩
    change eraseFrom key table.entries = _
    rw [show table.entries = _ from known, eraseFrom_append_concat first]

end Table

end QueryForest
