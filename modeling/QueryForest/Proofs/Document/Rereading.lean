import QueryForest.Proofs.Document.Codec
import QueryForest.Proofs.Document.Normal

/-!
# The numbers of documents

Writing a document and reading it again replaces each of its numbers by what
the written form of the number is read as, and leaves everything else alone.
The document comes back if and only if all its numbers do.
-/

namespace QueryForest

open Number (Single)

/-- The written form of a number is read as the number. -/
def Number.Single.ReadsBack (single : Single) : Prop :=
  Json.asSingle (Document.ofSingle single) = .ok single

theorem Number.Single.ReadsBack.isFinite {single : Single}
    (reads : single.ReadsBack) : single.isFinite = true := by
  unfold ReadsBack Document.ofSingle at reads
  by_cases finite : single.isFinite = true
  · exact finite
  · rw [if_neg finite] at reads
    cases reads

namespace Document

def singlesOfLeaf : Leaf Single → List Single
  | .fuzzy _ similarity _ => [similarity]
  | .field _ | .quotedField _ | .matchAll | .matchNone => []

def singlesOfWrapper : Wrapper → List Single
  | .boost factor => [factor]
  | .group | .modifier _ | .slop _ => []

mutual

def singles : Document → List Single
  | .leaf bottom => singlesOfLeaf bottom
  | .wrapper around child => singlesOfWrapper around ++ singlesOfChild child
  | .composite _ children => singlesOfChildren children
termination_by structural document => document

def singlesOfChild : Option Document → List Single
  | none => []
  | some child => child.singles
termination_by structural child => child

def singlesOfChildren : List Document → List Single
  | [] => []
  | head :: tail => head.singles ++ singlesOfChildren tail
termination_by structural children => children

end

theorem map_singlesOfLeaf {bottom other : Leaf Single}
    (reread : rereadLeaf? bottom = some other) :
    (singlesOfLeaf bottom).map rereadSingle? = (singlesOfLeaf other).map some := by
  cases bottom with
  | fuzzy term similarity exactStart =>
      obtain ⟨read, found, same⟩ := Option.map_eq_some_iff.mp reread
      cases same
      simp only [singlesOfLeaf, List.map_cons, found]
      rfl
  | field term =>
      cases reread
      rfl
  | quotedField term =>
      cases reread
      rfl
  | matchAll =>
      cases reread
      rfl
  | matchNone =>
      cases reread
      rfl

theorem map_singlesOfWrapper {around other : Wrapper}
    (reread : rereadWrapper? around = some other) :
    (singlesOfWrapper around).map rereadSingle? = (singlesOfWrapper other).map some := by
  cases around with
  | boost factor =>
      obtain ⟨read, found, same⟩ := Option.map_eq_some_iff.mp reread
      cases same
      simp only [singlesOfWrapper, List.map_cons, found]
      rfl
  | group =>
      cases reread
      rfl
  | modifier modifier =>
      cases reread
      rfl
  | slop slop =>
      cases reread
      rfl

mutual

/-- Each number of a document that is read again is what the number there was
read as. -/
theorem map_singles : (document : Document) → (other : Document) →
    document.reread? = some other →
      document.singles.map rereadSingle? = other.singles.map some
  | .leaf bottom, other, reread => by
      rw [reread?] at reread
      obtain ⟨read, found, same⟩ := Option.map_eq_some_iff.mp reread
      cases same
      rw [singles, singles, map_singlesOfLeaf found]
  | .wrapper around child, other, reread => by
      rw [reread?] at reread
      obtain ⟨read, found, rest⟩ := Option.bind_eq_some_iff.mp reread
      obtain ⟨readChild, childFound, same⟩ := Option.map_eq_some_iff.mp rest
      cases same
      rw [singles, singles, List.map_append, List.map_append, map_singlesOfWrapper found,
        map_singlesOfChild child readChild childFound]
  | .composite above children, other, reread => by
      rw [reread?] at reread
      obtain ⟨readChildren, found, same⟩ := Option.map_eq_some_iff.mp reread
      cases same
      rw [singles, singles, map_singlesOfChildren children readChildren found]

theorem map_singlesOfChild : (child : Option Document) → (other : Option Document) →
    rereadChild? child = some other →
      (singlesOfChild child).map rereadSingle? = (singlesOfChild other).map some
  | none, other, reread => by
      rw [rereadChild?] at reread
      cases reread
      rfl
  | some child, other, reread => by
      rw [rereadChild?] at reread
      obtain ⟨read, found, same⟩ := Option.map_eq_some_iff.mp reread
      cases same
      rw [singlesOfChild, singlesOfChild, map_singles child read found]

theorem map_singlesOfChildren : (children : List Document) → (others : List Document) →
    rereadChildren? children = some others →
      (singlesOfChildren children).map rereadSingle? =
        (singlesOfChildren others).map some
  | [], others, reread => by
      rw [rereadChildren?] at reread
      cases reread
      rfl
  | head :: tail, others, reread => by
      rw [rereadChildren?] at reread
      obtain ⟨first, firstFound, rest⟩ := Option.bind_eq_some_iff.mp reread
      obtain ⟨later, laterFound, same⟩ := Option.map_eq_some_iff.mp rest
      cases same
      rw [singlesOfChildren, singlesOfChildren, List.map_append, List.map_append,
        map_singles head first firstFound, map_singlesOfChildren tail later laterFound]

end

theorem rereadSingle?_eq_some {single other : Single} :
    rereadSingle? single = some other ↔
      Json.asSingle (ofSingle single) = .ok other :=
  toOption_eq_some

theorem rereadLeaf?_of_readsBack (bottom : Leaf Single)
    (reads : ∀ single ∈ singlesOfLeaf bottom, single.ReadsBack) :
    rereadLeaf? bottom = some bottom := by
  cases bottom with
  | fuzzy term similarity exactStart =>
      have found := rereadSingle?_eq_some.mpr (reads similarity List.mem_cons_self)
      rw [rereadLeaf?, found]
      rfl
  | field term => rfl
  | quotedField term => rfl
  | matchAll => rfl
  | matchNone => rfl

theorem rereadWrapper?_of_readsBack (around : Wrapper)
    (reads : ∀ single ∈ singlesOfWrapper around, single.ReadsBack) :
    rereadWrapper? around = some around := by
  cases around with
  | boost factor =>
      have found := rereadSingle?_eq_some.mpr (reads factor List.mem_cons_self)
      rw [rereadWrapper?, found]
      rfl
  | group => rfl
  | modifier modifier => rfl
  | slop slop => rfl

mutual

theorem reread?_of_readsBack : (document : Document) →
    (∀ single ∈ document.singles, single.ReadsBack) → document.reread? = some document
  | .leaf bottom, reads => by
      rw [singles] at reads
      rw [reread?, rereadLeaf?_of_readsBack bottom reads]
      rfl
  | .wrapper around child, reads => by
      rw [singles] at reads
      rw [reread?, rereadWrapper?_of_readsBack around
        (fun single member => reads single (List.mem_append_left _ member)),
        rereadChild?_of_readsBack child
          (fun single member => reads single (List.mem_append_right _ member))]
      rfl
  | .composite above children, reads => by
      rw [singles] at reads
      rw [reread?, rereadChildren?_of_readsBack children reads]
      rfl

theorem rereadChild?_of_readsBack : (child : Option Document) →
    (∀ single ∈ singlesOfChild child, single.ReadsBack) → rereadChild? child = some child
  | none, _ => by rw [rereadChild?]
  | some child, reads => by
      rw [singlesOfChild] at reads
      rw [rereadChild?, reread?_of_readsBack child reads]
      rfl

theorem rereadChildren?_of_readsBack : (children : List Document) →
    (∀ single ∈ singlesOfChildren children, single.ReadsBack) →
      rereadChildren? children = some children
  | [], _ => by rw [rereadChildren?]
  | head :: tail, reads => by
      rw [singlesOfChildren] at reads
      rw [rereadChildren?, reread?_of_readsBack head
        (fun single member => reads single (List.mem_append_left _ member)),
        rereadChildren?_of_readsBack tail
          (fun single member => reads single (List.mem_append_right _ member))]
      rfl

end

theorem reread?_eq_self_iff (document : Document) :
    document.reread? = some document ↔
      ∀ single ∈ document.singles, single.ReadsBack := by
  refine ⟨fun reread single member => ?_, reread?_of_readsBack document⟩
  have each := map_singles document document reread
  exact rereadSingle?_eq_some.mp (List.map_inj_left.mp each single member)

theorem rereadLeaf?_lent (field? : Option (Option String)) (bottom : Leaf Single) :
    rereadLeaf? (bottom.lent field?) = (rereadLeaf? bottom).map (Leaf.lent field?) := by
  cases bottom with
  | fuzzy term similarity exactStart =>
      show (rereadSingle? similarity).map _ = Option.map _ ((rereadSingle? similarity).map _)
      rw [Option.map_map]
      rfl
  | field term => rfl
  | quotedField term => rfl
  | matchAll => rfl
  | matchNone => rfl

theorem reread?_lent (field? : Option (Option String)) (document : Document) :
    (document.lent field?).reread? = document.reread?.map (lent field?) := by
  cases document with
  | leaf bottom =>
      rw [lent, reread?, reread?, rereadLeaf?_lent, Option.map_map, Option.map_map]
      rfl
  | wrapper around child =>
      rw [lent, reread?]
      cases rereadWrapper? around with
      | none => rfl
      | some around => cases rereadChild? child <;> rfl
  | composite above children =>
      rw [lent, reread?]
      cases rereadChildren? children <;> rfl

mutual

/-- Settling fields and distances leaves the numbers alone. -/
theorem reread?_normal : (document : Document) →
    document.normal.reread? = document.reread?.map normal
  | .leaf bottom => by
      rw [normal, reread?, Option.map_map]
      exact congrArg (Option.map · _) (funext fun _ => by rw [Function.comp, normal])
  | .wrapper around child => by
      rw [normal, reread?, reread?, rereadChild?_normal child]
      cases rereadWrapper? around with
      | none => rfl
      | some around =>
          cases rereadChild? child with
          | none => rfl
          | some child => simp only [Option.map_some, Option.bind_some, normal]
  | .composite above children => by
      rw [normal, reread?, reread?, rereadChildren?_normal children above.lends?]
      cases rereadChildren? children with
      | none => rfl
      | some children => simp only [Option.map_some, normal]

theorem rereadChild?_normal : (child : Option Document) →
    rereadChild? (normalChild child) = (rereadChild? child).map normalChild
  | none => by rw [normalChild, rereadChild?, Option.map_some, normalChild]
  | some child => by
      rw [normalChild, rereadChild?, rereadChild?, reread?_normal child]
      cases child.reread? with
      | none => rfl
      | some child => simp only [Option.map_some, normalChild]

theorem rereadChildren?_normal : (children : List Document) →
    (field? : Option (Option String)) →
      rereadChildren? (normalChildren field? children) =
        (rereadChildren? children).map (normalChildren field?)
  | [], field? => by rw [normalChildren, rereadChildren?, Option.map_some, normalChildren]
  | head :: tail, field? => by
      rw [normalChildren, rereadChildren?, rereadChildren?, reread?_lent,
        reread?_normal head, rereadChildren?_normal tail field?]
      cases head.reread? with
      | none => rfl
      | some first =>
          cases rereadChildren? tail with
          | none => rfl
          | some later => simp only [Option.map_some, Option.bind_some, normalChildren]

end

end Document

end QueryForest
