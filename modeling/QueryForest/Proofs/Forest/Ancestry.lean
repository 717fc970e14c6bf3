import QueryForest.Proofs.Forest.Anchored
import Mathlib.Data.List.Nodup
import Mathlib.Data.Finset.Card
import Mathlib.Data.Finset.Range

/-!
# Ways up

In a forest whose ways up end, the nodes on the way up from a node are all
different, so there are no more of them than nodes in the arena.  The bounded
climb that looks for an ancestor therefore always gives an answer, and the
answer is whether the node lies on the way.
-/

namespace QueryForest.Forest

/-- A node is above another one, or is that node itself. -/
inductive IsAbove (forest : Forest) (ancestor : NodeId) : NodeId → Prop where
  | self : forest.IsAbove ancestor ancestor
  | linked {id parent : NodeId} :
      forest.parentOf id = some parent → forest.IsAbove ancestor parent →
        forest.IsAbove ancestor id

/-- The nodes from a node up to one without a parent. -/
inductive WayUp (forest : Forest) : NodeId → List NodeId → Prop where
  | last {id : NodeId} : forest.parentOf id = none → forest.WayUp id [id]
  | step {id parent : NodeId} {way : List NodeId} :
      forest.parentOf id = some parent → forest.WayUp parent way →
        forest.WayUp id (id :: way)

variable {forest other : Forest}

theorem IsAbove.trans {highest middle lowest : NodeId}
    (upper : forest.IsAbove highest middle)
    (lower : forest.IsAbove middle lowest) :
    forest.IsAbove highest lowest := by
  induction lower with
  | self => exact upper
  | linked linked _ inductionHypothesis =>
      exact .linked linked inductionHypothesis

/-- Who is above a linked node and is not that node is above its parent. -/
theorem IsAbove.parent_of_ne {ancestor id parent : NodeId}
    (above : forest.IsAbove ancestor id) (different : ancestor ≠ id)
    (linked : forest.parentOf id = some parent) :
    forest.IsAbove ancestor parent := by
  cases above with
  | self => exact absurd rfl different
  | linked otherLinked above =>
      rw [linked] at otherLinked
      cases otherLinked
      exact above

theorem IsAbove.eq_of_parentOf_none {ancestor id : NodeId}
    (above : forest.IsAbove ancestor id)
    (parentless : forest.parentOf id = none) : ancestor = id := by
  cases above with
  | self => rfl
  | linked linked _ =>
      rw [parentless] at linked
      cases linked

theorem exists_wayUp {id : NodeId} (ends : forest.EndsAbove id) :
    ∃ way, forest.WayUp id way := by
  induction ends with
  | parentless none => exact ⟨_, .last none⟩
  | linked linked _ inductionHypothesis =>
      obtain ⟨way, wayUp⟩ := inductionHypothesis
      exact ⟨_, .step linked wayUp⟩

namespace WayUp

theorem unique {id : NodeId} {first second : List NodeId}
    (firstWay : forest.WayUp id first) (secondWay : forest.WayUp id second) :
    first = second := by
  induction firstWay generalizing second with
  | last none =>
      cases secondWay with
      | last => rfl
      | step linked =>
          rw [none] at linked
          cases linked
  | step linked _ inductionHypothesis =>
      cases secondWay with
      | last none =>
          rw [none] at linked
          cases linked
      | step otherLinked rest =>
          rw [linked] at otherLinked
          cases otherLinked
          rw [inductionHypothesis rest]

theorem mem_iff {ancestor id : NodeId} {way : List NodeId}
    (wayUp : forest.WayUp id way) :
    ancestor ∈ way ↔ forest.IsAbove ancestor id := by
  induction wayUp with
  | last none =>
      constructor
      · intro member
        rw [List.mem_singleton.mp member]
        exact .self
      · intro above
        exact List.mem_singleton.mpr (above.eq_of_parentOf_none none)
  | @step id parent way linked _ inductionHypothesis =>
      rw [List.mem_cons, inductionHypothesis]
      constructor
      · rintro (rfl | above)
        · exact .self
        · exact .linked linked above
      · intro above
        by_cases same : ancestor = id
        · exact .inl same
        · exact .inr (above.parent_of_ne same linked)

/-- The way up from a node on a way is no longer than that way. -/
theorem length_le {ancestor id : NodeId} {way upperWay : List NodeId}
    (wayUp : forest.WayUp id way) (upper : forest.WayUp ancestor upperWay)
    (member : ancestor ∈ way) : upperWay.length ≤ way.length := by
  induction wayUp with
  | last none =>
      have same := List.mem_singleton.mp member
      subst same
      rw [upper.unique (.last none)]
  | step linked rest inductionHypothesis =>
      rcases List.mem_cons.mp member with same | later
      · subst same
        rw [upper.unique (.step linked rest)]
      · have shorter := inductionHypothesis later
        rw [List.length_cons]
        omega

theorem nodup {id : NodeId} {way : List NodeId}
    (wayUp : forest.WayUp id way) : way.Nodup := by
  induction wayUp with
  | last _ => exact List.nodup_singleton _
  | step linked rest inductionHypothesis =>
      refine List.nodup_cons.mpr ⟨fun member => ?_, inductionHypothesis⟩
      have shorter := rest.length_le (.step linked rest) member
      rw [List.length_cons] at shorter
      omega

end WayUp

/-- A node whose way up ends is not above its own parent. -/
theorem EndsAbove.not_isAbove_parent {id parent : NodeId}
    (ends : forest.EndsAbove id) (linked : forest.parentOf id = some parent) :
    ¬ forest.IsAbove id parent := by
  intro above
  obtain ⟨way, wayUp⟩ := exists_wayUp ends
  cases wayUp with
  | last none =>
      rw [none] at linked
      cases linked
  | step otherLinked rest =>
      rw [linked] at otherLinked
      cases otherLinked
      have fresh := (List.nodup_cons.mp (WayUp.step linked rest).nodup).1
      exact fresh (rest.mem_iff.mpr above)

theorem length_le_size {ids : List NodeId} (nodup : ids.Nodup)
    (inside : ∀ id ∈ ids, id < forest.size) : ids.length ≤ forest.size := by
  have subset : ids.toFinset ⊆ Finset.range forest.size := by
    intro id member
    exact Finset.mem_range.mpr (inside id (List.mem_toFinset.mp member))
  have counted := Finset.card_le_card subset
  rwa [List.toFinset_card_of_nodup nodup, Finset.card_range] at counted

theorem Anchored.wayUp_inside (anchored : forest.Anchored) {id : NodeId} {way : List NodeId}
    (wayUp : forest.WayUp id way) (inside : id < forest.size) :
    ∀ ancestor ∈ way, ancestor < forest.size := by
  induction wayUp with
  | last _ =>
      intro ancestor member
      rwa [List.mem_singleton.mp member]
  | step linked _ inductionHypothesis =>
      intro ancestor member
      rcases List.mem_cons.mp member with rfl | later
      · exact inside
      · exact inductionHypothesis (anchored.parent_lt linked) ancestor later

/-- A climb that may follow as many links as the way up has nodes finds out
whether the sought node lies on the way. -/
theorem isReachedWithin_of_wayUp {sought id : NodeId} {way : List NodeId}
    (wayUp : forest.WayUp id way) (inside : ∀ upper ∈ way, upper < forest.size)
    {links : Nat} (enough : way.length ≤ links) :
    forest.isReachedWithin sought links id = .ok (decide (sought ∈ way)) := by
  induction wayUp generalizing links with
  | @last id none =>
      obtain ⟨links, rfl⟩ : ∃ fewer, links = fewer + 1 :=
        Nat.exists_eq_add_of_le' enough
      obtain ⟨found, present⟩ :=
        exists_node_of_lt (inside id (List.mem_singleton_self id))
      have parentless : found.parent = Option.none :=
        (parentOf_of_getElem? present).symm.trans none
      rw [isReachedWithin]
      by_cases same : id = sought
      · simp [same]
      · have different : sought ≠ id := Ne.symm same
        simp only [same, if_false, Forest.node, present, bind, Except.bind, parentless,
          List.mem_singleton, different, decide_false]
  | @step id parent way linked rest inductionHypothesis =>
      obtain ⟨links, rfl⟩ : ∃ fewer, links = fewer + 1 := by
        apply Nat.exists_eq_add_of_le'
        rw [List.length_cons] at enough
        omega
      obtain ⟨found, present⟩ := exists_node_of_lt (inside id List.mem_cons_self)
      have parented : found.parent = some parent :=
        (parentOf_of_getElem? present).symm.trans linked
      have climbed :=
        inductionHypothesis
          (fun upper member => inside upper (List.mem_cons_of_mem id member))
          (Nat.le_of_succ_le_succ enough)
      rw [isReachedWithin]
      by_cases same : id = sought
      · simp [same]
      · have different : sought ≠ id := Ne.symm same
        simp only [same, if_false, Forest.node, present, bind, Except.bind, parented,
          climbed, List.mem_cons, different, false_or]

namespace Anchored

/-- In an anchored forest the climb always comes to an answer. -/
theorem exists_isAncestorOrSelf (anchored : forest.Anchored) (ancestor : NodeId)
    {id : NodeId} (inside : id < forest.size) :
    ∃ answer : Bool, forest.isAncestorOrSelf ancestor id = .ok answer ∧
      (answer = true ↔ forest.IsAbove ancestor id) := by
  obtain ⟨way, wayUp⟩ := exists_wayUp (anchored.endsAbove id)
  have wayInside := anchored.wayUp_inside wayUp inside
  have short : way.length ≤ forest.size + 1 :=
    Nat.le_succ_of_le (length_le_size wayUp.nodup wayInside)
  refine ⟨_, isReachedWithin_of_wayUp wayUp wayInside short, ?_⟩
  rw [decide_eq_true_iff, wayUp.mem_iff]

theorem isAncestorOrSelf_of_isAbove (anchored : forest.Anchored)
    {ancestor id : NodeId} (inside : id < forest.size)
    (above : forest.IsAbove ancestor id) :
    forest.isAncestorOrSelf ancestor id = .ok true := by
  obtain ⟨answer, climbed, correct⟩ :=
    anchored.exists_isAncestorOrSelf ancestor inside
  rw [climbed, correct.mpr above]

theorem isAncestorOrSelf_of_not_isAbove (anchored : forest.Anchored)
    {ancestor id : NodeId} (inside : id < forest.size)
    (apart : ¬ forest.IsAbove ancestor id) :
    forest.isAncestorOrSelf ancestor id = .ok false := by
  obtain ⟨answer, climbed, correct⟩ :=
    anchored.exists_isAncestorOrSelf ancestor inside
  rw [climbed]
  cases answer with
  | false => rfl
  | true => exact absurd (correct.mp rfl) apart

end Anchored

/-- Taking links away keeps ways ending. -/
theorem EndsAbove.of_fewer {id : NodeId} (ends : forest.EndsAbove id)
    (fewer : ∀ child parent, other.parentOf child = some parent →
      forest.parentOf child = some parent) : other.EndsAbove id := by
  induction ends with
  | @parentless id none =>
      cases linked : other.parentOf id with
      | none => exact .parentless linked
      | some parent =>
          have former := fewer id parent linked
          rw [none] at former
          cases former
  | @linked id parent former _ inductionHypothesis =>
      cases linked : other.parentOf id with
      | none => exact .parentless linked
      | some newParent =>
          have same := fewer id newParent linked
          rw [former] at same
          cases same
          exact .linked linked inductionHypothesis

theorem IsAbove.of_fewer {ancestor id : NodeId}
    (above : other.IsAbove ancestor id)
    (fewer : ∀ child parent, other.parentOf child = some parent →
      forest.parentOf child = some parent) : forest.IsAbove ancestor id := by
  induction above with
  | self => exact .self
  | linked linked _ inductionHypothesis =>
      exact .linked (fewer _ _ linked) inductionHypothesis

/-- With one new link a way still ends, if it ends behind the new link whenever it
comes to it. -/
theorem EndsAbove.of_moved {moved target id : NodeId} (ends : forest.EndsAbove id)
    (links : ∀ child parent, other.parentOf child = some parent →
      forest.parentOf child = some parent ∨ child = moved ∧ parent = target)
    (behind : forest.IsAbove moved id → other.EndsAbove target) : other.EndsAbove id := by
  induction ends with
  | @parentless id none =>
      cases linked : other.parentOf id with
      | none => exact .parentless linked
      | some parent =>
          rcases links id parent linked with former | ⟨rfl, rfl⟩
          · rw [none] at former
            cases former
          · exact .linked linked (behind .self)
  | @linked id parent former _ inductionHypothesis =>
      cases linked : other.parentOf id with
      | none => exact .parentless linked
      | some newParent =>
          rcases links id newParent linked with same | ⟨rfl, rfl⟩
          · rw [former] at same
            cases same
            exact .linked linked
              (inductionHypothesis fun above => behind (.linked former above))
          · exact .linked linked (behind .self)

/-- One new link from a node that is not above its new parent keeps ways
ending: no way that now goes over the new link comes back to it. -/
theorem endsAbove_of_moved {moved target : NodeId}
    (ends : ∀ id, forest.EndsAbove id)
    (apart : ¬ forest.IsAbove moved target)
    (links : ∀ child parent, other.parentOf child = some parent →
      forest.parentOf child = some parent ∨ child = moved ∧ parent = target) (id : NodeId) :
    other.EndsAbove id := by
  have fromTarget : other.EndsAbove target :=
    (ends target).of_moved links fun above => absurd above apart
  exact (ends id).of_moved links fun _ => fromTarget

/-- Moving a node changes nothing above the nodes that it is not above. -/
theorem isAbove_iff_of_relinked {moved : NodeId}
    (same : ∀ id, id ≠ moved → other.parentOf id = forest.parentOf id)
    {id : NodeId} (ends : forest.EndsAbove id)
    (apart : ¬ forest.IsAbove moved id) (ancestor : NodeId) :
    other.IsAbove ancestor id ↔ forest.IsAbove ancestor id := by
  induction ends with
  | @parentless id none =>
      have different : id ≠ moved := fun equal => apart (equal ▸ .self)
      have otherNone : other.parentOf id = Option.none :=
        (same id different).trans none
      constructor
      · intro above
        rw [above.eq_of_parentOf_none otherNone]
        exact .self
      · intro above
        rw [above.eq_of_parentOf_none none]
        exact .self
  | @linked id parent linked _ inductionHypothesis =>
      have different : id ≠ moved := fun equal => apart (equal ▸ .self)
      have otherLinked : other.parentOf id = some parent :=
        (same id different).trans linked
      have higher :=
        inductionHypothesis fun above => apart (.linked linked above)
      by_cases equal : ancestor = id
      · subst equal
        exact iff_of_true .self .self
      · constructor
        · intro above
          exact .linked linked
            (higher.mp (above.parent_of_ne equal otherLinked))
        · intro above
          exact .linked otherLinked
            (higher.mpr (above.parent_of_ne equal linked))

end QueryForest.Forest
