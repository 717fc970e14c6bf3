import QueryForest.Proofs.Document.Normal

/-!
# Refused parameters

A document is refused because of a similarity or a distance that it has
somewhere.  Of several such parameters the first one is named, where a node
comes before its children, although composites are added after theirs.
-/

namespace QueryForest

open Number (Single)

def NodeError.of? {Result : Type} : Except NodeError Result → Option NodeError
  | .ok _ => none
  | .error error => some error

namespace Document

mutual

/-- All documents within a document, parents before their children. -/
def preOrder : Document → List Document
  | .leaf bottom => [.leaf bottom]
  | .wrapper around child => .wrapper around child :: preOrderOfChild child
  | .composite above children => .composite above children :: preOrderOfAll children
termination_by structural document => document

def preOrderOfChild : Option Document → List Document
  | none => []
  | some child => child.preOrder
termination_by structural child => child

def preOrderOfAll : List Document → List Document
  | [] => []
  | head :: tail => head.preOrder ++ preOrderOfAll tail
termination_by structural children => children

end

/-- The refusal of a parameter of the outermost node: a similarity that is
neither a proportion nor a whole number, or a number of words that is not
positive. -/
def refusal? : Document → Option NodeError
  | .leaf (.fuzzy _ similarity _) =>
      if similarity.isSimilarity then none
      else some (.invalidParameter "similarity" similarity.text)
  | .composite (.proximity near) _ =>
      if near.unit = .number ∧ near.distance.toInt ≤ 0 then
        some (.invalidParameter "distance" (toString near.distance.toInt))
      else none
  | .leaf _ | .wrapper _ _ | .composite _ _ => none

/-- The refusal of the first parameter that is refused. -/
def firstRefusal? (document : Document) : Option NodeError :=
  document.preOrder.findSome? refusal?

theorem exists_invalidParameter_of_refusal? {document : Document} {error : NodeError}
    (refused : document.refusal? = some error) :
    ∃ parameter value, error = .invalidParameter parameter value := by
  unfold refusal? at refused
  split at refused
  · split at refused
    · cases refused
    · exact ⟨_, _, (Option.some.inj refused).symm⟩
  · split at refused
    · exact ⟨_, _, (Option.some.inj refused).symm⟩
    · cases refused
  · cases refused
  · cases refused
  · cases refused

theorem of?_checkLeaf (bottom : Leaf Single) :
    NodeError.of? (checkLeaf bottom) = refusal? (.leaf bottom) := by
  cases bottom with
  | fuzzy term similarity exactStart =>
      rw [checkLeaf, refusal?, Similarity.ofSingle, Similarity.ofSingle?]
      by_cases fits : similarity.isSimilarity = true
      · rw [dif_pos fits, if_pos fits]
        rfl
      · rw [dif_neg fits, if_neg fits]
        rfl
  | field term => rfl
  | quotedField term => rfl
  | matchAll => rfl
  | matchNone => rfl

theorem ofInt32?_eq_none_iff (distance : Int32) :
    Distance.ofInt32? distance = none ↔ distance.toInt ≤ 0 := by
  have low := distance.le_toInt
  have high := distance.toInt_lt
  have words : (UInt32.ofNat distance.toInt.toNat).toNat = distance.toInt.toNat := by
    rw [UInt32.toNat_ofNat']
    omega
  unfold Distance.ofInt32?
  simp only [words]
  split
  · next inRange =>
      refine iff_of_false (by simp) ?_
      omega
  · next outside =>
      refine iff_of_true rfl ?_
      omega

theorem of?_checkComposite (above : Composite ProximityRecord) (children : List Document) :
    NodeError.of? (checkComposite above) = refusal? (.composite above children) := by
  cases above with
  | proximity near =>
      obtain ⟨field, unit, distance, inOrder⟩ := near
      cases unit with
      | paragraph => rfl
      | sentence => rfl
      | number =>
          have refused := ofInt32?_eq_none_iff distance
          simp only [checkComposite, checkProximity, Reach.ofDistance, refusal?, true_and]
          cases found : Distance.ofInt32? distance with
          | none =>
              rw [if_pos (refused.mp found)]
              rfl
          | some positive =>
              rw [if_neg fun notPositive => by
                rw [refused.mpr notPositive] at found
                cases found]
              rfl
  | junction operator => rfl
  | tokenizedPhrase => rfl
  | multiPhrase => rfl

theorem of?_map {Item Result : Type} (first : Except NodeError Item) (next : Item → Result) :
    NodeError.of? (do
      let item ← first
      return next item) = NodeError.of? first := by
  cases first <;> rfl

theorem of?_bind {Item Result : Type} (first : Except NodeError Item)
    (next : Item → Except NodeError Result) {later : Option NodeError}
    (same : ∀ item, NodeError.of? (next item) = later) :
    NodeError.of? (first >>= next) = (NodeError.of? first).or later := by
  cases first with
  | error error => rfl
  | ok item => exact same item

mutual

/-- The first refusal in pre-order is what building a document stops with. -/
theorem of?_branchFrom : (document : Document) → (start : NodeId) →
    NodeError.of? (document.branchFrom start) = document.firstRefusal?
  | .leaf bottom, start => by
      rw [branchFrom, of?_map, of?_checkLeaf, firstRefusal?, preOrder, List.findSome?_cons,
        List.findSome?_nil]
      cases refusal? (.leaf bottom) <;> rfl
  | .wrapper around child, start => by
      rw [branchFrom, of?_map, of?_branchOfChild child start, firstRefusal?, preOrder,
        List.findSome?_cons]
      rfl
  | .composite above children, start => by
      have below := of?_branchesFrom children start
      rw [branchFrom, of?_bind _ _ fun checked => (of?_map _ _).trans below,
        of?_checkComposite above children, firstRefusal?, preOrder, List.findSome?_cons]
      cases refusal? (.composite above children) <;> rfl

theorem of?_branchOfChild : (child : Option Document) → (start : NodeId) →
    NodeError.of? (branchOfChild start child) = (preOrderOfChild child).findSome? refusal?
  | none, start => rfl
  | some child, start => by
      rw [branchOfChild, of?_map, of?_branchFrom child start, preOrderOfChild, firstRefusal?]

theorem of?_branchesFrom : (children : List Document) → (start : NodeId) →
    NodeError.of? (branchesFrom start children) = (preOrderOfAll children).findSome? refusal?
  | [], start => rfl
  | head :: tail, start => by
      -- Where the others start depends on the first, but not what they stop with.
      have later := fun first : Branch => of?_branchesFrom tail (start + first.size)
      rw [branchesFrom, of?_bind _ _ fun first => (of?_map _ _).trans (later first),
        of?_branchFrom head start, firstRefusal?, preOrderOfAll, List.findSome?_append]

end

theorem branchFrom_eq_error_iff {document : Document} {start : NodeId} {error : NodeError} :
    document.branchFrom start = .error error ↔ document.firstRefusal? = some error := by
  rw [← of?_branchFrom document start]
  cases document.branchFrom start <;> simp [NodeError.of?]

theorem exists_branchFrom {document : Document} (accepted : document.firstRefusal? = none)
    (start : NodeId) : ∃ branch, document.branchFrom start = .ok branch := by
  rw [← of?_branchFrom document start] at accepted
  cases found : document.branchFrom start with
  | ok branch => exact ⟨branch, rfl⟩
  | error error =>
      rw [found] at accepted
      cases accepted

end Document

end QueryForest
