import QueryForest.Document.Save
import QueryForest.Proofs.Document.Planting

/-!
# Normal forms of documents

A loaded tree remembers less than its document: the children of a proximity
node have its field, whatever they said themselves, and the distance of a
paragraph or a sentence is gone.  Saving gives back the document in which both
are settled, and that one loads as the same branch.
-/

namespace QueryForest

open Number (Single)

/-- A term has the field that a proximity node lends it, if one does. -/
def Term.lent (field? : Option (Option String)) (term : Term) : Term :=
  match field? with
  | none => term
  | some field => { term with field, ignoreField := true }

def Leaf.lent {Similar : Type} (field? : Option (Option String)) (bottom : Leaf Similar) :
    Leaf Similar :=
  bottom.mapTerm (Term.lent field?)

def Kind.lent (field? : Option (Option String)) : Kind → Kind
  | .leaf bottom => .leaf (bottom.lent field?)
  | kind => kind

def Branch.lent (field? : Option (Option String)) : Branch → Branch
  | .node id own enclosing children => .node id (own.lent field?) enclosing children

/-- The field that a kind lends to its children. -/
def Kind.lends? (kind : Kind) : Option (Option String) :=
  kind.proximity?.map Proximity.field

def Composite.lends? : Composite ProximityRecord → Option (Option String)
  | .proximity near => some near.field
  | .junction _ | .tokenizedPhrase | .multiPhrase => none

theorem Leaf.lent_none {Similar : Type} (bottom : Leaf Similar) :
    bottom.lent none = bottom := by
  cases bottom <;> rfl

theorem Leaf.lent_lent {Similar : Type} (field? : Option (Option String))
    (bottom : Leaf Similar) : (bottom.lent field?).lent field? = bottom.lent field? := by
  cases field? with
  | none => rw [lent_none]
  | some field => cases bottom <;> rfl

theorem Kind.lent_lent (field? : Option (Option String)) (kind : Kind) :
    (kind.lent field?).lent field? = kind.lent field? := by
  cases kind with
  | leaf bottom => exact congrArg Kind.leaf (bottom.lent_lent field?)
  | wrapper around => rfl
  | composite above => rfl
  | extension custom => rfl

theorem Kind.bound_eq_lent (above kind : Kind) :
    kind.bound above.proximity? = kind.lent above.lends? := by
  unfold lends?
  cases above.proximity? with
  | none =>
      cases kind with
      | leaf bottom => exact congrArg Kind.leaf bottom.lent_none.symm
      | wrapper around => rfl
      | composite inner => rfl
      | extension custom => rfl
  | some near => cases kind <;> rfl

theorem Branch.under_eq (kind : Kind) (id : NodeId) (own : Kind)
    (enclosing : Option Kind) (children : List Branch) :
    (Branch.node id own enclosing children).under kind =
      .node id (own.lent kind.lends?) (some kind) children := by
  rw [under, Kind.bound_eq_lent]

theorem Branch.under_lent (kind : Kind) (branch : Branch) :
    (branch.lent kind.lends?).under kind = branch.under kind := by
  cases branch with
  | node id own enclosing children =>
      rw [lent, under_eq, under_eq, Kind.lent_lent]

theorem Branch.size_lent (field? : Option (Option String)) (branch : Branch) :
    (branch.lent field?).size = branch.size := by
  cases branch with
  | node id own enclosing children => rw [lent, size, size]

theorem Branch.atop_lent (start : NodeId) (kind : Kind) (children : List Branch) :
    atop start kind (children.map (lent kind.lends?)) = atop start kind children := by
  have sizes : sizeOfAll (children.map (lent kind.lends?)) = sizeOfAll children := by
    induction children with
    | nil => rfl
    | cons head tail inductionHypothesis =>
        rw [List.map_cons, sizeOfAll, sizeOfAll, size_lent, inductionHypothesis]
  unfold atop
  rw [sizes, List.map_map]
  exact congrArg _ (List.map_congr_left fun branch _ => under_lent kind branch)

/-- Only a number of words has a distance. -/
def ProximityRecord.normal (near : ProximityRecord) : ProximityRecord :=
  { near with
    distance := if near.unit = .number then near.distance else Document.noDistance }

def Composite.normal : Composite ProximityRecord → Composite ProximityRecord
  | .proximity near => .proximity near.normal
  | .junction operator => .junction operator
  | .tokenizedPhrase => .tokenizedPhrase
  | .multiPhrase => .multiPhrase

namespace Document

def lent (field? : Option (Option String)) : Document → Document
  | .leaf bottom => .leaf (bottom.lent field?)
  | .wrapper around child => .wrapper around child
  | .composite above children => .composite above children

theorem lent_none (document : Document) : document.lent none = document := by
  cases document with
  | leaf bottom => exact congrArg Document.leaf bottom.lent_none
  | wrapper around child => rfl
  | composite above children => rfl

mutual

/-- The document with fields and distances settled. -/
def normal : Document → Document
  | .leaf bottom => .leaf bottom
  | .wrapper around child => .wrapper around (normalChild child)
  | .composite above children =>
      .composite above.normal (normalChildren above.lends? children)
termination_by structural document => document

def normalChild : Option Document → Option Document
  | none => none
  | some child => some child.normal
termination_by structural child => child

def normalChildren (field? : Option (Option String)) : List Document → List Document
  | [] => []
  | head :: tail => head.normal.lent field? :: normalChildren field? tail
termination_by structural children => children

end

theorem checkComposite_normal (above : Composite ProximityRecord) :
    checkComposite above.normal = checkComposite above := by
  cases above with
  | proximity near =>
      obtain ⟨field, unit, distance, inOrder⟩ := near
      cases unit <;> rfl
  | junction operator => rfl
  | tokenizedPhrase => rfl
  | multiPhrase => rfl

theorem lends?_of_checkComposite {above : Composite ProximityRecord}
    {checked : Composite Proximity} (accepted : checkComposite above = .ok checked) :
    (Kind.composite checked).lends? = above.lends? := by
  cases above with
  | proximity near =>
      obtain ⟨near, nearAccepted, same⟩ := bind_eq_ok.mp accepted
      cases same
      obtain ⟨reach, _, same⟩ := bind_eq_ok.mp nearAccepted
      cases same
      rfl
  | junction operator =>
      cases accepted
      rfl
  | tokenizedPhrase =>
      cases accepted
      rfl
  | multiPhrase =>
      cases accepted
      rfl

/-! ## Loading the normal form -/

theorem checkLeaf_lent (field? : Option (Option String)) (bottom : Leaf Single) :
    checkLeaf (bottom.lent field?) = (checkLeaf bottom).map (Leaf.lent field?) := by
  cases bottom with
  | fuzzy term similarity exactStart =>
      show (Similarity.ofSingle similarity >>= _) = Except.map _ (_ >>= _)
      cases Similarity.ofSingle similarity <;> rfl
  | field term => rfl
  | quotedField term => rfl
  | matchAll => rfl
  | matchNone => rfl

theorem branchFrom_lent (field? : Option (Option String)) (start : NodeId)
    (document : Document) :
    (document.lent field?).branchFrom start =
      (document.branchFrom start).map (Branch.lent field?) := by
  cases document with
  | leaf bottom =>
      rw [lent, branchFrom, branchFrom, checkLeaf_lent]
      cases checkLeaf bottom <;> rfl
  | wrapper around child =>
      rw [lent, branchFrom]
      cases branchOfChild start child <;> rfl
  | composite above children =>
      rw [lent, branchFrom]
      cases checkComposite above with
      | error error => rfl
      | ok checked =>
          show (branchesFrom start children >>= _) = Except.map _ (_ >>= _)
          cases branchesFrom start children <;> rfl

mutual

/-- The normal form of a document loads as the same branch. -/
theorem branchFrom_normal : (document : Document) → (start : NodeId) →
    document.normal.branchFrom start = document.branchFrom start
  | .leaf bottom, start => by rw [normal]
  | .wrapper around child, start => by
      rw [normal, branchFrom, branchFrom, branchOfChild_normal child start]
  | .composite above children, start => by
      rw [normal, branchFrom, branchFrom, checkComposite_normal,
        branchesFrom_normal children above.lends? start]
      cases accepted : checkComposite above with
      | error error => rfl
      | ok checked =>
          rw [← lends?_of_checkComposite accepted]
          cases branchesFrom start children with
          | error error => rfl
          | ok branches =>
              exact congrArg Except.ok (Branch.atop_lent start _ branches)

theorem branchOfChild_normal : (child : Option Document) → (start : NodeId) →
    branchOfChild start (normalChild child) = branchOfChild start child
  | none, start => by rw [normalChild]
  | some child, start => by
      rw [normalChild, branchOfChild, branchOfChild, branchFrom_normal child start]

theorem branchesFrom_normal : (children : List Document) →
    (field? : Option (Option String)) → (start : NodeId) →
    branchesFrom start (normalChildren field? children) =
      (branchesFrom start children).map (List.map (Branch.lent field?))
  | [], field?, start => by
      rw [normalChildren, branchesFrom]
      rfl
  | head :: tail, field?, start => by
      rw [normalChildren, branchesFrom, branchesFrom, branchFrom_lent,
        branchFrom_normal head start]
      cases head.branchFrom start with
      | error error => rfl
      | ok first =>
          show (branchesFrom (start + (first.lent field?).size) _ >>= _) =
            Except.map _ (branchesFrom (start + first.size) tail >>= _)
          rw [Branch.size_lent, branchesFrom_normal tail field? (start + first.size)]
          cases branchesFrom (start + first.size) tail <;> rfl

end

/-! ## Saving what was loaded -/

theorem value_of_similarity {value : Single} {similarity : Similarity}
    (accepted : Similarity.ofSingle value = .ok similarity) : similarity.value = value := by
  unfold Similarity.ofSingle Similarity.ofSingle? at accepted
  by_cases fits : value.isSimilarity = true
  · rw [dif_pos fits] at accepted
    cases accepted
    rfl
  · rw [dif_neg fits] at accepted
    cases accepted

theorem toInt32_of_distance {value : Int32} {distance : Distance}
    (accepted : Distance.ofInt32? value = some distance) :
    distance.value.toInt32 = value := by
  unfold Distance.ofInt32? at accepted
  by_cases inRange : 0 < (UInt32.ofNat value.toInt.toNat).toNat ∧
      (UInt32.ofNat value.toInt.toNat).toNat < 0x80000000
  · rw [dif_pos inRange] at accepted
    cases accepted
    have low := value.le_toInt
    have high := value.toInt_lt
    have words : (UInt32.ofNat value.toInt.toNat).toNat = value.toInt.toNat := by
      rw [UInt32.toNat_ofNat']
      omega
    rw [words] at inRange
    show (UInt32.ofNat value.toInt.toNat).toInt32 = value
    rw [UInt32.toInt32_ofNat', ← Int32.ofInt_eq_ofNat,
      Int.toNat_of_nonneg (by omega), Int32.ofInt_toInt]
  · rw [dif_neg inRange] at accepted
    cases accepted

theorem release_of_checkLeaf {bottom : Leaf Single} {checked : Leaf Similarity}
    (accepted : checkLeaf bottom = .ok checked) : checked.release = bottom := by
  cases bottom with
  | fuzzy term similarity exactStart =>
      obtain ⟨similar, similarAccepted, same⟩ := bind_eq_ok.mp accepted
      cases same
      rw [Leaf.release, value_of_similarity similarAccepted]
  | field term =>
      cases accepted
      rfl
  | quotedField term =>
      cases accepted
      rfl
  | matchAll =>
      cases accepted
      rfl
  | matchNone =>
      cases accepted
      rfl

theorem release_of_checkProximity {near : ProximityRecord} {checked : Proximity}
    (accepted : checkProximity near = .ok checked) : checked.release = near.normal := by
  obtain ⟨reach, reachAccepted, same⟩ := bind_eq_ok.mp accepted
  cases same
  obtain ⟨field, unit, distance, inOrder⟩ := near
  cases unit with
  | paragraph =>
      cases reachAccepted
      rfl
  | sentence =>
      cases reachAccepted
      rfl
  | number =>
      unfold Reach.ofDistance at reachAccepted
      cases words : Distance.ofInt32? distance with
      | none =>
          rw [words] at reachAccepted
          cases reachAccepted
      | some positive =>
          rw [words] at reachAccepted
          cases reachAccepted
          have same : (Reach.words positive).savedDistance = distance :=
            toInt32_of_distance words
          rw [Proximity.release, same]
          rfl

theorem release_of_checkComposite {above : Composite ProximityRecord}
    {checked : Composite Proximity} (accepted : checkComposite above = .ok checked) :
    checked.release = above.normal := by
  cases above with
  | proximity near =>
      obtain ⟨near, nearAccepted, same⟩ := bind_eq_ok.mp accepted
      cases same
      rw [Composite.release, Composite.normal, release_of_checkProximity nearAccepted]
  | junction operator =>
      cases accepted
      rfl
  | tokenizedPhrase =>
      cases accepted
      rfl
  | multiPhrase =>
      cases accepted
      rfl

theorem release_lent (field? : Option (Option String)) (bottom : Leaf Similarity) :
    (bottom.lent field?).release = bottom.release.lent field? := by
  cases bottom <;> rfl

/-- A branch below a node is saved with the field that it is lent. -/
theorem save_under {branch : Branch} {document : Document} {kind : Kind}
    (saved : branch.save = .ok document) :
    (branch.under kind).save = .ok (document.lent kind.lends?) := by
  obtain ⟨id, own, enclosing, children⟩ := branch
  rw [Branch.under_eq]
  cases own with
  | leaf bottom =>
      rw [Branch.save] at saved
      cases saved
      rw [Kind.lent, Branch.save, release_lent]
      rfl
  | wrapper around =>
      rw [Branch.save] at saved
      obtain ⟨child, childSaved, same⟩ := bind_eq_ok.mp saved
      cases same
      show (Branch.node id (.wrapper around) (some kind) children).save = _
      rw [Branch.save, childSaved]
      rfl
  | composite above =>
      rw [Branch.save] at saved
      obtain ⟨all, allSaved, same⟩ := bind_eq_ok.mp saved
      cases same
      show (Branch.node id (.composite above) (some kind) children).save = _
      rw [Branch.save, allSaved]
      rfl
  | extension custom =>
      rw [Branch.save] at saved
      cases saved

mutual

/-- The branch that a document loads as is saved as its normal form. -/
theorem save_branchFrom : (document : Document) → (start : NodeId) →
    (branch : Branch) → document.branchFrom start = .ok branch →
      branch.save = .ok document.normal
  | .leaf bottom, start, branch, found => by
      rw [branchFrom] at found
      obtain ⟨checked, accepted, same⟩ := bind_eq_ok.mp found
      cases same
      rw [Branch.atop, Branch.save, release_of_checkLeaf accepted, normal]
  | .wrapper around child, start, branch, found => by
      rw [branchFrom] at found
      obtain ⟨children, childFound, same⟩ := bind_eq_ok.mp found
      cases same
      rw [Branch.atop, Branch.save, saveFirst_branchOfChild child start around children
        childFound, normal]
      rfl
  | .composite above children, start, branch, found => by
      rw [branchFrom] at found
      obtain ⟨checked, accepted, afterCheck⟩ := bind_eq_ok.mp found
      obtain ⟨branches, childrenFound, same⟩ := bind_eq_ok.mp afterCheck
      cases same
      rw [Branch.atop, Branch.save, saveAll_branchesFrom children start (.composite checked)
        branches childrenFound, release_of_checkComposite accepted,
        lends?_of_checkComposite accepted, normal]
      rfl

theorem saveFirst_branchOfChild : (child : Option Document) → (start : NodeId) →
    (around : Wrapper) → (branches : List Branch) →
      branchOfChild start child = .ok branches →
        Branch.saveFirst (branches.map (Branch.under (.wrapper around))) =
          .ok (normalChild child)
  | none, start, around, branches, found => by
      rw [branchOfChild] at found
      cases found
      rw [List.map_nil, Branch.saveFirst, normalChild]
  | some child, start, around, branches, found => by
      rw [branchOfChild] at found
      obtain ⟨branch, branchFound, same⟩ := bind_eq_ok.mp found
      cases same
      have saved := save_branchFrom child start branch branchFound
      have unlent : child.normal.lent (Kind.wrapper around).lends? = child.normal :=
        child.normal.lent_none
      rw [List.map_cons, Branch.saveFirst, save_under saved, normalChild, unlent]
      rfl

theorem saveAll_branchesFrom : (children : List Document) → (start : NodeId) →
    (kind : Kind) → (branches : List Branch) →
      branchesFrom start children = .ok branches →
        Branch.saveAll (branches.map (Branch.under kind)) =
          .ok (normalChildren kind.lends? children)
  | [], start, kind, branches, found => by
      rw [branchesFrom] at found
      cases found
      rw [List.map_nil, Branch.saveAll, normalChildren]
  | head :: tail, start, kind, branches, found => by
      rw [branchesFrom] at found
      obtain ⟨first, firstFound, afterFirst⟩ := bind_eq_ok.mp found
      obtain ⟨others, othersFound, same⟩ := bind_eq_ok.mp afterFirst
      cases same
      have saved := save_branchFrom head start first firstFound
      have othersSaved := saveAll_branchesFrom tail (start + first.size) kind others
        othersFound
      rw [List.map_cons, Branch.saveAll, save_under saved, othersSaved, normalChildren]
      rfl

end

end Document

end QueryForest
