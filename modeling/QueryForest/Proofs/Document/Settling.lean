import QueryForest.Proofs.Document.Refusals
import QueryForest.Proofs.Forest.Operation
import QueryForest.Proofs.Forest.Within

/-!
# Loading settles a document

A document whose parameters are all accepted is loaded as one node for each of
its nodes, named in post-order, and each of them is saved as the part of the
normal form that stands there.  What a sound forest saves is a normal form, as
long as the children of proximity nodes have the fields of those.
-/

namespace QueryForest

open Number (Single)

namespace Document

mutual

/-- All documents within a document, children before their parent. -/
def postOrder : Document → List Document
  | .leaf bottom => [.leaf bottom]
  | .wrapper around child => postOrderOfChild child ++ [.wrapper around child]
  | .composite above children => postOrderOfAll children ++ [.composite above children]
termination_by structural document => document

def postOrderOfChild : Option Document → List Document
  | none => []
  | some child => child.postOrder
termination_by structural child => child

def postOrderOfAll : List Document → List Document
  | [] => []
  | head :: tail => head.postOrder ++ postOrderOfAll tail
termination_by structural children => children

end

def inner : Document → List Document
  | .leaf _ => []
  | .wrapper _ child => postOrderOfChild child
  | .composite _ children => postOrderOfAll children

theorem postOrder_eq (document : Document) : document.postOrder = document.inner ++ [document] := by
  cases document with
  | leaf bottom => rfl
  | wrapper around child => rw [postOrder, inner]
  | composite above children => rw [postOrder, inner]

theorem inner_lent (field? : Option (Option String)) (document : Document) :
    (document.lent field?).inner = document.inner := by
  cases document <;> rfl

mutual

/-- Settling adds no part and takes none away. -/
theorem length_postOrder_normal : (document : Document) →
    document.normal.postOrder.length = document.postOrder.length
  | .leaf bottom => rfl
  | .wrapper around child => by
      rw [normal, postOrder, postOrder, List.length_append, List.length_append,
        length_postOrderOfChild_normal child]
      rfl
  | .composite above children => by
      rw [normal, postOrder, postOrder, List.length_append, List.length_append,
        length_postOrderOfAll_normal children]
      rfl

theorem length_postOrderOfChild_normal : (child : Option Document) →
    (postOrderOfChild (normalChild child)).length = (postOrderOfChild child).length
  | none => rfl
  | some child => by
      rw [normalChild, postOrderOfChild, postOrderOfChild, length_postOrder_normal child]

theorem length_postOrderOfAll_normal : (children : List Document) →
    {field? : Option (Option String)} →
    (postOrderOfAll (normalChildren field? children)).length = (postOrderOfAll children).length
  | [], _ => rfl
  | head :: tail, field? => by
      have same : (head.normal.lent field?).postOrder.length = head.normal.postOrder.length := by
        rw [postOrder_eq, postOrder_eq head.normal, inner_lent, List.length_append,
          List.length_append]
        rfl
      rw [normalChildren, postOrderOfAll, postOrderOfAll, List.length_append, List.length_append,
        same, length_postOrder_normal head, length_postOrderOfAll_normal tail]

end

/-! ## Each part in its place -/

/-- Branches are saved as documents, each as the one at its place. -/
abbrev Saves (branches : List Branch) (documents : List Document) : Prop :=
  List.Forall₂ (fun branch document => branch.save = .ok document) branches documents

theorem saves_under {branch : Branch} {document : Document} (kind : Kind)
    (innerSaved : Saves (Branch.postOrderOfAll branch.children) document.inner)
    (saved : branch.save = .ok document) :
    Saves (branch.under kind).postOrder (document.lent kind.lends?).postOrder := by
  have same : (branch.under kind).children = branch.children := by
    cases branch with
    | node id own enclosing children => rfl
  rw [Branch.postOrder_eq, postOrder_eq, same, inner_lent]
  exact List.rel_append innerSaved (.cons (save_under saved) .nil)

mutual

/-- What is within the branch of a document is saved as what is within the
normal form. -/
theorem saves_branchFrom : (document : Document) → (start : NodeId) → (branch : Branch) →
    document.branchFrom start = .ok branch →
      Saves (Branch.postOrderOfAll branch.children) document.normal.inner
  | .leaf bottom, start, branch, found => by
      rw [branchFrom] at found
      obtain ⟨checked, _, same⟩ := bind_eq_ok.mp found
      cases same
      exact .nil
  | .wrapper around child, start, branch, found => by
      rw [branchFrom] at found
      obtain ⟨children, childFound, same⟩ := bind_eq_ok.mp found
      cases same
      exact saves_branchOfChild child start around children childFound
  | .composite above children, start, branch, found => by
      rw [branchFrom] at found
      obtain ⟨checked, accepted, afterCheck⟩ := bind_eq_ok.mp found
      obtain ⟨branches, childrenFound, same⟩ := bind_eq_ok.mp afterCheck
      cases same
      have saved := saves_branchesFrom children start (.composite checked) branches childrenFound
      rw [lends?_of_checkComposite accepted] at saved
      exact saved

theorem saves_branchOfChild : (child : Option Document) → (start : NodeId) →
    (around : Wrapper) → (branches : List Branch) → branchOfChild start child = .ok branches →
      Saves (Branch.postOrderOfAll (branches.map (Branch.under (.wrapper around))))
        (postOrderOfChild (normalChild child))
  | none, start, around, branches, found => by
      rw [branchOfChild] at found
      cases found
      exact .nil
  | some child, start, around, branches, found => by
      rw [branchOfChild] at found
      obtain ⟨branch, branchFound, same⟩ := bind_eq_ok.mp found
      cases same
      have saved := saves_under (.wrapper around) (saves_branchFrom child start branch branchFound)
        (save_branchFrom child start branch branchFound)
      have unlent : child.normal.lent (Kind.wrapper around).lends? = child.normal :=
        child.normal.lent_none
      rw [unlent] at saved
      rw [List.map_cons, List.map_nil, Branch.postOrderOfAll, Branch.postOrderOfAll,
        List.append_nil, normalChild, postOrderOfChild]
      exact saved

theorem saves_branchesFrom : (children : List Document) → (start : NodeId) → (kind : Kind) →
    (branches : List Branch) → branchesFrom start children = .ok branches →
      Saves (Branch.postOrderOfAll (branches.map (Branch.under kind)))
        (postOrderOfAll (normalChildren kind.lends? children))
  | [], start, kind, branches, found => by
      rw [branchesFrom] at found
      cases found
      exact .nil
  | head :: tail, start, kind, branches, found => by
      rw [branchesFrom] at found
      obtain ⟨first, firstFound, afterFirst⟩ := bind_eq_ok.mp found
      obtain ⟨others, othersFound, same⟩ := bind_eq_ok.mp afterFirst
      cases same
      rw [List.map_cons, Branch.postOrderOfAll, normalChildren, postOrderOfAll]
      exact List.rel_append
        (saves_under kind (saves_branchFrom head start first firstFound)
          (save_branchFrom head start first firstFound))
        (saves_branchesFrom tail (start + first.size) kind others othersFound)

end

/-- The nodes of a loaded branch are named in post-order. -/
theorem names_branchFrom {document : Document} {branch : Branch}
    (found : document.branchFrom 0 = .ok branch) :
    branch.postOrder.map Branch.id = List.range branch.postOrder.length := by
  have plants := plants_load document Forest.empty Forest.sound_empty
  have start : Forest.empty.size = 0 := rfl
  rw [start, found] at plants
  obtain ⟨after, _, _, planted⟩ := plants
  have names := planted.names
  rw [Branch.postOrderOfAll, Branch.postOrderOfAll, List.append_nil, Branch.sizeOfAll,
    Branch.sizeOfAll, Nat.add_zero, start, ← List.range_eq_range'] at names
  rw [names, Branch.length_postOrder]

end Document

def Forest.SavesAt (forest : Forest) (id : NodeId) (document : Document) : Prop :=
  ∃ branch, forest.branch id = .ok branch ∧ branch.save = .ok document

namespace Document

/-- A forest holds a document: one node for each of its parts, named in
post-order and saved as that part, the last of them the root. -/
structure IsHeldBy (document : Document) (forest : Forest) : Prop where
  size : forest.size = document.postOrder.length
  root : forest.root = some (forest.size - 1)
  saves : ∀ place part, document.postOrder[place]? = some part → forest.SavesAt place part

theorem IsHeldBy.saves_root {document : Document} {forest : Forest}
    (held : document.IsHeldBy forest) : forest.SavesAt (forest.size - 1) document := by
  apply held.saves
  rw [held.size, postOrder_eq, List.length_append]
  exact List.getElem?_concat_length

/-- A document without a refused parameter is loaded, and what is held then is its
normal form. -/
theorem exists_held {document : Document} (accepted : document.firstRefusal? = none) :
    ∃ forest, document.toForest = .ok forest ∧ document.normal.IsHeldBy forest := by
  obtain ⟨branch, found⟩ := exists_branchFrom accepted 0
  obtain ⟨forest, loaded, sound, rooted, sized, read⟩ := exists_toForest found
  have names := names_branchFrom found
  have saved : Saves branch.postOrder document.normal.postOrder := by
    rw [Branch.postOrder_eq, postOrder_eq]
    exact List.rel_append (saves_branchFrom document 0 branch found)
      (.cons (save_branchFrom document 0 branch found) .nil)
  refine ⟨forest, loaded, ?_, ?_, ?_⟩
  · rw [sized, ← Branch.length_postOrder, saved.length_eq]
  · have last : branch.postOrder[branch.size - 1]? = some branch := by
      rw [← Branch.length_postOrder, Branch.postOrder_eq, List.length_append]
      exact List.getElem?_concat_length
    have named := congrArg (·[branch.size - 1]?) names
    have inside : branch.size - 1 < branch.postOrder.length := by
      have positive := branch.size_pos
      rw [Branch.length_postOrder]
      omega
    simp only [List.getElem?_map, last, Option.map_some, List.getElem?_range inside] at named
    rw [rooted, sized, Option.some.inj named]
  · intro place part standing
    obtain ⟨_, each⟩ := List.forall₂_iff_get.mp saved
    obtain ⟨inside, same⟩ := List.getElem?_eq_some_iff.mp standing
    have within : place < branch.postOrder.length := saved.length_eq ▸ inside
    have partSaved := each place within inside
    have named := congrArg (·[place]?) names
    simp only [List.getElem?_map, List.getElem?_eq_getElem within, Option.map_some,
      List.getElem?_range within] at named
    have readPart := sound.branch_of_mem_postOrder read (List.getElem_mem within)
    rw [Option.some.inj named] at readPart
    refine ⟨branch.postOrder[place], readPart, partSaved.trans ?_⟩
    rw [← same]
    rfl

/-- Settling a document twice is settling it once, if it can be loaded. -/
theorem normal_normal {document : Document} {forest : Forest}
    (loaded : document.toForest = .ok forest) :
    document.normal.normal = document.normal := by
  cases found : document.branchFrom 0 with
  | error error =>
      rw [toForest_of_refused found] at loaded
      cases loaded
  | ok branch =>
      have saved := save_branchFrom document 0 branch found
      rw [← branchFrom_normal] at found
      rw [save_branchFrom document.normal 0 branch found] at saved
      exact Except.ok.inj saved

theorem refusal?_release (bottom : Leaf Similarity) : refusal? (.leaf bottom.release) = none := by
  cases bottom with
  | fuzzy term similarity exactStart => exact if_pos similarity.accepted
  | field term => rfl
  | quotedField term => rfl
  | matchAll => rfl
  | matchNone => rfl

theorem refusal?_composite_release (above : Composite Proximity) (children : List Document) :
    refusal? (.composite above.release children) = none := by
  cases above with
  | proximity near =>
      obtain ⟨field, reach, inOrder⟩ := near
      cases reach with
      | words distance =>
          have positive := distance.positive
          have bounded := distance.bounded
          have value : distance.value.toInt32.toInt = distance.value.toNat := by
            show distance.value.toBitVec.toInt = distance.value.toNat
            apply BitVec.toInt_eq_toNat_of_lt
            show 2 * distance.value.toNat < 2 ^ 32
            omega
          refine if_neg fun refused => ?_
          change _ ∧ distance.value.toInt32.toInt ≤ 0 at refused
          omega
      | paragraph => rfl
      | sentence => rfl
  | junction operator => rfl
  | tokenizedPhrase => rfl
  | multiPhrase => rfl

theorem normal_release (above : Composite Proximity) :
    above.release.normal = above.release := by
  cases above with
  | proximity near =>
      obtain ⟨field, reach, inOrder⟩ := near
      cases reach <;> rfl
  | junction operator => rfl
  | tokenizedPhrase => rfl
  | multiPhrase => rfl

theorem lends?_release (above : Composite Proximity) :
    above.release.lends? = (Kind.composite above).lends? := by
  cases above <;> rfl

/-- The saved form of a term that has the field of a proximity node already. -/
theorem lent_of_bound {branch : Branch} {document : Document} {field : Option String}
    (saved : branch.save = .ok document)
    (bound : ∀ term, branch.term? = some term → term.field = field ∧ term.ignoreField = true) :
    document.lent (some field) = document := by
  obtain ⟨id, kind, enclosing, children⟩ := branch
  cases kind with
  | leaf bottom =>
      rw [Branch.save] at saved
      cases saved
      have same : ∀ term, bottom.term? = some term → term.lent (some field) = term := by
        intro term found
        obtain ⟨rfl, ignored⟩ := bound term found
        rw [Term.lent, ← ignored]
      cases bottom with
      | field term => exact congrArg (fun term => leaf (.field term)) (same term rfl)
      | quotedField term => exact congrArg (fun term => leaf (.quotedField term)) (same term rfl)
      | fuzzy term similarity exactStart =>
          exact congrArg (fun term => leaf (.fuzzy term similarity.value exactStart))
            (same term rfl)
      | matchAll => rfl
      | matchNone => rfl
  | wrapper around =>
      rw [Branch.save] at saved
      obtain ⟨child, _, same⟩ := bind_eq_ok.mp saved
      cases same
      rfl
  | composite above =>
      rw [Branch.save] at saved
      obtain ⟨all, _, same⟩ := bind_eq_ok.mp saved
      cases same
      rfl
  | extension custom =>
      rw [Branch.save] at saved
      cases saved

structure IsSettled (document : Document) : Prop where
  normal_eq : document.normal = document
  accepted : document.firstRefusal? = none

theorem exists_saveAll {branches : List Branch} {field? : Option (Option String)}
    (each : ∀ branch ∈ branches, ∃ document, branch.save = .ok document ∧
      document.IsSettled ∧ document.lent field? = document) :
    ∃ documents, Branch.saveAll branches = .ok documents ∧
      normalChildren field? documents = documents ∧
      (preOrderOfAll documents).findSome? refusal? = none := by
  induction branches with
  | nil => exact ⟨[], rfl, rfl, rfl⟩
  | cons head tail inductionHypothesis =>
      obtain ⟨document, saved, settled, bound⟩ := each head List.mem_cons_self
      obtain ⟨documents, tailSaved, tailSettled, tailAccepted⟩ := inductionHypothesis
        fun branch member => each branch (List.mem_cons_of_mem head member)
      refine ⟨document :: documents, ?_, ?_, ?_⟩
      · rw [Branch.saveAll, saved, tailSaved]
        rfl
      · rw [normalChildren, settled.normal_eq, bound, tailSettled]
      · have headAccepted : document.preOrder.findSome? refusal? = none := settled.accepted
        rw [preOrderOfAll, List.findSome?_append, headAccepted, tailAccepted]
        rfl

end Document

/-- Terms directly below a proximity node have the field of that node and do not
write it themselves. -/
def Branch.LendsField (branch : Branch) : Prop :=
  ∀ near, branch.kind.proximity? = some near → ∀ child ∈ branch.children, ∀ term,
    child.term? = some term → term.field = near.field ∧ term.ignoreField = true

open Document in
/-- A branch of built-in kinds in which proximity nodes lend their fields is saved
as a document that loads as itself. -/
theorem Branch.exists_save {branch : Branch} (builtIn : branch.IsBuiltIn)
    (lends : ∀ part ∈ branch.postOrder, part.LendsField) :
    ∃ document, branch.save = .ok document ∧ document.IsSettled := by
  induction branch with
  | node id kind enclosing children inductionHypothesis =>
      have below : ∀ child ∈ children, ∃ document, child.save = .ok document ∧
          document.IsSettled := fun child member =>
        inductionHypothesis child member (builtIn.child member) fun part within =>
          lends part (mem_postOrder_of_child member within)
      cases kind with
      | leaf bottom =>
          refine ⟨.leaf bottom.release, by rw [save], rfl, ?_⟩
          rw [firstRefusal?, preOrder, List.findSome?_cons, refusal?_release]
          rfl
      | wrapper around =>
          cases children with
          | nil => exact ⟨.wrapper around none, by rw [save, saveFirst]; rfl, rfl, rfl⟩
          | cons head tail =>
              obtain ⟨document, saved, settled⟩ := below head List.mem_cons_self
              refine ⟨.wrapper around (some document), ?_, ?_, ?_⟩
              · rw [save, saveFirst, saved]
                rfl
              · rw [normal, normalChild, settled.normal_eq]
              · have accepted : document.preOrder.findSome? refusal? = none := settled.accepted
                rw [firstRefusal?, preOrder, preOrderOfChild, List.findSome?_cons, accepted]
                rfl
      | composite above =>
          obtain ⟨documents, saved, settled, accepted⟩ :
              ∃ documents, saveAll children = .ok documents ∧
                normalChildren (Kind.composite above).lends? documents = documents ∧
                (preOrderOfAll documents).findSome? refusal? = none := by
            apply exists_saveAll
            intro child member
            obtain ⟨document, childSaved, childSettled⟩ := below child member
            refine ⟨document, childSaved, childSettled, ?_⟩
            cases found : (Kind.composite above).proximity? with
            | none =>
                rw [Kind.lends?, found]
                exact document.lent_none
            | some near =>
                rw [Kind.lends?, found]
                exact lent_of_bound childSaved
                  (lends _ (self_mem_postOrder _) near found child member)
          refine ⟨.composite above.release documents, ?_, ?_, ?_⟩
          · rw [save, saved]
            rfl
          · rw [normal, normal_release, lends?_release, settled]
          · rw [firstRefusal?, preOrder, List.findSome?_cons, refusal?_composite_release, accepted]
      | extension custom =>
          exact absurd rfl (builtIn _ (self_mem_postOrder _) custom)

namespace Document

/-- Loading is refused exactly for the first refused parameter, and else holds the
normal form, which loads as itself; and so does what is saved of any branch of a
sound forest in which proximity nodes lend their fields. -/
theorem toForest_settles :
    (∀ document : Document,
      (∀ halt, document.toForest = .error halt ↔
        ∃ error, document.firstRefusal? = some error ∧ halt = .error error) ∧
      (∀ error, document.firstRefusal? = some error →
        ∃ parameter value, error = .invalidParameter parameter value) ∧
      (document.firstRefusal? = none →
        ∃ forest, document.toForest = .ok forest ∧
          forest.size = document.postOrder.length ∧ document.normal.IsHeldBy forest ∧
          forest.SavesAt (forest.size - 1) document.normal ∧
          ∃ again, document.normal.toForest = .ok again ∧ document.normal.IsHeldBy again ∧
            again.SavesAt (again.size - 1) document.normal)) ∧
    ∀ forest : Forest, forest.Sound → ∀ id < forest.size,
      ∃ branch, forest.branch id = .ok branch ∧
        (branch.IsBuiltIn → (∀ part ∈ branch.postOrder, part.LendsField) →
          ∃ document again, branch.save = .ok document ∧ document.toForest = .ok again ∧
            document.IsHeldBy again ∧ again.SavesAt (again.size - 1) document) := by
  refine ⟨fun document => ⟨fun halt => ?_, fun error refused => ?_, fun accepted => ?_⟩, ?_⟩
  · cases refused : document.firstRefusal? with
    | none =>
        obtain ⟨forest, loaded, _⟩ := exists_held refused
        rw [loaded]
        simp
    | some error =>
        rw [toForest_of_refused (branchFrom_eq_error_iff.mpr refused)]
        simp [eq_comm]
  · obtain ⟨part, _, own⟩ := List.exists_of_findSome?_eq_some refused
    exact exists_invalidParameter_of_refusal? own
  · obtain ⟨forest, loaded, held⟩ := exists_held accepted
    have size : forest.size = document.postOrder.length :=
      held.size.trans document.length_postOrder_normal
    have settled := normal_normal loaded
    have acceptedAgain : document.normal.firstRefusal? = none := by
      rw [← of?_branchFrom document.normal 0, branchFrom_normal, of?_branchFrom, accepted]
    obtain ⟨again, loadedAgain, heldAgain⟩ := exists_held acceptedAgain
    rw [settled] at heldAgain
    exact ⟨forest, loaded, size, held, held.saves_root, again, loadedAgain, heldAgain,
      heldAgain.saves_root⟩
  · intro forest sound id inside
    obtain ⟨branch, read, _, _⟩ := sound.exists_branch inside
    refine ⟨branch, read, fun builtIn lends => ?_⟩
    obtain ⟨document, saved, settled⟩ := branch.exists_save builtIn lends
    obtain ⟨again, loaded, held⟩ := exists_held settled.accepted
    rw [settled.normal_eq] at held
    exact ⟨document, again, saved, loaded, held, held.saves_root⟩

/-- A proximity node whose distance is refused, over a leaf whose similarity is. -/
def twiceRefused : Document :=
  .composite (.proximity ⟨none, .number, 0, false⟩) [.leaf (.fuzzy { text := "fox" } .nan 0)]

def sentence : Document :=
  .composite (.proximity ⟨some "title", .sentence, 7, true⟩)
    [.leaf (.field { field := some "body", text := "fox" }),
      .wrapper .group (some (.leaf (.fuzzy { text := "dog" } ⟨0x3F000000⟩ 1)))]

/-- A forest with such a sentence over a term that has taken over the field. -/
def sentenceForest : Forest :=
  Operation.runAll .empty
    [.add (.leaf (.field { field := some "body", text := "fox" })),
      .addProximity ⟨some "title", .sentence, true⟩ [0]]

def sentenceBranch : Branch :=
  .node 1 (.composite (.proximity ⟨some "title", .sentence, true⟩)) none
    [.node 0 (.leaf (.field { field := some "title", text := "fox", ignoreField := true }))
      (some (.composite (.proximity ⟨some "title", .sentence, true⟩))) []]

theorem sentenceBranch_isBuiltIn : sentenceBranch.IsBuiltIn := by
  intro part member custom
  simp only [sentenceBranch, Branch.postOrder, Branch.postOrderOfAll, List.nil_append,
    List.append_nil, List.cons_append, List.mem_cons, List.not_mem_nil, or_false] at member
  rcases member with rfl | rfl <;> exact nofun

theorem sentenceBranch_lendsField : ∀ part ∈ sentenceBranch.postOrder, part.LendsField := by
  intro part member near lends child childMember term found
  simp only [sentenceBranch, Branch.postOrder, Branch.postOrderOfAll, List.nil_append,
    List.append_nil, List.cons_append, List.mem_cons, List.not_mem_nil, or_false] at member
  rcases member with rfl | rfl
  · cases childMember
  · cases lends
    rw [List.mem_singleton.mp childMember] at found
    cases found
    exact ⟨rfl, rfl⟩

theorem toForest_settles_sentence :
    twiceRefused.toForest = .error (.error (.invalidParameter "distance" "0")) ∧
      sentence.firstRefusal? = none ∧
      (∃ forest, sentence.toForest = .ok forest ∧ sentence.normal.IsHeldBy forest) ∧
      sentenceForest.Sound ∧ 1 < sentenceForest.size ∧
      sentenceForest.branch 1 = .ok sentenceBranch ∧ sentenceBranch.IsBuiltIn ∧
      (∀ part ∈ sentenceBranch.postOrder, part.LendsField) ∧
      ∃ document again, sentenceBranch.save = .ok document ∧ document.toForest = .ok again ∧
        document.IsHeldBy again := by
  have accepted : sentence.firstRefusal? = none := by decide +kernel
  have refused : twiceRefused.firstRefusal? = some (.invalidParameter "distance" "0") := by
    decide +kernel
  have sound : sentenceForest.Sound := Operation.sound_runAll Forest.sound_empty _
  have read : sentenceForest.branch 1 = .ok sentenceBranch := rfl
  obtain ⟨forest, loaded, _, held, _⟩ := (toForest_settles.1 sentence).2.2 accepted
  obtain ⟨branch, branchRead, saves⟩ := toForest_settles.2 sentenceForest sound 1 (by decide)
  rw [read] at branchRead
  cases branchRead
  obtain ⟨document, again, saved, againLoaded, againHeld, _⟩ :=
    saves sentenceBranch_isBuiltIn sentenceBranch_lendsField
  exact ⟨((toForest_settles.1 twiceRefused).1 _).mpr ⟨_, refused, rfl⟩, accepted,
    ⟨forest, loaded, held⟩, sound, by decide, read, sentenceBranch_isBuiltIn,
    sentenceBranch_lendsField, document, again, saved, againLoaded, againHeld⟩

end Document

end QueryForest
