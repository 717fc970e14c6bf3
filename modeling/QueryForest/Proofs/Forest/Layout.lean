import QueryForest.Proofs.Forest.Descent
import QueryForest.Proofs.Forest.Joining

/-!
# Copies are sound

The nodes of a copy are laid out in pre-order, so the nodes of a branch take up
a segment of the arena, and so do those of several branches.  What the links do
within a segment is proved along the layout: a child stands behind its parent
in the same segment, and the two directions of a link agree.
-/

namespace QueryForest

namespace Forest

variable {forest : Forest}

/-- Some nodes stand in the arena one after the other from a place on. -/
def Holds (forest : Forest) (start : NodeId) (nodes : List Node) : Prop :=
  ∀ (place : Nat) (node : Node), nodes[place]? = some node →
    forest.nodes[start + place]? = some node

namespace Holds

theorem head {start : NodeId} {node : Node} {rest : List Node}
    (holds : forest.Holds start (node :: rest)) :
    forest.nodes[start]? = some node :=
  holds 0 node rfl

theorem tail {start : NodeId} {node : Node} {rest : List Node}
    (holds : forest.Holds start (node :: rest)) :
    forest.Holds (start + 1) rest := by
  intro place other present
  have later := holds (place + 1) other present
  rwa [Nat.add_comm place 1, ← Nat.add_assoc] at later

theorem left {start : NodeId} {first second : List Node}
    (holds : forest.Holds start (first ++ second)) :
    forest.Holds start first := by
  intro place node present
  have inside : place < first.length := (List.getElem?_eq_some_iff.mp present).1
  exact holds place node ((List.getElem?_append_left inside).trans present)

theorem right {start : NodeId} {first second : List Node}
    (holds : forest.Holds start (first ++ second)) :
    forest.Holds (start + first.length) second := by
  intro place node present
  rw [Nat.add_assoc]
  apply holds (first.length + place) node
  rw [List.getElem?_append_right (Nat.le_add_right ..), Nat.add_sub_cancel_left]
  exact present

end Holds

/-- The links of the nodes from `start` to before `stop`: those at the `tops`
have the given parent, and all others have theirs within the segment. -/
structure Segment (forest : Forest) (start stop : NodeId) (tops : List NodeId)
    (parent : Option NodeId) : Prop where
  inside : ∀ top ∈ tops, start ≤ top ∧ top < stop
  nodup_tops : tops.Nodup
  parentOf_top : ∀ top ∈ tops, forest.parentOf top = parent
  owned : ∀ id : NodeId, start ≤ id → id < stop → id ∉ tops →
    ∃ owner, owner < id ∧ forest.parentOf id = some owner ∧
      id ∈ forest.childrenOf owner
  linked : ∀ id : NodeId, start ≤ id → id < stop →
    ∀ child ∈ forest.childrenOf id,
      id < child ∧ child < stop ∧ forest.parentOf child = some id
  nodup : ∀ id : NodeId, start ≤ id → id < stop → (forest.childrenOf id).Nodup
  admits : ∀ id : NodeId, start ≤ id → id < stop →
    ∀ kind, forest.kindOf id = some kind →
      kind.arity.admits (forest.childrenOf id).length

namespace Segment

theorem nil (forest : Forest) (start : NodeId) (parent : Option NodeId) :
    forest.Segment start start [] parent where
  inside _ member := nomatch member
  nodup_tops := List.nodup_nil
  parentOf_top _ member := nomatch member
  owned _ reached before := absurd before (Nat.not_lt.mpr reached)
  linked _ reached before := absurd before (Nat.not_lt.mpr reached)
  nodup _ reached before := absurd before (Nat.not_lt.mpr reached)
  admits _ reached before := absurd before (Nat.not_lt.mpr reached)

/-- Two segments, one after the other, whose tops have the same parent. -/
theorem append {start middle stop : NodeId} {tops others : List NodeId}
    {parent : Option NodeId} (first : forest.Segment start middle tops parent)
    (second : forest.Segment middle stop others parent)
    (forth : start ≤ middle) (further : middle ≤ stop) :
    forest.Segment start stop (tops ++ others) parent where
  inside top member := by
    rcases List.mem_append.mp member with member | member
    · have bounds := first.inside top member
      exact ⟨bounds.1, Nat.lt_of_lt_of_le bounds.2 further⟩
    · have bounds := second.inside top member
      exact ⟨Nat.le_trans forth bounds.1, bounds.2⟩
  nodup_tops := by
    refine List.nodup_append.mpr ⟨first.nodup_tops, second.nodup_tops, ?_⟩
    intro one oneMember other otherMember
    have oneBefore := (first.inside one oneMember).2
    have otherBehind := (second.inside other otherMember).1
    exact Nat.ne_of_lt (Nat.lt_of_lt_of_le oneBefore otherBehind)
  parentOf_top top member := by
    rcases List.mem_append.mp member with member | member
    · exact first.parentOf_top top member
    · exact second.parentOf_top top member
  owned id reached before apart := by
    rcases Nat.lt_or_ge id middle with early | late
    · exact first.owned id reached early
        fun member => apart (List.mem_append_left _ member)
    · exact second.owned id late before
        fun member => apart (List.mem_append_right _ member)
  linked id reached before child member := by
    rcases Nat.lt_or_ge id middle with early | late
    · obtain ⟨behind, within, named⟩ := first.linked id reached early child member
      exact ⟨behind, Nat.lt_of_lt_of_le within further, named⟩
    · exact second.linked id late before child member
  nodup id reached before := by
    rcases Nat.lt_or_ge id middle with early | late
    · exact first.nodup id reached early
    · exact second.nodup id late before
  admits id reached before := by
    rcases Nat.lt_or_ge id middle with early | late
    · exact first.admits id reached early
    · exact second.admits id late before

/-- A node before a segment whose tops are its children. -/
theorem cons {start stop : NodeId} {node : Node}
    (present : forest.nodes[start]? = some node)
    (below : forest.Segment (start + 1) stop node.children (some start))
    (forth : start + 1 ≤ stop)
    (room : node.kind.arity.admits node.children.length) :
    forest.Segment start stop [start] node.parent where
  inside top member := by
    rw [List.mem_singleton.mp member]
    exact ⟨Nat.le_refl _, forth⟩
  nodup_tops := List.nodup_singleton _
  parentOf_top top member := by
    rw [List.mem_singleton.mp member]
    exact parentOf_of_getElem? present
  owned id reached before apart := by
    have behind : start < id := by
      apply Nat.lt_of_le_of_ne reached
      intro same
      exact apart (List.mem_singleton.mpr same.symm)
    by_cases member : id ∈ node.children
    · refine ⟨start, behind, below.parentOf_top id member, ?_⟩
      rwa [childrenOf_of_getElem? present]
    · exact below.owned id behind before member
  linked id reached before child member := by
    rcases Nat.eq_or_lt_of_le reached with same | behind
    · subst same
      rw [childrenOf_of_getElem? present] at member
      have bounds := below.inside child member
      exact ⟨bounds.1, bounds.2, below.parentOf_top child member⟩
    · exact below.linked id behind before child member
  nodup id reached before := by
    rcases Nat.eq_or_lt_of_le reached with same | behind
    · subst same
      rw [childrenOf_of_getElem? present]
      exact below.nodup_tops
    · exact below.nodup id behind before
  admits id reached before kind known := by
    rcases Nat.eq_or_lt_of_le reached with same | behind
    · subst same
      rw [kindOf_of_getElem? present] at known
      cases known
      rwa [childrenOf_of_getElem? present]
    · exact below.admits id behind before kind known

/-- In an arena that is one segment, a parent comes before its child and lists it. -/
theorem listed_of_parentOf {top id parent : NodeId}
    (whole : forest.Segment 0 forest.size [top] none)
    (linked : forest.parentOf id = some parent) :
    parent < id ∧ id ∈ forest.childrenOf parent := by
  have apart : id ∉ [top] := by
    intro member
    have parentless := whole.parentOf_top id member
    rw [linked] at parentless
    cases parentless
  obtain ⟨owner, before, named, member⟩ :=
    whole.owned id (Nat.zero_le _) (lt_size_of_parentOf linked) apart
  rw [linked] at named
  cases named
  exact ⟨before, member⟩

/-- An arena that is one segment below its first node is sound. -/
theorem sound {top : NodeId} (whole : forest.Segment 0 forest.size [top] none)
    (root_lt : ∀ root, forest.root = some root → root < forest.size) :
    forest.Sound := by
  refine Sound.of_views root_lt ?_ ?_ ?_ ?_
  · intro parent child
    constructor
    · intro member
      have inside := lt_size_of_mem_childrenOf member
      exact (whole.linked parent (Nat.zero_le _) inside child member).2.2
    · intro linked
      exact (whole.listed_of_parentOf linked).2
  · intro parent
    by_cases inside : parent < forest.size
    · exact whole.nodup parent (Nat.zero_le _) inside
    · rw [childrenOf, getElem?_of_not_lt inside]
      exact List.nodup_nil
  · intro id
    induction id using Nat.strong_induction_on with
    | h id inductionHypothesis =>
        cases linked : forest.parentOf id with
        | none => exact .parentless linked
        | some parent =>
            have before := (whole.listed_of_parentOf linked).1
            exact .linked linked (inductionHypothesis parent before)
  · intro id kind known
    obtain ⟨node, present, _⟩ := Option.map_eq_some_iff.mp known
    exact whole.admits id (Nat.zero_le _) (lt_size_of_getElem? present) kind known

end Segment

end Forest

namespace Branch

/-! ## Layouts are segments -/

theorem length_places (start : NodeId) (branches : List Branch) :
    (places start branches).length = branches.length := by
  induction branches generalizing start with
  | nil => rfl
  | cons head tail inductionHypothesis =>
      rw [places, List.length_cons, List.length_cons, inductionHypothesis]

variable {source forest : Forest}

mutual

/-- The layout of a branch of an anchored forest is a segment. -/
theorem segment_layOut (anchored : source.Anchored) :
    (branch : Branch) → branch.Mirrors source →
      (start : NodeId) → (parent : Option NodeId) →
      forest.Holds start (branch.layOut start parent) →
      forest.Segment start (start + branch.size) [start] parent
  | .node id kind enclosing children, .node known _ listed below, start, parent,
      holds => by
      rw [layOut] at holds
      have present := holds.head
      have inner := segment_layOutAll anchored children below (start + 1) start
        holds.tail
      have admitted := anchored.admits known
      rw [listed, List.length_map, ← length_places (start + 1) children] at admitted
      have grown : start + 1 + sizeOfAll children =
          start + (Branch.node id kind enclosing children).size := by
        rw [size, Nat.add_right_comm, Nat.add_assoc]
      rw [grown] at inner
      refine Forest.Segment.cons present inner ?_ admitted
      rw [← grown]
      exact Nat.le_add_right ..

/-- The layout of several branches of an anchored forest is a segment. -/
theorem segment_layOutAll (anchored : source.Anchored) :
    (branches : List Branch) → (∀ branch ∈ branches, branch.Mirrors source) →
      (start parent : NodeId) →
      forest.Holds start (layOutAll start parent branches) →
      forest.Segment start (start + sizeOfAll branches) (places start branches)
        (some parent)
  | [], _, start, parent, _ => .nil forest start (some parent)
  | head :: tail, mirrors, start, parent, holds => by
      rw [layOutAll] at holds
      have first := segment_layOut anchored head (mirrors head List.mem_cons_self)
        start (some parent) holds.left
      have rest := holds.right
      rw [length_layOut] at rest
      have second := segment_layOutAll anchored tail
        (fun branch member => mirrors branch (List.mem_cons_of_mem head member))
        (start + head.size) parent rest
      rw [places, sizeOfAll, ← Nat.add_assoc]
      exact first.append second (Nat.le_add_right ..) (Nat.le_add_right ..)

end

theorem size_toForest (branch : Branch) : branch.toForest.size = branch.size := by
  show (branch.layOut 0 none).toArray.size = branch.size
  rw [List.size_toArray, length_layOut]

theorem size_pos (branch : Branch) : 0 < branch.size := by
  cases branch with
  | node id kind enclosing children => exact Nat.succ_pos _

theorem holds_toForest (branch : Branch) :
    branch.toForest.Holds 0 (branch.layOut 0 none) := by
  intro place node present
  rw [Nat.zero_add]
  exact (List.getElem?_toArray ..).trans present

/-- A copy of a branch is a sound forest.  For the branch to be read at all, its
nodes have to be in the arena, each with room for its children; who their
parents are is laid out anew. -/
theorem Mirrors.sound_toForest_of_anchored {branch : Branch}
    (mirrors : branch.Mirrors source) (anchored : source.Anchored) :
    branch.toForest.Sound := by
  have whole := segment_layOut anchored branch mirrors 0 none (holds_toForest branch)
  rw [Nat.zero_add, ← size_toForest] at whole
  apply whole.sound
  intro root rooted
  cases rooted
  rw [size_toForest]
  exact branch.size_pos

theorem Mirrors.sound_toForest {branch : Branch} (mirrors : branch.Mirrors source)
    (sound : source.Sound) : branch.toForest.Sound :=
  mirrors.sound_toForest_of_anchored sound.anchored

/-- The root of a copy is nobody's child. -/
theorem rootParentless_toForest (branch : Branch) :
    branch.toForest.RootParentless := by
  intro root rooted
  cases rooted
  refine ⟨branch.size_toForest.symm ▸ branch.size_pos, ?_⟩
  cases branch with
  | node id kind enclosing children =>
      have holds := holds_toForest (.node id kind enclosing children)
      rw [layOut] at holds
      exact Forest.parentOf_of_getElem? holds.head

end Branch

namespace Forest

variable {forest : Forest}

/-! ## Copying node by node -/

def extended (forest : Forest) (nodes : List Node) : Forest :=
  { forest with nodes := forest.nodes ++ nodes.toArray }

theorem size_extended (forest : Forest) (nodes : List Node) :
    (forest.extended nodes).size = forest.size + nodes.length := by
  change (forest.nodes ++ nodes.toArray).size = forest.nodes.size + nodes.length
  exact Array.size_append

theorem extended_extended (forest : Forest) (first second : List Node) :
    (forest.extended first).extended second = forest.extended (first ++ second) := by
  change { forest with nodes := forest.nodes ++ first.toArray ++ second.toArray } = _
  rw [extended, Array.append_assoc, List.append_toArray first second]

theorem push_eq_extended (forest : Forest) (kind : Kind) :
    forest.push kind = forest.extended [{ kind }] := by
  rw [push, extended, Array.push_eq_append]

/-- The first of the nodes behind a forest is changed by its name. -/
theorem modifyNode_extended_cons (forest : Forest) (node : Node) (later : List Node)
    (change : Node → Node) :
    (forest.extended (node :: later)).modifyNode forest.size change =
      forest.extended (change node :: later) := by
  refine ext_getElem? rfl fun id => ?_
  change ((forest.nodes ++ (node :: later).toArray).modify forest.nodes.size change)[id]? =
    (forest.nodes ++ (change node :: later).toArray)[id]?
  rw [Array.getElem?_modify]
  by_cases before : id < forest.nodes.size
  · rw [if_neg (Nat.ne_of_gt before), Array.getElem?_append_left before,
      Array.getElem?_append_left before]
  · obtain ⟨place, rfl⟩ := Nat.exists_eq_add_of_le (Nat.not_lt.mp before)
    rw [Array.getElem?_append_right (Nat.le_add_right _ _),
      Array.getElem?_append_right (Nat.le_add_right _ _), Nat.add_sub_cancel_left]
    cases place with
    | zero => simp
    | succ place => simp

mutual

/-- The nodes of a copy are laid out in pre-order behind the forest. -/
theorem edit_copyFrom : (branch : Branch) → (forest : Forest) → (parent : Option NodeId) →
    forest.edit (Edit.copyFrom parent branch) =
      (.ok forest.size, forest.extended (branch.layOut forest.size parent))
  | .node _ kind _ children, forest, parent => by
      have added : forest.edit (Edit.add kind) = (.ok forest.size, forest.extended [{ kind }]) := by
        rw [← push_eq_extended]
        rfl
      have inside : forest.size < (forest.extended [{ kind }]).size := by
        rw [size_extended]
        exact Nat.lt_succ_self _
      have behind (node : Node) : (forest.extended [node]).size = forest.size + 1 :=
        size_extended forest [node]
      rw [Edit.copyFrom, edit_bind_of_ok _ added, edit_bind_of_ok _ (edit_modifyNode inside _),
        modifyNode_extended_cons,
        edit_bind_of_ok _ (edit_copyChildren children forest _ [] (behind _)), edit_pure,
        Branch.layOut]
      rfl

/-- The children of a node that stands behind a forest are laid out behind it and what is
there already, and their places are added to those of its children. -/
theorem edit_copyChildren : (children : List Branch) → (forest : Forest) → (node : Node) →
    (laid : List Node) → {start : NodeId} → (forest.extended (node :: laid)).size = start →
    (forest.extended (node :: laid)).edit (Edit.copyChildren forest.size children) =
      (.ok (), forest.extended
        ({ node with children := node.children ++ Branch.places start children } ::
          (laid ++ Branch.layOutAll start forest.size children)))
  | [], forest, node, laid, start, _ => by
      rw [Edit.copyChildren, edit_pure, Branch.places, Branch.layOutAll, List.append_nil,
        List.append_nil]
  | child :: others, forest, node, laid, start, reached => by
      have copied := edit_copyFrom child (forest.extended (node :: laid)) (some forest.size)
      rw [reached, extended_extended, List.cons_append] at copied
      have inside : forest.size <
          (forest.extended (node :: (laid ++ child.layOut start (some forest.size)))).size := by
        rw [size_extended]
        exact Nat.lt_add_of_pos_right (Nat.succ_pos _)
      have next (changed : Node) : (forest.extended
          (changed :: (laid ++ child.layOut start (some forest.size)))).size =
            start + child.size := by
        rw [← reached, size_extended, size_extended, List.length_cons, List.length_cons,
          List.length_append, Branch.length_layOut]
        omega
      rw [Edit.copyChildren, edit_bind_of_ok _ copied,
        edit_bind_of_ok _ (edit_modifyNode inside _), modifyNode_extended_cons,
        edit_copyChildren others forest _ _ (next _), Branch.places, Branch.layOutAll,
        List.append_assoc, List.append_assoc, List.singleton_append]

end

theorem copy_eq_ok {id : NodeId} {branch : Branch}
    (read : forest.branch id = .ok branch) :
    forest.copy id = .ok branch.toForest := by
  rw [copy, read]
  rw [edit_bind_of_ok _ (edit_check empty _), edit_bind_of_ok _ (edit_copyFrom branch empty none),
    edit_modify]
  simp [Except.map, extended, Branch.toForest, empty, size]

theorem copy_eq_error {id : NodeId} {breach : Breach}
    (unread : forest.branch id = .error breach) :
    forest.copy id = .error (.breach breach) := by
  rw [copy, unread]
  rfl

/-- Copies are made of branches. -/
theorem copy_eq_ok_iff {id : NodeId} {copy : Forest} :
    forest.copy id = .ok copy ↔
      ∃ branch, forest.branch id = .ok branch ∧ branch.toForest = copy := by
  constructor
  · intro copies
    cases read : forest.branch id with
    | ok branch =>
        rw [copy_eq_ok read] at copies
        cases copies
        exact ⟨branch, rfl, rfl⟩
    | error breach =>
        rw [copy_eq_error read] at copies
        cases copies
  · rintro ⟨branch, read, rfl⟩
    exact copy_eq_ok read

theorem edit_copyBranch {id : NodeId} {branch : Branch}
    (read : forest.branch id = .ok branch) :
    forest.edit (Edit.copyBranch id) =
      (.ok forest.size, forest.joined branch.toForest) := by
  rw [Edit.copyBranch, edit_bind_of_ok _ (edit_get forest), copy_eq_ok read]
  rw [edit_bind_of_ok _ (edit_graft forest branch.rootParentless_toForest)]
  simp [Branch.toForest]

theorem edit_copyBranch_of_error {id : NodeId} {breach : Breach}
    (unread : forest.branch id = .error breach) :
    forest.edit (Edit.copyBranch id) = (.error (.breach breach), forest) := by
  rw [Edit.copyBranch, edit_bind_of_ok _ (edit_get forest), copy_eq_error unread]
  rfl

theorem edit_copyBranch_outside {id : NodeId} (outside : ¬ id < forest.size) :
    forest.edit (Edit.copyBranch id) =
      (.error (.breach (.missing id forest.size)), forest) :=
  edit_copyBranch_of_error (branch_outside outside)

end Forest

end QueryForest
