import QueryForest.Document.Save
import QueryForest.Proofs.Forest.Copying
import QueryForest.View.Outline
import QueryForest.View.QuerySyntax

/-!
# Views of renamed branches

An outline without names and a saved document do not depend on what the nodes of
a branch are called.  The query syntax does not either, but it depends on what
encloses the branch: a junction that is not at the top and not directly inside a
group is written in parentheses.
-/

namespace QueryForest

namespace Branch

mutual

theorem outlineAt_relaid (start : NodeId) (enclosing : Option Kind) (depth : Nat) :
    (branch : Branch) →
      (branch.relaid start enclosing).outlineAt false depth = branch.outlineAt false depth
  | .node id kind around [] => rfl
  | .node id kind around (head :: tail) => by
      have below := outlineAll_relaidAll (start + 1) kind (depth + 1) (head :: tail)
      rw [relaidAll] at below
      rw [relaid, relaidAll, outlineAt, outlineAt, below]
      rfl

theorem outlineAll_relaidAll (start : NodeId) (kind : Kind) (depth : Nat) :
    (branches : List Branch) →
      outlineAll false depth (relaidAll start kind branches) = outlineAll false depth branches
  | [] => rfl
  | head :: tail => by
      rw [relaidAll, outlineAll, outlineAll, outlineAt_relaid start (some kind) depth head,
        outlineAll_relaidAll (start + head.size) kind depth tail]

end

mutual

theorem save_relaid (start : NodeId) (enclosing : Option Kind) :
    (branch : Branch) → (branch.relaid start enclosing).save = branch.save
  | .node id kind around children => by
      have first := saveFirst_relaidAll (start + 1) kind children
      have all := saveAll_relaidAll (start + 1) kind children
      rw [relaid]
      cases kind with
      | leaf bottom => rw [save, save]
      | wrapper wrapping => rw [save, save, first]
      | composite above => rw [save, save, all]
      | extension custom => rw [save, save]

theorem saveFirst_relaidAll (start : NodeId) (kind : Kind) :
    (branches : List Branch) → saveFirst (relaidAll start kind branches) = saveFirst branches
  | [] => rfl
  | head :: tail => by
      rw [relaidAll, saveFirst, saveFirst, save_relaid start (some kind) head]

theorem saveAll_relaidAll (start : NodeId) (kind : Kind) :
    (branches : List Branch) → saveAll (relaidAll start kind branches) = saveAll branches
  | [] => rfl
  | head :: tail => by
      rw [relaidAll, saveAll, saveAll, save_relaid start (some kind) head,
        saveAll_relaidAll (start + head.size) kind tail]

end

/-! ## Query syntax -/

theorem terms_relaidAll (start : NodeId) (kind : Kind) (branches : List Branch) :
    terms (relaidAll start kind branches) = terms branches := by
  induction branches generalizing start with
  | nil => rfl
  | cons head tail inductionHypothesis =>
      have rest := inductionHypothesis (start + head.size)
      unfold terms at rest ⊢
      rw [relaidAll, List.filterMap_cons, List.filterMap_cons, rest, term?, kind_relaid]
      rfl

/-- What encloses the children of a node in a sound forest is that node. -/
theorem Mirrors.enclosing_child {forest : Forest} {branch child : Branch}
    (mirrors : branch.Mirrors forest) (sound : forest.Sound) (member : child ∈ branch.children) :
    child.enclosing = some branch.kind := by
  have linked : forest.parentOf child.id = some branch.id := by
    apply (sound.mem_childrenOf_iff branch.id child.id).mp
    rw [mirrors.childrenOf_id]
    exact List.mem_map_of_mem member
  have around : (forest.parentOf child.id).bind forest.kindOf = child.enclosing := by
    cases mirrors.child_mirrors member with
    | node _ encloses _ _ => exact encloses
  rw [← around, linked, Option.bind_some, mirrors.kindOf_id]

variable {forest : Forest}

theorem write_wrapper (style : QueryStyle) (id : NodeId) (around : Wrapper)
    (enclosing : Option Kind) (children : List Branch) :
    (node id (.wrapper around) enclosing children).write style =
      match children.map Branch.kind, writeAll style children with
      | kind :: _, clause :: _ => QueryStyle.wrapper kind clause around
      | _, _ => "" := by
  cases children <;> rfl

theorem map_kind_relaidAll (start : NodeId) (kind : Kind) (branches : List Branch) :
    (relaidAll start kind branches).map Branch.kind = branches.map Branch.kind := by
  induction branches generalizing start with
  | nil => rfl
  | cons head tail inductionHypothesis =>
      rw [relaidAll, List.map_cons, List.map_cons, kind_relaid, inductionHypothesis]

mutual

theorem write_relaid (sound : forest.Sound) (style : QueryStyle) (start : NodeId) :
    (branch : Branch) → branch.Mirrors forest →
      (branch.relaid start branch.enclosing).write style = branch.write style
  | .node id kind around children, mirrors => by
      have below := writeAll_relaidAll sound style (start + 1) kind children
        fun child member => ⟨mirrors.child_mirrors member, mirrors.enclosing_child sound member⟩
      rw [relaid]
      cases kind with
      | leaf bottom => rw [write, write]
      | wrapper wrapping =>
          rw [write_wrapper, write_wrapper, below, map_kind_relaidAll]
      | composite above => rw [write, write, below, terms_relaidAll]; rfl
      | extension custom => rw [write, write, below]

theorem writeAll_relaidAll (sound : forest.Sound) (style : QueryStyle) (start : NodeId)
    (kind : Kind) : (branches : List Branch) →
      (∀ branch ∈ branches, branch.Mirrors forest ∧ branch.enclosing = some kind) →
        writeAll style (relaidAll start kind branches) = writeAll style branches
  | [], _ => rfl
  | head :: tail, each => by
      obtain ⟨mirrors, encloses⟩ := each head List.mem_cons_self
      have first := write_relaid sound style start head mirrors
      rw [encloses] at first
      rw [relaidAll, writeAll, writeAll, first,
        writeAll_relaidAll sound style (start + head.size) kind tail
          fun branch member => each branch (List.mem_cons_of_mem head member)]

end

/-- A branch is a junction directly below a node that is not a group. -/
def IsBracketed (branch : Branch) : Prop :=
  ∃ operator around, branch.kind = .composite (.junction operator) ∧
    branch.enclosing = some around ∧ around.isGroup = false

theorem isBracketed_node {id : NodeId} {operator : Operator} {enclosing : Option Kind}
    {children : List Branch} :
    (node id (.composite (.junction operator)) enclosing children).IsBracketed ↔
      enclosing.all Kind.isGroup = false := by
  constructor
  · rintro ⟨_, around, _, encloses, notGroup⟩
    cases encloses
    exact notGroup
  · intro outside
    cases enclosing with
    | none => cases outside
    | some around => exact ⟨operator, around, rfl, rfl, outside⟩

/-- A junction has the text that it has at the top, in parentheses if it is neither
directly inside a group nor empty. -/
theorem junction_lifted (operator : Operator) (enclosing : Option Kind)
    (clauses : List String) :
    let whole := QueryStyle.junction operator enclosing clauses
    let lifted := QueryStyle.junction operator none clauses
    (enclosing.all Kind.isGroup = false ∧ whole ≠ "" → whole = "( " ++ lifted ++ " )") ∧
      (¬ (enclosing.all Kind.isGroup = false ∧ whole ≠ "") → whole = lifted) := by
  intro whole lifted
  by_cases empty : (clauses.filter fun clause => !clause.isEmpty).isEmpty = true
  · have wholeEmpty : whole = "" := if_pos empty
    have liftedEmpty : lifted = "" := if_pos empty
    exact ⟨fun present => absurd wholeEmpty present.2,
      fun _ => wholeEmpty.trans liftedEmpty.symm⟩
  · cases inGroup : enclosing.all Kind.isGroup with
    | true =>
        have same : whole = lifted := by
          simp only [whole, lifted, QueryStyle.junction, inGroup, Option.all_none]
        exact ⟨fun outside => (nomatch outside.1), fun _ => same⟩
    | false =>
        have bracketed : whole = "( " ++ lifted ++ " )" := by
          simp only [whole, lifted, QueryStyle.junction, empty, inGroup, Option.all_none,
            if_true, if_false, Bool.false_eq_true]
        refine ⟨fun _ => bracketed, fun absent => absurd ⟨rfl, ?_⟩ absent⟩
        rw [bracketed]
        simp

/-- What encloses a branch only matters for the parentheses around a junction that
is not empty. -/
theorem write_lifted (style : QueryStyle) (start : NodeId) (branch : Branch) :
    let whole := (branch.relaid start branch.enclosing).write style
    let lifted := (branch.relaid start none).write style
    (branch.IsBracketed ∧ whole ≠ "" → whole = "( " ++ lifted ++ " )") ∧
      (¬ (branch.IsBracketed ∧ whole ≠ "") → whole = lifted) := by
  rcases branch with ⟨id, kind, around, children⟩
  by_cases isJunction : ∃ operator, kind = .composite (.junction operator)
  · obtain ⟨operator, rfl⟩ := isJunction
    rw [isBracketed_node]
    exact junction_lifted operator around _
  · have same : ∀ enclosing, ((node id kind around children).relaid start enclosing).write style =
        ((node id kind around children).relaid start none).write style := by
      intro enclosing
      cases kind with
      | leaf _ | wrapper _ | extension _ => rfl
      | composite above =>
          cases above with
          | junction operator => exact absurd ⟨operator, rfl⟩ isJunction
          | tokenizedPhrase | multiPhrase | proximity _ => rfl
    refine ⟨fun bracketed => ?_, fun _ => same _⟩
    obtain ⟨⟨operator, _, junction, _⟩, _⟩ := bracketed
    exact absurd ⟨operator, junction⟩ isJunction

end Branch

end QueryForest
