import Mathlib.Data.List.Forall2
import QueryForest.Proofs.Forest.Within
import QueryForest.View.QuerySyntax

/-!
# Other words in the same tree

A rewording changes every field and every text of a tree, each of them on its own,
and leaves all else as it is.  The query syntax of a tree is related to that of the
reworded tree by each relation that goes from the clauses of a node to the node.
-/

namespace QueryForest

/-- A change of fields and a change of texts. -/
structure Rewording where
  field : Option String → Option String
  text : String → String

variable (rewording : Rewording)

def Rewording.term (term : Term) : Term :=
  { term with field := rewording.field term.field, text := rewording.text term.text }

@[simp]
theorem Rewording.position_term (term : Term) : (rewording.term term).position = term.position := by
  simp [Rewording.term]

/-- Of the composites, only a proximity has a field. -/
def Composite.reworded : Composite Proximity → Composite Proximity
  | .proximity near => .proximity { near with field := rewording.field near.field }
  | above => above

/-- A kind of node in other words.  What users define has none. -/
def Kind.reworded : Kind → Kind
  | .leaf bottom => .leaf (bottom.mapTerm rewording.term)
  | .wrapper around => .wrapper around
  | .composite above => .composite (above.reworded rewording)
  | .extension custom => .extension custom

namespace Leaf

variable (change : Term → Term) (bottom : Leaf Similarity)

@[simp]
theorem variant_mapTerm : (bottom.mapTerm change).variant = bottom.variant := by
  cases bottom <;> simp [mapTerm, variant]

@[simp]
theorem fallbacks_mapTerm : (bottom.mapTerm change).fallbacks = bottom.fallbacks := by
  cases bottom <;> simp [mapTerm, fallbacks]

@[simp]
theorem term?_mapTerm : (bottom.mapTerm change).term? = bottom.term?.map change := by
  cases bottom <;> simp [mapTerm, term?]

end Leaf

namespace Composite

variable (above : Composite Proximity)

@[simp]
theorem variant_reworded : (above.reworded rewording).variant = above.variant := by
  cases above <;> simp [reworded, variant]

@[simp]
theorem fallbacks_reworded : (above.reworded rewording).fallbacks = above.fallbacks := by
  cases above <;> simp [reworded, fallbacks]

@[simp]
theorem isJunction_reworded : (above.reworded rewording).isJunction = above.isJunction := by
  cases above <;> simp [reworded, isJunction]

end Composite

namespace Kind

variable (kind : Kind)

@[simp]
theorem variant_reworded : (kind.reworded rewording).variant = kind.variant := by
  cases kind <;> simp [reworded, variant]

@[simp]
theorem fallbacks_reworded : (kind.reworded rewording).fallbacks = kind.fallbacks := by
  cases kind <;> simp [reworded, fallbacks]

@[simp]
theorem isJunction_reworded : (kind.reworded rewording).isJunction = kind.isJunction := by
  cases kind <;> simp [reworded, isJunction]

@[simp]
theorem isGroup_reworded : (kind.reworded rewording).isGroup = kind.isGroup := by
  cases kind <;> simp [reworded, isGroup]

@[simp]
theorem isModifier_reworded : (kind.reworded rewording).isModifier = kind.isModifier := by
  cases kind <;> simp [reworded, isModifier]

@[simp]
theorem term?_reworded :
    (kind.reworded rewording).term? = kind.term?.map rewording.term := by
  cases kind <;> simp [reworded, term?]

end Kind

/-! ## Branches -/

namespace Branch

variable (rename : NodeId → NodeId)

mutual

/-- A branch in other words, with its nodes renamed. -/
def reworded : Branch → Branch
  | .node id kind enclosing children =>
      .node (rename id) (kind.reworded rewording) (enclosing.map (Kind.reworded rewording))
        (rewordedAll children)
termination_by structural branch => branch

def rewordedAll : List Branch → List Branch
  | [] => []
  | head :: tail => head.reworded :: rewordedAll tail
termination_by structural branches => branches

end

theorem rewordedAll_eq_map (branches : List Branch) :
    rewordedAll rewording rename branches = branches.map (reworded rewording rename) := by
  induction branches with
  | nil => simp [rewordedAll]
  | cons head tail inductionHypothesis => rw [rewordedAll, inductionHypothesis, List.map_cons]

@[simp]
theorem id_reworded (branch : Branch) :
    (branch.reworded rewording rename).id = rename branch.id := by
  cases branch with
  | node own kind enclosing children => rw [reworded, Branch.id, Branch.id]

@[simp]
theorem kind_reworded (branch : Branch) :
    (branch.reworded rewording rename).kind = branch.kind.reworded rewording := by
  cases branch with
  | node id kind enclosing children => rw [reworded, Branch.kind, Branch.kind]

@[simp]
theorem children_reworded (branch : Branch) :
    (branch.reworded rewording rename).children =
      branch.children.map (reworded rewording rename) := by
  cases branch with
  | node id kind enclosing children =>
      rw [reworded, Branch.children, Branch.children, rewordedAll_eq_map]

@[simp]
theorem terms_reworded (branches : List Branch) :
    terms (branches.map (reworded rewording rename)) = (terms branches).map rewording.term := by
  unfold terms
  rw [List.filterMap_map, List.map_filterMap]
  apply List.filterMap_congr
  intro branch _
  simp [term?]

theorem postOrder_reworded (branch : Branch) :
    (branch.reworded rewording rename).postOrder =
      branch.postOrder.map (reworded rewording rename) := by
  induction branch with
  | node id kind enclosing children inductionHypothesis =>
      rw [postOrder_eq, postOrder_eq (node id kind enclosing children), children_reworded,
        postOrderOfAll_eq_flatMap, postOrderOfAll_eq_flatMap, List.map_append, List.map_flatMap,
        List.flatMap_map, List.map_singleton]
      congr 1
      exact List.flatMap_congr inductionHypothesis

end Branch

def Node.reworded (node : Node) : Node :=
  { node with kind := node.kind.reworded rewording }

namespace Forest

variable (forest : Forest)

def reworded : Forest :=
  { forest with nodes := forest.nodes.map (Node.reworded rewording) }

theorem node_reworded (id : NodeId) :
    (forest.reworded rewording).node id = (forest.node id).map (Node.reworded rewording) := by
  unfold node reworded
  rw [Array.getElem?_map]
  cases forest.nodes[id]? <;> simp [Except.map, size]

theorem enclosing_reworded (parent? : Option NodeId) :
    (parent?.mapM fun parent => do return (← (forest.reworded rewording).node parent).kind) =
      (parent?.mapM fun parent => do return (← forest.node parent).kind).map
        (Option.map (Kind.reworded rewording)) := by
  cases parent? with
  | none => rfl
  | some parent =>
      simp only [Option.mapM_some, node_reworded]
      cases forest.node parent <;> rfl

theorem branchWithin_reworded (depth : Nat) (id : NodeId) :
    (forest.reworded rewording).branchWithin depth id =
      (forest.branchWithin depth id).map (Branch.reworded rewording fun name => name) := by
  induction depth generalizing id with
  | zero => rfl
  | succ depth inductionHypothesis =>
      have children (names : List NodeId) :
          names.mapM ((forest.reworded rewording).branchWithin depth) =
            (names.mapM (forest.branchWithin depth)).map
              (List.map (Branch.reworded rewording fun name => name)) := by
        rw [← mapM_map_result]
        congr 1
        funext name
        exact inductionHypothesis name
      rw [branchWithin, branchWithin, node_reworded]
      cases forest.node id with
      | error breach => rfl
      | ok node =>
          change (do
            let around ← node.parent.mapM fun parent => do
              return (← (forest.reworded rewording).node parent).kind
            let below ← node.children.mapM ((forest.reworded rewording).branchWithin depth)
            return Branch.node id (node.kind.reworded rewording) around below) =
            (do
              let around ← node.parent.mapM fun parent => do
                return (← forest.node parent).kind
              let below ← node.children.mapM (forest.branchWithin depth)
              return Branch.node id node.kind around below).map
                (Branch.reworded rewording fun name => name)
          rw [enclosing_reworded, children]
          cases node.parent.mapM fun parent => do return (← forest.node parent).kind with
          | error breach => rfl
          | ok around =>
              cases node.children.mapM (forest.branchWithin depth) with
              | error breach => rfl
              | ok below =>
                  simp [Except.map, bind, Except.bind, pure, Except.pure, Branch.reworded,
                    Branch.rewordedAll_eq_map]

theorem branch_reworded (id : NodeId) :
    (forest.reworded rewording).branch id =
      (forest.branch id).map (Branch.reworded rewording fun name => name) := by
  have size : (forest.reworded rewording).size = forest.size := by
    simp [reworded, Forest.size]
  rw [branch, branch, size, branchWithin_reworded]

end Forest

/-- A relation of texts goes from the clauses below a node to the node, when the node
is written in one style and its reworded form in another. -/
structure Rewording.Carries (related : String → String → Prop) (style other : QueryStyle) :
    Prop where
  nothing : related "" ""
  leaf : ∀ bottom : Leaf Similarity,
    related (style.leaf bottom) (other.leaf (bottom.mapTerm rewording.term))
  wrapper : ∀ (child : Kind) (around : Wrapper) (clause otherClause : String),
    related clause otherClause →
      related (QueryStyle.wrapper child clause around) (QueryStyle.wrapper child otherClause around)
  composite : ∀ (above : Composite Proximity) (enclosing : Option Kind) (terms : List Term)
    (clauses otherClauses : List String), List.Forall₂ related clauses otherClauses →
      related (style.composite enclosing terms clauses above)
        (other.composite enclosing (terms.map rewording.term) otherClauses
          (above.reworded rewording))

/-- The relation goes through a node that a user has defined. -/
def Extension.Carries (custom : Extension) (related : String → String → Prop)
    (style other : QueryStyle) : Prop :=
  ∀ clauses otherClauses, List.Forall₂ related clauses otherClauses →
    related (custom.write clauses style.escaper) (custom.write otherClauses other.escaper)

namespace QueryStyle

variable (style : QueryStyle)

/-- Of the kinds around it, a node only needs to know whether they are groups or
junctions or modifiers, which does not depend on the wording. -/
@[simp]
theorem wrapper_reworded (child : Kind) (clause : String) (around : Wrapper) :
    wrapper (child.reworded rewording) clause around = wrapper child clause around := by
  cases around <;> simp [wrapper, modified]

@[simp]
theorem composite_reworded (enclosing : Option Kind) (terms : List Term)
    (clauses : List String) (above : Composite Proximity) :
    style.composite (enclosing.map (Kind.reworded rewording)) terms clauses above =
      style.composite enclosing terms clauses above := by
  cases above with
  | junction operator => cases enclosing <;> simp [composite, junction]
  | tokenizedPhrase | multiPhrase | proximity _ => simp [composite]

end QueryStyle

namespace Branch

theorem write_wrapper_cons (style : QueryStyle) (id : NodeId) (around : Wrapper)
    (enclosing : Option Kind) (child : Branch) (others : List Branch) :
    (node id (.wrapper around) enclosing (child :: others)).write style =
      QueryStyle.wrapper child.kind (child.write style) around :=
  rfl

variable {rewording} {related : String → String → Prop} {style other : QueryStyle}

/-- A branch and its reworded form are written to related texts. -/
theorem write_reworded (carries : rewording.Carries related style other)
    (rename : NodeId → NodeId) (branch : Branch)
    (customs : ∀ part ∈ branch.postOrder, ∀ custom, part.kind = .extension custom →
      custom.Carries related style other) :
    related (branch.write style) ((branch.reworded rewording rename).write other) := by
  induction branch with
  | node id kind enclosing children inductionHypothesis =>
      have below : List.Forall₂ related (writeAll style children)
          (writeAll other (rewordedAll rewording rename children)) := by
        rw [rewordedAll_eq_map, writeAll_eq_map, writeAll_eq_map, List.map_map,
          List.forall₂_map_left_iff, List.forall₂_map_right_iff, List.forall₂_same]
        intro child member
        apply inductionHypothesis child member
        intro part within
        exact customs part (mem_postOrder_of_child member within)
      cases kind with
      | leaf bottom => exact carries.leaf bottom
      | wrapper around =>
          cases children with
          | nil => exact carries.nothing
          | cons child others =>
              rw [rewordedAll, writeAll, writeAll, List.forall₂_cons] at below
              rw [reworded, rewordedAll, Kind.reworded, write_wrapper_cons, write_wrapper_cons,
                kind_reworded, QueryStyle.wrapper_reworded]
              exact carries.wrapper child.kind around _ _ below.1
      | composite above =>
          have carried := carries.composite above enclosing (terms children) _ _ below
          rw [reworded, Kind.reworded, write, write]
          simp only [QueryStyle.composite_reworded]
          rwa [← terms_reworded, ← rewordedAll_eq_map] at carried
      | extension custom => exact customs _ (self_mem_postOrder _) custom rfl _ _ below

end Branch

end QueryForest
