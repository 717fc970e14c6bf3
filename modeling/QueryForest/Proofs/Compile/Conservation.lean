import Mathlib.Data.List.Perm.Basic
import QueryForest.Proofs.Compile.Made
import QueryForest.Proofs.Forest.Keeping

/-!
# Compiling conserves terms

Every builder hands on the terms of the artifacts that it is given, each of them
once: wrappers have one child only, junctions and proximity nodes keep all their
clauses, phrases take the terms of their parts.  So a compiled query has the
terms of the leaves below its node, as often as they are listed there.  Only
phrases with alternatives put terms into another order.
-/

namespace QueryForest

namespace Query

mutual

/-- The terms in a query, from left to right. -/
def terms : Query → List FieldTerm
  | .term wanted | .fuzzy wanted _ _ => [wanted]
  | .boolean clauses => termsOfClauses clauses
  | .phrase terms _ => terms.map Prod.fst
  | .multiPhrase steps _ => steps.flatMap PhraseStep.terms
  | .near clauses _ _ => termsOfAll clauses
  | .boost query _ => query.terms
  | .matchAll | .matchNone => []
termination_by structural query => query

def termsOfClauses : List (Occurrence × Query) → List FieldTerm
  | [] => []
  | head :: tail => termsOfClause head ++ termsOfClauses tail
termination_by structural clauses => clauses

def termsOfClause : Occurrence × Query → List FieldTerm
  | (_, query) => query.terms
termination_by structural clause => clause

def termsOfAll : List Query → List FieldTerm
  | [] => []
  | head :: tail => head.terms ++ termsOfAll tail
termination_by structural queries => queries

end

theorem termsOfClauses_eq_flatten (clauses : List (Occurrence × Query)) :
    termsOfClauses clauses = (clauses.map fun clause => clause.2.terms).flatten := by
  induction clauses with
  | nil => rfl
  | cons head tail inductionHypothesis =>
      rw [termsOfClauses, inductionHypothesis, termsOfClause, List.map_cons, List.flatten_cons]

theorem termsOfAll_eq_flatten (queries : List Query) :
    termsOfAll queries = (queries.map terms).flatten := by
  induction queries with
  | nil => rfl
  | cons head tail inductionHypothesis =>
      rw [termsOfAll, inductionHypothesis, List.map_cons, List.flatten_cons]

theorem flatten_terms_term {Item : Type} (taken : Item → FieldTerm) (items : List Item) :
    (items.map fun item => (term (taken item)).terms).flatten = items.map taken := by
  rw [← List.flatMap_def]
  exact List.map_eq_flatMap.symm

end Query

namespace Standard

variable {options : CompileOptions}

/-- What the leaves of a branch search for, from left to right. -/
def leafTerms (options : CompileOptions) (branch : Branch) : List FieldTerm :=
  (Branch.terms branch.postOrder).map (fieldTerm options)

theorem leafTerms_eq (options : CompileOptions) (branch : Branch) :
    leafTerms options branch =
      (branch.children.map (leafTerms options)).flatten
        ++ branch.term?.toList.map (fieldTerm options) := by
  have below : Branch.terms (Branch.postOrderOfAll branch.children) =
      branch.children.flatMap fun child => Branch.terms child.postOrder := by
    rw [Branch.postOrderOfAll_eq_flatMap, Branch.terms, List.filterMap_flatMap]
    rfl
  have own : Branch.terms [branch] = branch.term?.toList := by
    cases termed : branch.term? with
    | none => exact List.filterMap_cons_none termed
    | some term => exact List.filterMap_cons_some termed
  have together : Branch.terms branch.postOrder =
      Branch.terms (Branch.postOrderOfAll branch.children) ++ Branch.terms [branch] := by
    rw [branch.postOrder_eq, Branch.terms, List.filterMap_append]
    rfl
  rw [leafTerms, together, below, own, List.map_append, List.map_flatMap, List.flatMap_def]
  rfl

/-- Some terms are those of the leaves of a branch, and in their order unless the
branch has a phrase with alternatives. -/
structure Conserves (options : CompileOptions) (branch : Branch) (terms : List FieldTerm) :
    Prop where
  perm : terms.Perm (leafTerms options branch)
  inOrder : (∀ part ∈ branch.postOrder, part.kind ≠ .composite .multiPhrase) →
    terms = leafTerms options branch

namespace Conserves

variable {branch : Branch}

theorem leaf (childless : branch.children = []) :
    Conserves options branch (branch.term?.toList.map (fieldTerm options)) := by
  have same : branch.term?.toList.map (fieldTerm options) = leafTerms options branch := by
    rw [leafTerms_eq, childless]
    rfl
  exact ⟨.of_eq same, fun _ => same⟩

/-- The terms of a node that has none of its own are those of its children. -/
theorem node (termless : branch.term? = none) {rows : List (List FieldTerm)}
    (each : List.Forall₂ (Conserves options) branch.children rows) :
    Conserves options branch rows.flatten := by
  have whole : leafTerms options branch = (branch.children.map (leafTerms options)).flatten := by
    rw [leafTerms_eq, termless]
    exact List.append_nil _
  constructor
  · rw [whole]
    refine List.Perm.flatten_congr ?_
    rw [List.forall₂_map_right_iff]
    exact each.flip.imp fun _ _ conserves => conserves.perm
  · intro ordered
    have same : branch.children.map (leafTerms options) = rows.map id := by
      refine map_eq_map_of_forall₂ (forall₂_members each) ?_
      rintro child row ⟨member, _, conserves⟩
      refine (conserves.inOrder fun part within => ordered part ?_).symm
      exact Branch.mem_postOrder_of_child member within
    rw [whole, same, List.map_id]

theorem of_perm {terms others : List FieldTerm} (conserves : Conserves options branch terms)
    (isPhrase : branch.kind = .composite .multiPhrase) (perm : others.Perm terms) :
    Conserves options branch others where
  perm := perm.trans conserves.perm
  inOrder ordered := absurd isPhrase (ordered branch branch.self_mem_postOrder)

end Conserves

/-! ## Each builder conserves -/

variable {forest : Forest} {artifacts : Annotations Table Query} {part : Branch} {query : Query}

theorem terms_withSlop (slop : UInt32) (query : Query) :
    (withSlop slop query).terms = query.terms := by
  cases query <;> rfl

theorem terms_wrapped (around : Wrapper) (query : Query) :
    (wrapped around query).terms = query.terms := by
  cases around with
  | group | modifier _ | boost _ => rfl
  | slop value => exact terms_withSlop value query

theorem terms_leafQuery (options : CompileOptions) (bottom : Leaf Similarity) :
    (leafQuery options bottom).terms = bottom.term?.toList.map (fieldTerm options) := by
  cases bottom <;> rfl

abbrev ConservedBelow (options : CompileOptions) (artifacts : Annotations Table Query)
    (part : Branch) : Prop :=
  Compiler.Covers (fun branch query => Conserves options branch query.terms) artifacts
    part.children

theorem conserves_of_composite {above : Composite Proximity}
    (kind : part.kind = .composite above) (below : ConservedBelow options artifacts part)
    (made : (compiler options).Makes forest artifacts part query) :
    Conserves options part query.terms := by
  have termless : part.term? = none := by
    rw [Branch.term?, kind]
    rfl
  cases above with
  | junction operator =>
      obtain ⟨clauses, rfl, found⟩ := made_of_junction made kind
      rw [Query.terms, Query.termsOfClauses_eq_flatten]
      exact .node termless (List.forall₂_map_right_iff.mpr (below.forall₂ found))
  | proximity near =>
      obtain ⟨clauses, rfl, found⟩ := made_of_proximity made kind
      rw [Query.terms, Query.termsOfAll_eq_flatten]
      exact .node termless (List.forall₂_map_right_iff.mpr (below.forall₂ found))
  | tokenizedPhrase =>
      obtain ⟨terms, rfl, found⟩ := made_of_tokenizedPhrase made kind
      rw [Query.terms, ← Query.flatten_terms_term]
      exact .node termless (List.forall₂_map_right_iff.mpr (below.forall₂ found))
  | multiPhrase =>
      obtain ⟨items, rfl, found⟩ := made_of_multiPhrase made kind
      have conserved : Conserves options part
          (items.map fun item => (Query.term item.2).terms).flatten :=
        .node termless (List.forall₂_map_right_iff.mpr
          (below.forall₂ (found.imp fun _ _ => And.left)))
      rw [Query.flatten_terms_term] at conserved
      refine conserved.of_perm kind ?_
      rw [Query.terms]
      exact terms_stepsOf_perm items

/-- The builder of a node of a built-in kind conserves terms. -/
theorem conserves_of_makes (mirrors : part.Mirrors forest) (anchored : forest.Anchored)
    (builtIn : ∀ custom, part.kind ≠ .extension custom)
    (below : ConservedBelow options artifacts part)
    (made : (compiler options).Makes forest artifacts part query) :
    Conserves options part query.terms := by
  have admitted := mirrors.admits_children anchored
  cases kind : part.kind with
  | leaf bottom =>
      rw [kind] at admitted
      have childless : part.children = [] := List.eq_nil_of_length_eq_zero admitted
      have conserved : Conserves options part _ := .leaf childless
      rw [Branch.term?, kind] at conserved
      rw [made_of_leaf made kind, terms_leafQuery]
      exact conserved
  | wrapper around =>
      obtain ⟨child, others, inner, listed, found, rfl⟩ := made_of_wrapper made kind
      rw [kind, listed] at admitted
      have few : others.length + 1 ≤ 1 := admitted
      have none : others = [] := List.eq_nil_of_length_eq_zero (by omega)
      subst none
      have termless : part.term? = none := by
        rw [Branch.term?, kind]
        rfl
      obtain ⟨artifact, present, conserved⟩ := below child (by simp [listed])
      cases found.symm.trans present
      have each : List.Forall₂ (Conserves options) part.children [inner.terms] := by
        rw [listed]
        exact .cons conserved .nil
      have whole := Conserves.node termless each
      rw [terms_wrapped]
      rwa [List.flatten_singleton] at whole
  | composite above => exact conserves_of_composite kind below made
  | extension custom => exact absurd kind (builtIn custom)

end Standard

namespace Forest

variable {options : CompileOptions} {forest : Forest}

/-- What a tree of built-in variants of any forest that can be reached compiles to
has the terms of the leaves below, each as often as the walk through the tree
comes to its leaf, and in the order of the walk if no phrase with alternatives is
below. -/
theorem IsReachable.conserves_terms (reachable : forest.IsReachable) {id : NodeId} {query : Query}
    (compiled : (Standard.compiler options).compileNode forest id = .ok query) :
    ∃ branch, forest.branch id = .ok branch ∧ (branch.IsBuiltIn →
      query.terms.Perm ((Branch.terms branch.postOrder).map (Standard.fieldTerm options)) ∧
      ((∀ part ∈ branch.postOrder, part.kind ≠ .composite .multiPhrase) →
        query.terms = (Branch.terms branch.postOrder).map (Standard.fieldTerm options))) := by
  obtain ⟨branch, read⟩ := Compiler.exists_branch_of_compileNode compiled
  have mirrors := (mirrors_of_branchWithin read).2
  refine ⟨branch, read, fun builtIn => ?_⟩
  have conserved := Compiler.holds_of_compileNode compiled read
    fun part member artifacts below query made =>
      Standard.conserves_of_makes (mirrors.within part member) reachable.anchored
        (builtIn part member) below made
  exact ⟨conserved.perm, conserved.inOrder⟩

/-- A term moved to the root while a group lists it, and then listed beside that
group by a conjunction of another forest. -/
def stepsListingTwice : List GroveStep :=
  .plant :: .plant ::
    [.add (.wrapper .group), .add (.leaf .matchAll), .add (.leaf (.field { text := "fox" })),
      .addChild 0 1, .setRoot 2, .replace 1 2].map (.operate 1) ++
    [.graft 1 0, .operate 0 (.addWithChildren (.composite (.junction .conjunction)) [0, 2])]

def listedTwice : Forest :=
  (Grove.runAll stepsListingTwice).headD .empty

def twiceTree : Branch :=
  .node 3 (.composite (.junction .conjunction)) none
    [.node 0 (.wrapper .group) (some (.composite (.junction .conjunction)))
        [.node 2 (.leaf (.field { text := "fox" }))
          (some (.composite (.junction .conjunction))) []],
      .node 2 (.leaf (.field { text := "fox" })) (some (.composite (.junction .conjunction))) []]

theorem IsReachable.conserves_terms_listedTwice :
    listedTwice.IsReachable ∧
      (Standard.compiler).compileNode listedTwice 3 =
        .ok (.boolean [(.must, .term ⟨plainField, "fox"⟩), (.must, .term ⟨plainField, "fox"⟩)]) ∧
      listedTwice.branch 3 = .ok twiceTree ∧ twiceTree.IsBuiltIn ∧
      (∀ part ∈ twiceTree.postOrder, part.kind ≠ .composite .multiPhrase) ∧
      [⟨plainField, "fox"⟩, ⟨plainField, "fox"⟩] =
        (Branch.terms twiceTree.postOrder).map (Standard.fieldTerm {}) := by
  have reachable : listedTwice.IsReachable :=
    ⟨stepsListingTwice, List.mem_cons_self⟩
  have compiled : (Standard.compiler).compileNode listedTwice 3 =
      .ok (.boolean [(.must, .term ⟨plainField, "fox"⟩),
        (.must, .term ⟨plainField, "fox"⟩)]) := by with_unfolding_all rfl
  have shown : listedTwice.branch 3 = .ok twiceTree := by with_unfolding_all rfl
  obtain ⟨branch, read, conserved⟩ := reachable.conserves_terms compiled
  cases shown.symm.trans read
  have kinds : ∀ part ∈ twiceTree.postOrder, part.kind = .composite (.junction .conjunction) ∨
      part.kind = .wrapper .group ∨ part.kind = .leaf (.field { text := "fox" }) := by
    simp [twiceTree, Branch.postOrder, Branch.postOrderOfAll, Branch.kind]
  have builtIn : twiceTree.IsBuiltIn := by
    intro part member custom
    rcases kinds part member with kind | kind | kind
    · simp [kind]
    · simp [kind]
    · simp [kind]
  have plain : ∀ part ∈ twiceTree.postOrder, part.kind ≠ .composite .multiPhrase := by
    intro part member
    rcases kinds part member with kind | kind | kind
    · simp [kind]
    · simp [kind]
    · simp [kind]
  exact ⟨reachable, compiled, shown, builtIn, plain, (conserved builtIn).2 plain⟩

end Forest

end QueryForest
