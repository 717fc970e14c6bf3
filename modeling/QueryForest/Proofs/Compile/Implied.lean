import QueryForest.Proofs.Compile.Overlooking

/-!
# Trees that are read alike

Whoever writes a tree and whoever compiles it agree on the fields that need no
mention: none, the plain one and the default one.  Where one of these stands in the
place of another, the text of the tree and its query stay as they are.
-/

namespace QueryForest

namespace QueryStyle

variable (style : QueryStyle)

@[simp]
theorem writtenField_spoken (field : Option String) :
    style.writtenField (spokenField style.defaultField field) = style.writtenField field := by
  rw [writtenField_eq, writtenField_eq, spokenField_spokenField]

@[simp]
theorem inFieldOf_spoken (term : Term) (body : String) :
    style.inFieldOf ((Rewording.spoken style.defaultField).term term) body =
      style.inFieldOf term body := by
  simp [inFieldOf, inField, Rewording.term, Rewording.spoken]

theorem carries_spoken : (Rewording.spoken style.defaultField).Carries Eq style style where
  nothing := rfl
  leaf bottom := by
    cases bottom <;> simp [leaf, word, Leaf.mapTerm]
  wrapper child around clause otherClause same := by rw [same]
  composite above enclosing terms clauses otherClauses same := by
    rw [List.forall₂_eq_eq_eq] at same
    subst same
    have first (body : String) : style.inFieldOfFirst
        (terms.map (Rewording.spoken style.defaultField).term) body =
          style.inFieldOfFirst terms body := by
      cases terms <;> simp [inFieldOfFirst]
    cases above with
    | junction operator => simp [composite, Composite.reworded]
    | tokenizedPhrase =>
        simp [composite, Composite.reworded, tokenizedPhrase, first, Function.comp_def]
    | multiPhrase => simp [composite, Composite.reworded, multiPhrase, first, Function.comp_def]
    | proximity near => simp [composite, Composite.reworded, proximity, Rewording.spoken]

end QueryStyle

theorem Branch.write_spoken (style : QueryStyle) (rename : NodeId → NodeId) (branch : Branch) :
    (branch.reworded (.spoken style.defaultField) rename).write style = branch.write style := by
  apply Eq.symm
  apply write_reworded style.carries_spoken rename branch
  intro part _ custom _ clauses otherClauses same
  rw [List.forall₂_eq_eq_eq] at same
  rw [same]

namespace Forest

variable {defaultField : String} {first second : Forest}

theorem map_write_eq
    (same : first.reworded (.spoken defaultField) = second.reworded (.spoken defaultField))
    (escaper : Escaper) (id : NodeId) :
    (first.branch id).map (Branch.write ⟨escaper, defaultField⟩) =
      (second.branch id).map (Branch.write ⟨escaper, defaultField⟩) := by
  have branches := congrArg (Except.map (Branch.write ⟨escaper, defaultField⟩))
    (map_branch_eq same id)
  have written (forest : Forest) : ((forest.branch id).map (Branch.spoken defaultField)).map
      (Branch.write ⟨escaper, defaultField⟩) =
        (forest.branch id).map (Branch.write ⟨escaper, defaultField⟩) := by
    cases forest.branch id with
    | error breach => rfl
    | ok branch => exact congrArg Except.ok (branch.write_spoken ⟨escaper, defaultField⟩ _)
  rwa [written, written] at branches

theorem kindOf_reworded (rewording : Rewording) (forest : Forest) (id : NodeId) :
    (forest.reworded rewording).kindOf id = (forest.kindOf id).map (Kind.reworded rewording) := by
  simp only [kindOf, reworded, Array.getElem?_map, Option.map_map]
  rfl

/-- Nodes that differ in such a field only get one standard builder. -/
theorem map_builder?_eq
    (same : first.reworded (.spoken defaultField) = second.reworded (.spoken defaultField))
    (id : NodeId) : (first.kindOf id).map Standard.registry.builder? =
      (second.kindOf id).map Standard.registry.builder? := by
  have kinds := congrArg (kindOf · id) same
  simp only [kindOf_reworded] at kinds
  cases known : first.kindOf id with
  | none =>
      rw [known] at kinds
      rw [Option.map_eq_none_iff.mp kinds.symm]
  | some kind =>
      rw [known] at kinds
      obtain ⟨twin, twinKnown, alike⟩ := Option.map_eq_some_iff.mp kinds.symm
      rw [twinKnown, Option.map_some, Option.map_some, Standard.builder?_congr alike.symm]

theorem compileNode_of_reworded_eq
    (same : first.reworded (.spoken defaultField) = second.reworded (.spoken defaultField))
    {maxClauses : Nat} {id : NodeId} {query : Query}
    (compiled : (Standard.compiler ⟨defaultField, maxClauses⟩).compileNode first id = .ok query) :
    (Standard.compiler ⟨defaultField, maxClauses⟩).compileNode second id = .ok query := by
  have overlooking := Standard.isOverlooking_compiler ⟨defaultField, maxClauses⟩
  have alike := Compiler.unquoted_compileNode overlooking same (map_builder?_eq same) id
  exact Build.eq_ok_of_unquoted_eq alike compiled

/-- Forests that are the same but for fields that go without saying are written to the
same texts, and where one of them compiles, the other compiles to the same query. -/
theorem alike_of_reworded_eq
    (same : first.reworded (.spoken defaultField) = second.reworded (.spoken defaultField)) :
    (∀ escaper id, (first.branch id).map (Branch.write ⟨escaper, defaultField⟩) =
      (second.branch id).map (Branch.write ⟨escaper, defaultField⟩)) ∧
    ∀ maxClauses query,
      (∀ id, (Standard.compiler ⟨defaultField, maxClauses⟩).compileNode first id = .ok query ↔
        (Standard.compiler ⟨defaultField, maxClauses⟩).compileNode second id = .ok query) ∧
      ((Standard.compiler ⟨defaultField, maxClauses⟩).compile first = .ok query ↔
        (Standard.compiler ⟨defaultField, maxClauses⟩).compile second = .ok query) := by
  refine ⟨map_write_eq same, fun maxClauses query => ?_⟩
  have nodes (id : NodeId) :
      (Standard.compiler ⟨defaultField, maxClauses⟩).compileNode first id = .ok query ↔
        (Standard.compiler ⟨defaultField, maxClauses⟩).compileNode second id = .ok query :=
    ⟨compileNode_of_reworded_eq same, compileNode_of_reworded_eq same.symm⟩
  have roots : first.root = second.root := by
    simpa [reworded] using congrArg Forest.root same
  refine ⟨nodes, ?_⟩
  unfold Compiler.compile
  rw [roots]
  cases second.root with
  | none => rfl
  | some root => exact nodes root

/-- A word in a field of its own and a quoted text without one, in a proximity that may
have another field. -/
def wordNearText (own around : Option String) : Forest where
  nodes := #[
    { kind := .leaf (.field { field := own, text := "word" }), parent := some 2 },
    { kind := .leaf (.quotedField { text := "some text" }), parent := some 2 },
    { kind := .composite (.proximity ⟨around, .sentence, true⟩), children := [0, 1] }]
  root := some 2

theorem alike_of_reworded_eq_wordNearText :
    (wordNearText none (some "title")).reworded (.spoken "title") =
      (wordNearText (some "title") (some "_plain")).reworded (.spoken "title") ∧
    ((wordNearText none (some "title")).branch 2).map (Branch.write ⟨.standard, "title"⟩) =
      ((wordNearText (some "title") (some "_plain")).branch 2).map
        (Branch.write ⟨.standard, "title"⟩) ∧
    ∀ query, (Standard.compiler ⟨"title", 1024⟩).compile (wordNearText none (some "title")) =
        .ok query ↔
      (Standard.compiler ⟨"title", 1024⟩).compile (wordNearText (some "title") (some "_plain")) =
        .ok query := by
  have same : (wordNearText none (some "title")).reworded (.spoken "title") =
      (wordNearText (some "title") (some "_plain")).reworded (.spoken "title") := by
    simp [wordNearText, reworded, Node.reworded, Kind.reworded, Composite.reworded, Leaf.mapTerm,
      Rewording.term, Rewording.spoken, spokenField, plainField]
  obtain ⟨texts, queries⟩ := alike_of_reworded_eq same
  exact ⟨same, texts .standard 2, fun query => (queries 1024 query).2⟩

end Forest

end QueryForest
