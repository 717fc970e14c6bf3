import QueryForest.Proofs.Forest.Step
import QueryForest.Proofs.Syntax.Reading
import QueryForest.Query.Outline

/-!
# What is printed determines what is compiled

The text of a legible tree is read as the query that the tree compiles to.  So two
legible trees with one text compile to one query, up to junctions of one clause.
Other trees can be written like legible ones and compile to other queries.
-/

namespace QueryForest

namespace Branch

/-- A forest links the nodes below a node to those that list them. -/
theorem Mirrors.isLinked {forest : Forest} {branch : Branch} (mirrors : branch.Mirrors forest)
    (sound : forest.Sound) : branch.IsLinked := by
  intro part within child member
  have above := mirrors.within part within
  have listed : child.id ∈ forest.childrenOf part.id := by
    rw [above.childrenOf_id]
    exact List.mem_map_of_mem member
  have linked := (sound.mem_childrenOf_iff part.id child.id).mp listed
  cases above.child_mirrors member with
  | node _ enclosed _ _ =>
      cases above with
      | node known _ _ _ =>
          rw [← enclosed]
          exact (congrArg (Option.bind · forest.kindOf) linked).trans known

/-- A branch that is read as what it is wherever a whole query stands. -/
structure IsLegibleQuery (branch : Branch) : Prop where
  unsigned : branch.sign = none
  legible : branch.IsLegible none false

end Branch

namespace QueryReader

variable {branch : Branch}

/-- The text of a legible branch is read as what the branch compiles to. -/
theorem read_standardText (options : CompileOptions) (legible : branch.IsLegibleQuery)
    (linked : branch.IsLinked) {depth : Nat} (deep : branch.size < depth) :
    read options depth branch.standardText =
      some (Standard.queryOf options branch).collapsed := by
  have reads : Reads options none branch := reads_of_isLegible legible.legible linked
  obtain ⟨operator, clauses, found, shows⟩ :=
    reads.contents rfl legible.unsigned depth [] deep .nil
  rw [List.append_nil] at found
  change junction _ depth branch.standardText.toList = _ at found
  rw [read, found, ← shows]
  rfl

end QueryReader

namespace Standard

/-- Two legible trees of built-in variants that have one text compile to one
query, up to junctions of one clause. -/
theorem collapsed_eq_of_standardText_eq {options : CompileOptions} {first second : Forest}
    (firstSound : first.Sound) (secondSound : second.Sound) {firstId secondId : NodeId}
    {firstBranch secondBranch : Branch} (firstRead : first.branch firstId = .ok firstBranch)
    (secondRead : second.branch secondId = .ok secondBranch)
    (firstBuiltIn : firstBranch.IsBuiltIn) (secondBuiltIn : secondBranch.IsBuiltIn)
    (firstLegible : firstBranch.IsLegibleQuery) (secondLegible : secondBranch.IsLegibleQuery)
    {firstQuery secondQuery : Query}
    (firstCompiled : (compiler options).compileNode first firstId = .ok firstQuery)
    (secondCompiled : (compiler options).compileNode second secondId = .ok secondQuery)
    (same : firstBranch.standardText = secondBranch.standardText) :
    firstQuery.collapsed = secondQuery.collapsed := by
  have readFirst := QueryReader.read_standardText options firstLegible
    ((Forest.mirrors_of_branchWithin firstRead).2.isLinked firstSound)
    (Nat.lt_succ_of_le (Nat.le_max_left firstBranch.size secondBranch.size))
  have readSecond := QueryReader.read_standardText options secondLegible
    ((Forest.mirrors_of_branchWithin secondRead).2.isLinked secondSound)
    (Nat.lt_succ_of_le (Nat.le_max_right firstBranch.size secondBranch.size))
  rw [(eq_queryOf_of_compileNode firstSound firstRead firstBuiltIn firstCompiled).2,
    (eq_queryOf_of_compileNode secondSound secondRead secondBuiltIn secondCompiled).2]
  rw [same, readSecond] at readFirst
  exact (Option.some.inj readFirst).symm

def wordKind (text : String) : Kind :=
  .leaf (.field { text })

def disjunction : Kind :=
  .composite (.junction .disjunction)

/-- A disjunction in a disjunction, which has a single clause. -/
def nestedForest : Forest :=
  Operation.runAll .empty
    [.add (wordKind "a"), .add (wordKind "b"), .addWithChildren disjunction [1],
      .addWithChildren (.wrapper .group) [2], .addWithChildren disjunction [0, 3], .setRoot 4]

def nestedTree : Branch :=
  .node 4 disjunction none
    [.node 0 (wordKind "a") (some disjunction) [],
      .node 3 (.wrapper .group) (some disjunction)
        [.node 2 disjunction (some (.wrapper .group))
          [.node 1 (wordKind "b") (some disjunction) []]]]

def groupedForest : Forest :=
  Operation.runAll .empty
    [.add (wordKind "a"), .add (wordKind "b"), .addWithChildren (.wrapper .group) [1],
      .addWithChildren disjunction [0, 2], .setRoot 3]

def groupedTree : Branch :=
  .node 3 disjunction none
    [.node 0 (wordKind "a") (some disjunction) [],
      .node 2 (.wrapper .group) (some disjunction)
        [.node 1 (wordKind "b") (some (.wrapper .group)) []]]

theorem isLegible_word {slopped : Bool} {id : NodeId} {text : String} {enclosing : Option Kind}
    (plain : text ≠ "" ∧ text ≠ "WITHIN" ∧ text ≠ "INORDER") :
    (Branch.node id (wordKind text) enclosing []).IsLegible none slopped :=
  .field (fun _ => rfl) (fun _ => plain.2) fun _ => plain.1

theorem isLegibleQuery_nestedTree : nestedTree.IsLegibleQuery := by
  refine ⟨rfl, .junction (List.cons_ne_nil _ _) nofun (List.forall_mem_cons.mpr
    ⟨isLegible_word (by decide), List.forall_mem_singleton.mpr (.group rfl ?_)⟩)⟩
  exact .junction (List.cons_ne_nil _ _) nofun
    (List.forall_mem_singleton.mpr (isLegible_word (by decide)))

theorem isLegibleQuery_groupedTree : groupedTree.IsLegibleQuery :=
  ⟨rfl, .junction (List.cons_ne_nil _ _) nofun (List.forall_mem_cons.mpr
    ⟨isLegible_word (by decide),
      List.forall_mem_singleton.mpr (.group rfl (isLegible_word (by decide)))⟩)⟩

theorem collapsed_eq_of_standardText_eq_nested :
    nestedForest.branch 4 = .ok nestedTree ∧ groupedForest.branch 3 = .ok groupedTree ∧
      nestedTree.standardText = "a OR ( b )" ∧ groupedTree.standardText = "a OR ( b )" ∧
      ∃ nestedQuery groupedQuery, (compiler).compile nestedForest = .ok nestedQuery ∧
        (compiler).compile groupedForest = .ok groupedQuery ∧
        nestedQuery ≠ groupedQuery ∧ nestedQuery.collapsed = groupedQuery.collapsed := by
  have nestedRead : nestedForest.branch 4 = .ok nestedTree := rfl
  have groupedRead : groupedForest.branch 3 = .ok groupedTree := rfl
  have nestedText : nestedTree.standardText = "a OR ( b )" := by decide +kernel
  have groupedText : groupedTree.standardText = "a OR ( b )" := by decide +kernel
  have nestedCompiled : (compiler).compile nestedForest =
      .ok (.boolean [(.should, .term ⟨plainField, "a"⟩),
        (.should, .boolean [(.should, .term ⟨plainField, "b"⟩)])]) := rfl
  have groupedCompiled : (compiler).compile groupedForest =
      .ok (.boolean [(.should, .term ⟨plainField, "a"⟩),
        (.should, .term ⟨plainField, "b"⟩)]) := rfl
  refine ⟨nestedRead, groupedRead, nestedText, groupedText, _, _, nestedCompiled,
    groupedCompiled, by simp, ?_⟩
  exact collapsed_eq_of_standardText_eq (Operation.sound_runAll Forest.sound_empty _)
    (Operation.sound_runAll Forest.sound_empty _) nestedRead groupedRead
    (by simp [nestedTree, Branch.isBuiltIn_node, wordKind, disjunction])
    (by simp [groupedTree, Branch.isBuiltIn_node, wordKind, disjunction])
    isLegibleQuery_nestedTree isLegibleQuery_groupedTree nestedCompiled groupedCompiled
    (nestedText.trans groupedText.symm)

/-! ## Trees that are written alike -/

def doubled : Kind :=
  .wrapper (.boost ⟨0x40000000⟩)

def negation : Kind :=
  .wrapper (.modifier .negated)

def boostedBelow : Forest :=
  Operation.runAll .empty
    [.add (wordKind "a"), .addWithChildren doubled [0], .addWithChildren negation [1],
      .add (wordKind "b"), .addWithChildren disjunction [2, 3], .setRoot 4]

def boostedBelowTree : Branch :=
  .node 4 disjunction none
    [.node 2 negation (some disjunction)
        [.node 1 doubled (some negation) [.node 0 (wordKind "a") (some doubled) []]],
      .node 3 (wordKind "b") (some disjunction) []]

def boostedAbove : Forest :=
  Operation.runAll .empty
    [.add (wordKind "a"), .addWithChildren negation [0], .addWithChildren doubled [1],
      .add (wordKind "b"), .addWithChildren disjunction [2, 3], .setRoot 4]

def boostedAboveTree : Branch :=
  .node 4 disjunction none
    [.node 2 doubled (some disjunction)
        [.node 1 negation (some doubled) [.node 0 (wordKind "a") (some negation) []]],
      .node 3 (wordKind "b") (some disjunction) []]

/-- What is printed does not determine what is compiled: a boost above a sign is
written like one below it, but keeps the sign from the junction. -/
theorem not_standardText_determines :
    ¬ ∀ (options : CompileOptions) (first second : Forest) (firstRoot secondRoot : NodeId)
      (firstBranch secondBranch : Branch) (firstQuery secondQuery : Query),
      first.Sound → second.Sound → first.root = some firstRoot → second.root = some secondRoot →
      first.branch firstRoot = .ok firstBranch → second.branch secondRoot = .ok secondBranch →
      firstBranch.IsBuiltIn → secondBranch.IsBuiltIn →
      (compiler options).compile first = .ok firstQuery →
      (compiler options).compile second = .ok secondQuery →
      firstBranch.standardText = secondBranch.standardText →
      firstQuery.collapsed = secondQuery.collapsed := by
  intro determines
  have builtIn : boostedBelowTree.IsBuiltIn ∧ boostedAboveTree.IsBuiltIn := by
    simp [boostedBelowTree, boostedAboveTree, Branch.isBuiltIn_node, wordKind, disjunction,
      doubled, negation]
  have same : boostedBelowTree.standardText = boostedAboveTree.standardText := by decide +kernel
  have collapsed := determines {} boostedBelow boostedAbove 4 4 boostedBelowTree boostedAboveTree
    (.boolean [(.mustNot, .boost (.term ⟨plainField, "a"⟩) ⟨0x40000000⟩),
      (.should, .term ⟨plainField, "b"⟩)])
    (.boolean [(.should, .boost (.term ⟨plainField, "a"⟩) ⟨0x40000000⟩),
      (.should, .term ⟨plainField, "b"⟩)])
    (Operation.sound_runAll Forest.sound_empty _) (Operation.sound_runAll Forest.sound_empty _)
    rfl rfl rfl rfl builtIn.1 builtIn.2 rfl rfl same
  simp [Query.collapsed, Query.collapsedClauses, Query.collapsedClause, Query.joined] at collapsed

/-- Pairs of branches that are written alike.  Each breaks one of the conditions
that legible branches satisfy. -/
def collisions : List (Branch × Branch) :=
  let leaf (bottom : Leaf Similarity) := Branch.atop 0 (.leaf bottom) []
  let word (text : String) := leaf (.field { text })
  let quoted (text : String) := leaf (.quotedField { text })
  let second (position : UInt32) (field : Option String) :=
    leaf (.field { text := "b", position, field })
  let phrase := Branch.atop 0 (.composite .tokenizedPhrase)
  let slots := Branch.atop 0 (.composite .multiPhrase)
  let either := Branch.atop 0 disjunction
  let row := Branch.atop 0 (.composite (.junction .implicit))
  let near (reach : Reach) (inOrder : Bool) :=
    Branch.atop 0 (.composite (.proximity { reach, inOrder })) [word "a", word "b"]
  let inside (kind : Kind) (branch : Branch) := Branch.atop 0 kind [branch]
  let two : Similarity := ⟨⟨0x40000000⟩, by decide⟩
  let loose := inside (.wrapper (.slop 2))
  let group := inside (.wrapper .group)
  let negated := inside negation
  -- the positions, the later fields and the number of the words in a phrase
  [(phrase [word "a", second 2 none], phrase [word "a", second 3 none]),
    (phrase [word "a", second 2 none], phrase [word "a", second 2 (some "t")]),
    (phrase [word "a"], quoted "a"),
    (phrase [word "a", second 2 none], quoted "a b"),
    (slots [second 0 none], slots [second 1 none]),
    -- fields that are not written, and prefixes of fuzzy terms
    (word "b", leaf (.field { text := "b", field := some "t", ignoreField := true })),
    (leaf (.fuzzy { text := "a" } two 0), leaf (.fuzzy { text := "a" } two 1)),
    -- clauses without a text
    (either [word "a", word "b"], either [word "a", leaf .matchNone, word "b"]),
    (either [word "a", word "b"], either [word "a", word "", word "b"]),
    -- words that are read as nearness
    (row [row [word "a", word "b"], word "WITHIN", word "SENTENCE"], row [near .sentence false]),
    (row [near .sentence false, word "INORDER"], row [near .sentence true]),
    -- signs that do not reach a junction
    (group (negated (word "a")), group (either [negated (word "a")])),
    (negated (word "a"), either [negated (word "a")]),
    (either [inside doubled (negated (word "a")), word "b"],
      either [negated (inside doubled (word "a")), word "b"]),
    -- slops that do not reach a phrase
    (loose (word "a"), leaf (.fuzzy { text := "a" } two 0)),
    (loose (group (phrase [word "a", second 2 none])),
      loose (either [phrase [word "a", second 2 none]]))]

/-- Branches that are written alike can mean different queries. -/
theorem collisions_differ : ∀ pair ∈ collisions,
    pair.1.standardText = pair.2.standardText ∧
      (queryOf {} pair.1).collapsed ≠ (queryOf {} pair.2).collapsed := by
  have shown : ∀ pair ∈ collisions, pair.1.standardText = pair.2.standardText ∧
      (queryOf {} pair.1).collapsed.outline ≠ (queryOf {} pair.2).collapsed.outline := by
    decide +kernel
  intro pair member
  obtain ⟨alike, different⟩ := shown pair member
  exact ⟨alike, fun same => different (congrArg Query.outline same)⟩

end Standard

end QueryForest
