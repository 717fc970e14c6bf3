import QueryForest.Proofs.Compile.Criterion

/-!
# What trees compile to

What the standard compiler makes of an acceptable tree is a plain recursion on
its branch: the query of a node is made of those of its children.
-/

namespace QueryForest

namespace Standard

def leafQuery (options : CompileOptions) : Leaf Similarity → Query
  | .field term | .quotedField term => .term (fieldTerm options term)
  | .fuzzy term similarity exactStart =>
      .fuzzy (fieldTerm options term)
        (UInt32.ofNat (editsAllowed similarity.value term.text.length)) exactStart
  | .matchAll => .matchAll
  | .matchNone => .matchNone

def wrapped : Wrapper → Query → Query
  | .group, query | .modifier _, query => query
  | .boost factor, query => .boost query factor
  | .slop value, query => withSlop value query

def phraseSteps (options : CompileOptions) (terms : List Term) : List PhraseStep :=
  (groupByPosition (terms.map fun term => (term.position, fieldTerm options term))).map
    fun (position, alternatives) => ⟨position, alternatives⟩

def compositeQuery (options : CompileOptions) (above : Composite Proximity)
    (children : List Branch) (queries : List Query) : Query :=
  match above with
  | .junction _ =>
      .boolean (children.zipWith
        (fun child query => (occurrenceOf (.composite above) child.kind, query)) queries)
  | .tokenizedPhrase =>
      .phrase ((Branch.terms children).map fun term =>
        (fieldTerm options term, term.position)) 0
  | .multiPhrase => .multiPhrase (phraseSteps options (Branch.terms children)) 0
  | .proximity near => .near queries (nearnessOf near.reach) near.inOrder

mutual

/-- What the standard compiler makes of an acceptable branch. -/
def queryOf (options : CompileOptions) : Branch → Query
  | .node _ kind _ children =>
      match kind with
      | .leaf bottom => leafQuery options bottom
      | .wrapper around =>
          match queriesOf options children with
          | query :: _ => wrapped around query
          | [] => .matchNone
      | .composite above => compositeQuery options above children (queriesOf options children)
      | .extension _ => .matchNone
termination_by structural branch => branch

def queriesOf (options : CompileOptions) : List Branch → List Query
  | [] => []
  | head :: tail => queryOf options head :: queriesOf options tail
termination_by structural branches => branches

end

theorem queriesOf_eq_map (options : CompileOptions) (branches : List Branch) :
    queriesOf options branches = branches.map (queryOf options) := by
  induction branches with
  | nil => rfl
  | cons head tail inductionHypothesis => rw [queriesOf, inductionHypothesis, List.map_cons]

theorem queryOf_wrapper (options : CompileOptions) (id : NodeId) (around : Wrapper)
    (enclosing : Option Kind) (child : Branch) (others : List Branch) :
    queryOf options (.node id (.wrapper around) enclosing (child :: others)) =
      wrapped around (queryOf options child) := by
  rw [queryOf, queriesOf]

theorem queryOf_junction (options : CompileOptions) (id : NodeId) (operator : Operator)
    (enclosing : Option Kind) (children : List Branch) :
    queryOf options (.node id (.composite (.junction operator)) enclosing children) =
      .boolean (children.map fun child =>
        (occurrenceOf (.composite (.junction operator)) child.kind, queryOf options child)) := by
  rw [queryOf, compositeQuery, queriesOf_eq_map, List.zipWith_map_right, List.zipWith_self]

variable {options : CompileOptions} {context : BuildContext Query}

theorem termOf_queryOf (options : CompileOptions) (phrase : Branch) {child : Branch}
    (word : child.IsWord) :
    ∃ term, child.term? = some term ∧
      termOf phrase (queryOf options child) = .ok (fieldTerm options term) := by
  rcases child with ⟨id, kind, enclosing, children⟩
  obtain ⟨term, plain | quoted⟩ := word
  · cases plain
    exact ⟨term, rfl, rfl⟩
  · cases quoted
    exact ⟨term, rfl, rfl⟩

/-- A row of words whose positions go on from the last one makes their terms. -/
theorem phraseTerms_eq_ok {phrase : Branch} {children : List Branch} {last : Option UInt32}
    (words : ∀ child ∈ children, child.IsWord)
    (ordered : (last.toList ++ Branch.positions children).IsChain (· ≤ ·))
    (each : ∀ child ∈ children, context.artifact child = .ok (queryOf options child)) :
    phraseTerms context phrase last children =
      .ok ((Branch.terms children).map fun term => (fieldTerm options term, term.position)) := by
  induction children generalizing last with
  | nil => rfl
  | cons child others inductionHypothesis =>
      obtain ⟨term, termed, taken⟩ :=
        termOf_queryOf options phrase (words child List.mem_cons_self)
      have row : Branch.positions (child :: others) =
          term.position :: Branch.positions others := by
        rw [Branch.positions, List.filterMap_cons_some termed, List.map_cons]
        rfl
      have terms : Branch.terms (child :: others) = term :: Branch.terms others :=
        List.filterMap_cons_some termed
      rw [row] at ordered
      -- The next word is compared with this one, so the chain goes on from its position.
      have onward : ((some term.position).toList ++ Branch.positions others).IsChain (· ≤ ·) := by
        cases last with
        | none => exact ordered
        | some position => exact (List.isChain_cons_cons.mp ordered).2
      have rest := inductionHypothesis
        (fun other member => words other (List.mem_cons_of_mem child member)) onward
        (fun other member => each other (List.mem_cons_of_mem child member))
      rw [phraseTerms, positionOf, termed, each child List.mem_cons_self, terms]
      cases last with
      | none =>
          show (do
            let built ← termOf phrase (queryOf options child)
            return (built, term.position)
              :: (← phraseTerms context phrase (some term.position) others)) = _
          rw [taken, rest]
          rfl
      | some position =>
          have forward : ¬ term.position < position :=
            UInt32.not_lt.mpr (List.isChain_cons_cons.mp ordered).1
          show (if term.position < position then _ else do
            let built ← termOf phrase (queryOf options child)
            return (built, term.position)
              :: (← phraseTerms context phrase (some term.position) others)) = _
          rw [if_neg forward, taken, rest]
          rfl

/-- Words with their positions make their terms. -/
theorem partTerms_eq_ok {phrase : Branch} {children : List Branch}
    (words : ∀ child ∈ children, child.IsWord)
    (each : ∀ child ∈ children, context.artifact child = .ok (queryOf options child)) :
    (children.mapM fun child => do
        let position ← positionOf phrase child
        return (position, ← termOf phrase (← context.artifact child))) =
      .ok ((Branch.terms children).map fun term => (term.position, fieldTerm options term)) := by
  induction children with
  | nil => rfl
  | cons child others inductionHypothesis =>
      obtain ⟨term, termed, taken⟩ :=
        termOf_queryOf options phrase (words child List.mem_cons_self)
      have rest := inductionHypothesis
        (fun other member => words other (List.mem_cons_of_mem child member))
        (fun other member => each other (List.mem_cons_of_mem child member))
      have terms : Branch.terms (child :: others) = term :: Branch.terms others :=
        List.filterMap_cons_some termed
      rw [List.mapM_cons, rest, positionOf, termed, each child List.mem_cons_self, terms]
      show (do
        let built ← (do return (term.position, ← termOf phrase (queryOf options child)))
        return built :: (← _)) = _
      rw [taken]
      rfl

/-- The builder of an acceptable composite makes its query. -/
theorem builder_eq_ok_of_composite {id : NodeId} {above : Composite Proximity}
    {enclosing : Option Kind} {children : List Branch}
    (acceptable :
      (Branch.node id (.composite above) enclosing children).IsAcceptable context.options)
    (each : ∀ child ∈ children,
      context.artifact child = .ok (queryOf context.options child)) :
    ∃ builder, registry.builder? (.composite above) = some builder ∧
      builder (.node id (.composite above) enclosing children) context =
        .ok (queryOf context.options (.node id (.composite above) enclosing children)) := by
  rw [builder?_eq]
  cases above with
  | junction operator =>
      refine ⟨boolean, by cases operator <;> rfl, ?_⟩
      have few : ¬ context.options.maxClauses < children.length :=
        Nat.not_lt.mpr (acceptable.few operator rfl)
      have clauses : children.mapM (fun child : Branch => do
            return (occurrenceOf (.composite (.junction operator)) child.kind,
              ← context.artifact child)) =
          (.ok (children.map fun child =>
            (occurrenceOf (.composite (.junction operator)) child.kind,
              queryOf context.options child)) : Build _) :=
        mapM_eq_map fun child member => by
          rw [each child member]
          rfl
      show (if context.options.maxClauses < children.length then _ else _) = _
      rw [if_neg few]
      refine (congrArg (fun made => made >>= (pure ∘ Query.boolean)) clauses).trans ?_
      rw [queryOf_junction]
      rfl
  | tokenizedPhrase =>
      refine ⟨tokenizedPhrase, rfl, ?_⟩
      show (do return Query.phrase (← phraseTerms context _ none children) 0) = _
      have terms := @phraseTerms_eq_ok context.options context
        (.node id (.composite .tokenizedPhrase) enclosing children) children none
        (acceptable.words (.inl rfl)) (acceptable.ordered rfl) each
      rw [terms]
      rfl
  | multiPhrase =>
      refine ⟨multiPhrase, rfl, ?_⟩
      have terms := @partTerms_eq_ok context.options context
        (.node id (.composite .multiPhrase) enclosing children) children
        (acceptable.words (.inr rfl)) each
      exact congrArg (fun made => made >>= fun found => pure (Query.multiPhrase
        ((groupByPosition found).map fun (position, alternatives) =>
          ⟨position, alternatives⟩) 0)) terms
  | proximity near =>
      refine ⟨proximity, rfl, ?_⟩
      show (do return Query.near (← children.mapM context.artifact) _ _) = _
      have found : children.mapM context.artifact =
          (.ok (children.map (queryOf context.options)) : Build _) := mapM_eq_map each
      rw [found, ← queriesOf_eq_map]
      rfl

/-- The builder of an acceptable node of a built-in variant makes its query. -/
theorem builder_eq_ok {branch : Branch} (builtIn : ∀ custom, branch.kind ≠ .extension custom)
    (acceptable : branch.IsAcceptable context.options)
    (each : ∀ child ∈ branch.children,
      context.artifact child = .ok (queryOf context.options child)) :
    ∃ builder, registry.builder? branch.kind = some builder ∧
      builder branch context = .ok (queryOf context.options branch) := by
  rcases branch with ⟨id, kind, enclosing, children⟩
  change ∀ child ∈ children, context.artifact child = .ok (queryOf context.options child) at each
  cases kind with
  | leaf bottom =>
      rw [builder?_eq]
      cases bottom with
      | field _ | quotedField _ => exact ⟨field, rfl, rfl⟩
      | fuzzy _ _ _ => exact ⟨fuzzy, rfl, rfl⟩
      | matchAll => exact ⟨matchAll, rfl, rfl⟩
      | matchNone => exact ⟨matchNone, rfl, rfl⟩
  | wrapper around =>
      rw [builder?_eq]
      cases children with
      | nil => exact absurd rfl (acceptable.filled around rfl)
      | cons child others =>
          have inside : context.childArtifact (.node id (.wrapper around) enclosing
              (child :: others)) = .ok (queryOf context.options child) :=
            each child List.mem_cons_self
          cases around with
          | group | modifier _ => exact ⟨transparent, rfl, inside⟩
          | boost factor =>
              refine ⟨boost, rfl, ?_⟩
              show (do return Query.boost (← context.childArtifact _) factor) = _
              rw [inside]
              rfl
          | slop value =>
              refine ⟨slop, rfl, ?_⟩
              show (do return withSlop value (← context.childArtifact _)) = _
              rw [inside]
              rfl
  | composite above => exact builder_eq_ok_of_composite acceptable each
  | extension custom => exact absurd rfl (builtIn custom)

section Trees

variable {forest : Forest}

/-- What has been built are the queries of the branches. -/
theorem queryOf_of_built {root : Branch} (builtIn : root.IsBuiltIn) (sound : forest.Sound)
    (mirrors : root.Mirrors forest) {done : List (Branch × Query)}
    {calls : List (BuildCall Query)} (built : (compiler options).Built forest done calls)
    {later : List Branch} (placed : root.postOrder = done.map Prod.fst ++ later) :
    ∀ part query, (part, query) ∈ done → query = queryOf options part := by
  induction built generalizing later with
  | nil => exact fun _ _ member => nomatch member
  | @concat done calls branch builder query built found made inductionHypothesis =>
      have acceptable := isAcceptable_of_built builtIn sound mirrors (.concat built found made)
        placed branch (by simp)
      rw [List.map_append, List.append_assoc] at placed
      have earlier := inductionHypothesis placed
      have within : branch ∈ root.postOrder := by
        rw [placed]
        exact List.mem_append_right _ List.mem_cons_self
      have nodup := mirrors.nodup_names sound
      rw [placed, List.map_append] at nodup
      obtain ⟨standard, standardFound, standardMade⟩ := @builder_eq_ok
        ((compiler options).contextAfter forest done) branch (builtIn branch within)
        acceptable fun child member => by
          have early := root.mem_before_of_postOrder _ _ _ placed child member
          obtain ⟨⟨_, childQuery⟩, entry, rfl⟩ := List.mem_map.mp early
          rw [(compiler options).artifact_contextAfter forest (List.nodup_append.mp nodup).1 entry,
            earlier _ _ entry]
          rfl
      intro part partQuery member
      rcases List.mem_append.mp member with early | last
      · exact earlier part partQuery early
      · cases List.mem_singleton.mp last
        cases found.symm.trans standardFound
        exact Except.ok.inj (made.symm.trans standardMade)

/-- When a node with nothing but built-in variants below compiles, everything
below is acceptable and the query of its branch is what it compiles to. -/
theorem eq_queryOf_of_compileNode (sound : forest.Sound) {id : NodeId} {branch : Branch}
    (read : forest.branch id = .ok branch) (builtIn : branch.IsBuiltIn) {query : Query}
    (compiled : (compiler options).compileNode forest id = .ok query) :
    (∀ part ∈ branch.postOrder, part.IsAcceptable options) ∧ query = queryOf options branch := by
  obtain ⟨rfl, mirrors⟩ := Forest.mirrors_of_branchWithin read
  have ends := (compiler options).ends_artifacts read
  generalize ordered : branch.postOrder = branches at ends
  generalize (Compiler.observe ((compiler options).notedArtifacts forest branch.id) []).2 =
    calls at ends
  generalize outcome : (compiler options).artifacts forest branch.id = result at ends
  cases result with
  | error halt =>
      exact nomatch compiled.symm.trans (Compiler.compileNode_eq_error read outcome)
  | ok artifacts =>
      cases ends with
      | @built done calls built =>
          have placed : branch.postOrder = done.map Prod.fst ++ [] := by
            rw [List.append_nil, ordered]
          have acceptable := isAcceptable_of_built builtIn sound mirrors built placed
          refine ⟨acceptable, ?_⟩
          have last : branch ∈ done.map Prod.fst := ordered ▸ branch.self_mem_postOrder
          have nodup := mirrors.nodup_names sound
          rw [ordered] at nodup
          obtain ⟨⟨_, made⟩, entry, rfl⟩ := List.mem_map.mp last
          have found := Compiler.compileNode_eq_ok read outcome (artifactsOf_get? nodup entry)
          rw [Except.ok.inj (compiled.symm.trans found)]
          exact queryOf_of_built builtIn sound mirrors built placed _ _ entry

/-- A node with nothing but built-in variants below compiles exactly when everything
below is acceptable, and then to the query of its branch. -/
theorem compileNode_eq_ok_iff_queryOf (sound : forest.Sound) {id : NodeId} {branch : Branch}
    (read : forest.branch id = .ok branch) (builtIn : branch.IsBuiltIn) {query : Query} :
    (compiler options).compileNode forest id = .ok query ↔
      (∀ part ∈ branch.postOrder, part.IsAcceptable options) ∧
        query = queryOf options branch := by
  refine ⟨eq_queryOf_of_compileNode sound read builtIn, ?_⟩
  rintro ⟨acceptable, rfl⟩
  rcases @compileNode_follows options _ sound _ _ read builtIn with
    ⟨_, made, compiled⟩ | ⟨_, part, _, _, split, _, fault, _⟩
  · rw [compiled, (eq_queryOf_of_compileNode sound read builtIn compiled).2]
  · refine absurd (acceptable part ?_) fault
    rw [split]
    exact List.mem_append_right _ List.mem_cons_self

end Trees

end Standard

end QueryForest
