import QueryForest.Compile.Standard
import QueryForest.Proofs.Compile.BottomUp

/-!
# What the standard builders accept

Every node of a built-in variant is built by a builder that looks at nothing
but the node, its children and, in phrases, their terms.  So what a node is
refused for can be read off the branch, and a tree compiles exactly when no
node below has a fault; else the fault of the first such node in post-order is
the error.
-/

namespace QueryForest

/-- A builder does not accept its node, though everything below it is built. -/
def CompileError.IsRefusal (error : CompileError) : Prop :=
  ∃ variant diagnostic, error = .build variant diagnostic ∧
    diagnostic.code ≠ .missingArtifact

namespace Branch

/-- A term as it is or in quotes, which is all that phrases are made of. -/
def IsWord (branch : Branch) : Prop :=
  ∃ term, branch.kind = .leaf (.field term) ∨ branch.kind = .leaf (.quotedField term)

/-- The positions of the children that have terms, in their order. -/
def positions (children : List Branch) : List UInt32 :=
  (children.filterMap term?).map Term.position

/-- What the standard compiler asks of a node: a wrapper has a child, a junction
not too many, and a phrase only words, whose positions do not decrease unless
they are grouped. -/
@[mk_iff]
structure IsAcceptable (options : CompileOptions) (branch : Branch) : Prop where
  filled : ∀ around, branch.kind = .wrapper around → branch.children ≠ []
  few : ∀ operator, branch.kind = .composite (.junction operator) →
    branch.children.length ≤ options.maxClauses
  words : branch.kind = .composite .tokenizedPhrase ∨ branch.kind = .composite .multiPhrase →
    ∀ child ∈ branch.children, child.IsWord
  ordered : branch.kind = .composite .tokenizedPhrase →
    (positions branch.children).IsChain (· ≤ ·)

def partFault? (phrase child : Branch) : Option CompileError :=
  match child.kind with
  | .leaf (.field _) | .leaf (.quotedField _) => none
  | .leaf (.fuzzy _ _ _) => some (.unexpectedArtifact phrase.variant "term" "fuzzy")
  | _ => some (.unexpectedNode phrase.variant child)

def orderFault? (phrase : Branch) (last : Option UInt32) (child : Branch) :
    Option CompileError :=
  match child.term?, last with
  | some term, some position =>
      if term.position < position then
        some (.positionsOutOfOrder phrase term.position position)
      else
        none
  | _, _ => none

def rowFault? (phrase : Branch) (last : Option UInt32) : List Branch → Option CompileError
  | [] => none
  | child :: others =>
      (orderFault? phrase last child).or
        ((partFault? phrase child).or
          (rowFault? phrase (child.term?.map Term.position) others))

/-- Why the standard compiler refuses a node whose children are built. -/
def fault? (options : CompileOptions) (branch : Branch) : Option CompileError :=
  match branch.kind with
  | .wrapper _ => if branch.children = [] then some (.missingChild branch) else none
  | .composite (.junction _) =>
      if options.maxClauses < branch.children.length then
        some (.tooManyClauses options.maxClauses branch)
      else
        none
  | .composite .tokenizedPhrase => rowFault? branch none branch.children
  | .composite .multiPhrase => branch.children.findSome? (partFault? branch)
  | .composite (.proximity _) | .leaf _ | .extension _ => none

theorem partFault?_eq_none {phrase child : Branch} :
    phrase.partFault? child = none ↔ child.IsWord := by
  rcases child with ⟨id, kind, enclosing, children⟩
  unfold partFault? IsWord
  cases kind with
  | leaf bottom => cases bottom <;> simp [Branch.kind]
  | wrapper _ | composite _ | extension _ => simp [Branch.kind]

theorem IsWord.exists_term {branch : Branch} (word : branch.IsWord) :
    ∃ term, branch.term? = some term := by
  obtain ⟨term, plain | quoted⟩ := word
  · exact ⟨term, by rw [term?, plain]; rfl⟩
  · exact ⟨term, by rw [term?, quoted]; rfl⟩

theorem orderFault?_eq_none {phrase child : Branch} {last : Option UInt32} {term : Term}
    (termed : child.term? = some term) :
    phrase.orderFault? last child = none ↔ ∀ position, last = some position →
      position ≤ term.position := by
  unfold orderFault?
  rw [termed]
  cases last with
  | none => simp
  | some position =>
      by_cases down : term.position < position
      · simp [down]
      · simp [down, UInt32.not_lt.mp down]

/-- A row has no fault when it is made of words whose positions go on from the
last one. -/
theorem rowFault?_eq_none {phrase : Branch} {children : List Branch} {last : Option UInt32} :
    phrase.rowFault? last children = none ↔
      (∀ child ∈ children, child.IsWord) ∧
        (last.toList ++ positions children).IsChain (· ≤ ·) := by
  induction children generalizing last with
  | nil =>
      refine iff_of_true rfl ⟨by simp, ?_⟩
      cases last <;> simp [positions]
  | cons child others inductionHypothesis =>
      rw [rowFault?, Option.or_eq_none_iff, Option.or_eq_none_iff, partFault?_eq_none,
        inductionHypothesis, List.forall_mem_cons]
      by_cases word : child.IsWord
      · obtain ⟨term, termed⟩ := word.exists_term
        have row : positions (child :: others) = term.position :: positions others := by
          rw [positions, List.filterMap_cons_some termed, List.map_cons]
          rfl
        rw [orderFault?_eq_none termed, row, termed]
        cases last with
        | none => simp [word]
        | some position => simp [word, List.isChain_cons_cons]; tauto
      · simp [word]

/-- A node has no fault exactly when it is as the standard compiler asks. -/
theorem fault?_eq_none {options : CompileOptions} {branch : Branch} :
    branch.fault? options = none ↔ branch.IsAcceptable options := by
  rcases branch with ⟨id, kind, enclosing, children⟩
  rw [isAcceptable_iff]
  cases kind with
  | leaf _ | extension _ => simp [fault?, Branch.kind]
  | wrapper _ =>
      by_cases empty : children = []
      · simp [fault?, Branch.kind, Branch.children, empty]
      · simp [fault?, Branch.kind, Branch.children, empty]
  | composite above =>
      cases above with
      | junction _ =>
          by_cases many : options.maxClauses < children.length
          · simp [fault?, Branch.kind, Branch.children, many]
          · simp [fault?, Branch.kind, Branch.children, many, Nat.not_lt.mp many]
      | tokenizedPhrase => simp [fault?, Branch.kind, Branch.children, rowFault?_eq_none]
      | multiPhrase =>
          simp [fault?, Branch.kind, Branch.children, List.findSome?_eq_none_iff,
            partFault?_eq_none]
      | proximity _ => simp [fault?, Branch.kind]

theorem isRefusal_of_partFault? {phrase child : Branch} {error : CompileError}
    (fault : phrase.partFault? child = some error) : error.IsRefusal := by
  unfold partFault? at fault
  split at fault
  · cases fault
  · cases fault
  · cases fault
    exact ⟨_, _, rfl, nofun⟩
  · cases fault
    exact ⟨_, _, rfl, nofun⟩

theorem isRefusal_of_orderFault? {phrase child : Branch} {last : Option UInt32}
    {error : CompileError} (fault : phrase.orderFault? last child = some error) :
    error.IsRefusal := by
  unfold orderFault? at fault
  split at fault
  · split at fault
    · cases fault
      exact ⟨_, _, rfl, nofun⟩
    · cases fault
  · cases fault

theorem isRefusal_of_rowFault? {phrase : Branch} {children : List Branch}
    {last : Option UInt32} {error : CompileError}
    (fault : phrase.rowFault? last children = some error) : error.IsRefusal := by
  induction children generalizing last with
  | nil => cases fault
  | cons child others inductionHypothesis =>
      rw [rowFault?, Option.or_eq_some_iff, Option.or_eq_some_iff] at fault
      rcases fault with order | ⟨_, part | ⟨_, later⟩⟩
      · exact isRefusal_of_orderFault? order
      · exact isRefusal_of_partFault? part
      · exact inductionHypothesis later

/-- The faults of nodes are errors of their builders, and none of them speaks of
a missing artifact. -/
theorem isRefusal_of_fault? {options : CompileOptions} {branch : Branch}
    {error : CompileError} (fault : branch.fault? options = some error) : error.IsRefusal := by
  unfold fault? at fault
  split at fault
  · split at fault
    · cases fault
      exact ⟨_, _, rfl, nofun⟩
    · cases fault
  · split at fault
    · cases fault
      exact ⟨_, _, rfl, nofun⟩
    · cases fault
  · exact isRefusal_of_rowFault? fault
  · obtain ⟨child, _, found⟩ := List.exists_of_findSome?_eq_some fault
    exact isRefusal_of_partFault? found
  · cases fault
  · cases fault
  · cases fault

end Branch

/-- A build fails with a fault, or makes something when there is none. -/
def Build.Follows {Result : Type} (build : Build Result) (fault : Option CompileError) : Prop :=
  match fault with
  | some error => build = .fail error
  | none => ∃ result, build = .ok result

namespace Build.Follows

variable {First Second : Type}

theorem ok (result : First) : Build.Follows (.ok result) none :=
  ⟨result, rfl⟩

/-- The first of two faults counts. -/
theorem bind {build : Build First} {next : First → Build Second}
    {fault later : Option CompileError} (follows : build.Follows fault)
    (nextFollows : ∀ result, build = .ok result → (next result).Follows later) :
    (build >>= next).Follows (fault.or later) := by
  cases fault with
  | some error =>
      show build >>= next = .fail error
      rw [show build = .fail error from follows]
      rfl
  | none =>
      obtain ⟨result, made⟩ := follows
      have rest := nextFollows result made
      rw [made]
      exact rest

theorem map {build : Build First} {fault : Option CompileError} (follows : build.Follows fault)
    (change : First → Second) :
    Build.Follows (do return change (← build)) fault := by
  have changed : Build.Follows (build >>= fun result => pure (change result)) (fault.or none) :=
    follows.bind fun result _ => ok (change result)
  rwa [Option.or_none] at changed

/-- Of the faults of items the first one counts. -/
theorem mapM {step : First → Build Second} {fault? : First → Option CompileError}
    {items : List First} (each : ∀ item ∈ items, (step item).Follows (fault? item)) :
    Build.Follows (items.mapM step) (items.findSome? fault?) := by
  induction items with
  | nil => exact ok []
  | cons head tail inductionHypothesis =>
      have rest := inductionHypothesis fun item member =>
        each item (List.mem_cons_of_mem head member)
      rw [List.mapM_cons, List.findSome?_cons]
      have both : Build.Follows (step head >>= fun first => do return first :: (← tail.mapM step))
          ((fault? head).or (tail.findSome? fault?)) :=
        (each head List.mem_cons_self).bind fun first _ => rest.map (first :: ·)
      cases found : fault? head with
      | none => rwa [found] at both
      | some error => rwa [found] at both

end Build.Follows

namespace Standard

/-! ## Each builder and its faults -/

/-- What is known of the artifact of a child from the child alone: words become
terms, and fuzzy terms become fuzzy queries. -/
def IsMadeTo (child : Branch) (query : Query) : Prop :=
  match child.kind with
  | .leaf (.field _) | .leaf (.quotedField _) => ∃ term, query = .term term
  | .leaf (.fuzzy _ _ _) => ∃ term edits exactStart, query = .fuzzy term edits exactStart
  | _ => True

variable {context : BuildContext Query}

/-- A phrase takes on the artifact of a child with a term unless the child is
at fault. -/
theorem termOf_follows (phrase : Branch) {child : Branch} {term : Term}
    (termed : child.term? = some term) {query : Query} (made : IsMadeTo child query) :
    (termOf phrase query).Follows (phrase.partFault? child) := by
  rcases child with ⟨id, kind, enclosing, children⟩
  cases kind with
  | leaf bottom =>
      cases bottom with
      | field _ | quotedField _ =>
          obtain ⟨built, rfl⟩ := made
          exact .ok built
      | fuzzy _ _ _ =>
          obtain ⟨built, edits, exactStart, rfl⟩ := made
          rfl
      | matchAll | matchNone => cases termed
  | wrapper _ | composite _ | extension _ => cases termed

/-- A child without a term is at fault in every phrase. -/
theorem partFault?_of_term?_eq_none (phrase : Branch) {child : Branch}
    (termless : child.term? = none) :
    phrase.partFault? child = some (.unexpectedNode phrase.variant child) := by
  rcases child with ⟨id, kind, enclosing, children⟩
  cases kind with
  | leaf bottom =>
      cases bottom with
      | field _ | quotedField _ | fuzzy _ _ _ => cases termless
      | matchAll | matchNone => rfl
  | wrapper _ | composite _ | extension _ => rfl

/-- A phrase with alternatives takes on a child unless the child is at fault. -/
theorem part_follows (phrase : Branch) {child : Branch} {query : Query}
    (found : context.artifact child = .ok query) (made : IsMadeTo child query) :
    Build.Follows (do
        let position ← positionOf phrase child
        return (position, ← termOf phrase (← context.artifact child)))
      (phrase.partFault? child) := by
  rw [positionOf, found]
  cases termed : child.term? with
  | none =>
      rw [partFault?_of_term?_eq_none phrase termed]
      rfl
  | some term => exact (termOf_follows phrase termed made).map (term.position, ·)

/-- The rows of phrases have the faults that can be read off the children. -/
theorem phraseTerms_follows (phrase : Branch) {children : List Branch}
    (each : ∀ child ∈ children, ∃ query, context.artifact child = .ok query ∧ IsMadeTo child query)
    (last : Option UInt32) :
    (phraseTerms context phrase last children).Follows (phrase.rowFault? last children) := by
  induction children generalizing last with
  | nil => exact .ok []
  | cons child others inductionHypothesis =>
      obtain ⟨query, found, made⟩ := each child List.mem_cons_self
      have rest := inductionHypothesis fun other member =>
        each other (List.mem_cons_of_mem child member)
      rw [phraseTerms, Branch.rowFault?, positionOf]
      cases termed : child.term? with
      | none =>
          rw [partFault?_of_term?_eq_none phrase termed]
          have noOrder : phrase.orderFault? last child = none := by
            unfold Branch.orderFault?
            rw [termed]
          rw [noOrder]
          rfl
      | some term =>
          rw [Option.map_some]
          have part : Build.Follows
              (termOf phrase query >>= fun built => do
                return (built, term.position)
                  :: (← phraseTerms context phrase (some term.position) others))
              ((phrase.partFault? child).or
                (phrase.rowFault? (some term.position) others)) :=
            (termOf_follows phrase termed made).bind fun built _ =>
              (rest (some term.position)).map ((built, term.position) :: ·)
          unfold Branch.orderFault?
          rw [termed, found]
          cases last with
          | none => exact part
          | some position =>
              show Build.Follows (if term.position < position then _ else _) _
              by_cases down : term.position < position
              · simp only [if_pos down]
                rfl
              · simp only [if_neg down]
                exact part

theorem builder?_eq (kind : Kind) :
    registry.builder? kind =
      (kind.variant :: kind.fallbacks).findSome? registry.variants.get? := by
  have fieldless : registry.fieldBuilder? kind = none := by
    unfold Registry.fieldBuilder?
    rcases kind.term? with _ | ⟨_ | _, _⟩ <;> rfl
  rw [Registry.builder?, fieldless]

/-- What is made of a child that is a leaf shows in its artifact. -/
theorem isMadeTo_of_builder {child : Branch} {builder : QueryBuilder} {query : Query}
    (found : registry.builder? child.kind = some builder)
    (made : builder child context = .ok query) : IsMadeTo child query := by
  rw [builder?_eq] at found
  rcases child with ⟨id, kind, enclosing, children⟩
  cases kind with
  | leaf bottom =>
      cases bottom with
      | field term =>
          cases found.symm.trans (show _ = some field from rfl)
          cases made
          exact ⟨_, rfl⟩
      | quotedField term =>
          cases found.symm.trans (show _ = some field from rfl)
          cases made
          exact ⟨_, rfl⟩
      | fuzzy term similarity exactStart =>
          cases found.symm.trans (show _ = some fuzzy from rfl)
          cases made
          exact ⟨_, _, _, rfl⟩
      | matchAll | matchNone => trivial
  | wrapper _ | composite _ | extension _ => trivial

theorem childArtifact_follows {branch : Branch}
    (each : ∀ child ∈ branch.children, ∃ query, context.artifact child = .ok query) :
    (context.childArtifact branch).Follows
      (if branch.children = [] then some (.missingChild branch) else none) := by
  unfold BuildContext.childArtifact
  cases listed : branch.children with
  | nil => rfl
  | cons child others => exact each child (listed ▸ List.mem_cons_self)

/-- The builder of a node of a built-in variant whose children are built fails
with the fault of the node or makes a query. -/
theorem builder_follows {branch : Branch} (builtIn : ∀ custom, branch.kind ≠ .extension custom)
    (each : ∀ child ∈ branch.children, ∃ query, context.artifact child = .ok query ∧
      IsMadeTo child query) :
    ∃ builder, registry.builder? branch.kind = some builder ∧
      (builder branch context).Follows (branch.fault? context.options) := by
  have made : ∀ child ∈ branch.children, ∃ query, context.artifact child = .ok query :=
    fun child member => (each child member).imp fun _ => And.left
  rw [builder?_eq]
  rcases branch with ⟨id, kind, enclosing, children⟩
  cases kind with
  | leaf bottom =>
      cases bottom with
      | field _ | quotedField _ => exact ⟨field, rfl, .ok _⟩
      | fuzzy _ _ _ => exact ⟨fuzzy, rfl, .ok _⟩
      | matchAll => exact ⟨matchAll, rfl, .ok _⟩
      | matchNone => exact ⟨matchNone, rfl, .ok _⟩
  | wrapper around =>
      have inside := childArtifact_follows made
      cases around with
      | group | modifier _ => exact ⟨transparent, rfl, inside⟩
      | boost factor => exact ⟨boost, rfl, inside.map fun query => Query.boost query factor⟩
      | slop value => exact ⟨slop, rfl, inside.map (withSlop value)⟩
  | composite above =>
      cases above with
      | junction operator =>
          refine ⟨boolean, by cases operator <;> rfl, ?_⟩
          show Build.Follows (if context.options.maxClauses < children.length then _ else _)
            (if context.options.maxClauses < children.length then _ else _)
          by_cases many : context.options.maxClauses < children.length
          · rw [if_pos many, if_pos many]
            rfl
          · rw [if_neg many, if_neg many]
            have clauses : Build.Follows (children.mapM fun child : Branch => do
                return (occurrenceOf (.composite (.junction operator)) child.kind,
                  ← context.artifact child)) none :=
              exists_mapM_eq_ok fun child member => by
                obtain ⟨query, found⟩ := made child member
                exact ⟨_, by rw [found]; rfl⟩
            exact clauses.map Query.boolean
      | tokenizedPhrase =>
          exact ⟨tokenizedPhrase, rfl,
            (phraseTerms_follows _ each none).map fun terms => Query.phrase terms 0⟩
      | multiPhrase =>
          refine ⟨multiPhrase, rfl, ?_⟩
          have terms := Build.Follows.mapM fun child member => by
            obtain ⟨query, found, known⟩ := each child member
            exact part_follows (.node id (.composite .multiPhrase) enclosing children) found known
          exact terms.map fun found => Query.multiPhrase ((groupByPosition found).map
            fun step => ⟨step.1, step.2⟩) 0
      | proximity near =>
          have clauses : Build.Follows (children.mapM context.artifact) none :=
            exists_mapM_eq_ok made
          exact ⟨proximity, rfl, clauses.map fun queries =>
            Query.near queries (nearnessOf near.reach) near.inOrder⟩
  | extension custom => exact absurd rfl (builtIn custom)

/-! ## Whole trees -/

section Trees

variable {options : CompileOptions} {forest : Forest}

/-- When everything before a branch in a post-order has been built, the builder
of the branch fails with its fault or makes a query. -/
theorem builder_follows_after {root branch : Branch} (builtIn : root.IsBuiltIn)
    (sound : forest.Sound) (mirrors : root.Mirrors forest) {before : List (Branch × Query)}
    {calls : List (BuildCall Query)} (built : (compiler options).Built forest before calls)
    {after : List Branch} (placed : root.postOrder = before.map Prod.fst ++ branch :: after) :
    ∃ builder, registry.builder? branch.kind = some builder ∧
      (builder branch ((compiler options).contextAfter forest before)).Follows
        (branch.fault? options) := by
  have within : branch ∈ root.postOrder := by
    rw [placed]
    exact List.mem_append_right _ List.mem_cons_self
  have nodup := mirrors.nodup_names sound
  rw [placed, List.map_append] at nodup
  refine @builder_follows ((compiler options).contextAfter forest before) branch
    (builtIn branch within) fun child member => ?_
  have early := root.mem_before_of_postOrder _ _ _ placed child member
  obtain ⟨⟨_, query⟩, entry, rfl⟩ := List.mem_map.mp early
  obtain ⟨first, second, split⟩ := List.append_of_mem entry
  obtain ⟨builder, found, made⟩ := built.made split
  exact ⟨query,
    (compiler options).artifact_contextAfter forest (List.nodup_append.mp nodup).1 entry,
    isMadeTo_of_builder found made⟩

/-- What has been built has no faults. -/
theorem isAcceptable_of_built {root : Branch} (builtIn : root.IsBuiltIn)
    (sound : forest.Sound) (mirrors : root.Mirrors forest) {done : List (Branch × Query)}
    {calls : List (BuildCall Query)} (built : (compiler options).Built forest done calls)
    {later : List Branch} (placed : root.postOrder = done.map Prod.fst ++ later) :
    ∀ part ∈ done.map Prod.fst, part.IsAcceptable options := by
  induction built generalizing later with
  | nil => exact fun part member => nomatch member
  | @concat done calls branch builder query built found made inductionHypothesis =>
      rw [List.map_append, List.append_assoc] at placed
      rw [List.map_append, List.forall_mem_append]
      refine ⟨inductionHypothesis placed, fun part member => ?_⟩
      obtain rfl := List.mem_singleton.mp member
      obtain ⟨standard, standardFound, follows⟩ :=
        builder_follows_after builtIn sound mirrors built placed
      cases found.symm.trans standardFound
      rw [← Branch.fault?_eq_none]
      cases fault : part.fault? options with
      | none => rfl
      | some error =>
          rw [fault] at follows
          exact nomatch made.symm.trans follows

/-- A tree of built-in variants compiles when every node below is acceptable;
else the builder of the first node that is not gives the fault of this node. -/
theorem compileNode_follows (sound : forest.Sound) {id : NodeId} {branch : Branch}
    (read : forest.branch id = .ok branch) (builtIn : branch.IsBuiltIn) :
    ((∀ part ∈ branch.postOrder, part.IsAcceptable options) ∧
      ∃ query, (compiler options).compileNode forest id = .ok query) ∨
    ∃ before part after error, branch.postOrder = before ++ part :: after ∧
      (∀ earlier ∈ before, earlier.IsAcceptable options) ∧
      ¬ part.IsAcceptable options ∧ part.fault? options = some error ∧
      (∃ builder context, registry.builder? part.kind = some builder ∧
        builder part context = .fail error) ∧
      (compiler options).compileNode forest id = .fail error := by
  have mirrors := (Forest.mirrors_of_branchWithin read).2
  have ends := (compiler options).ends_artifacts read
  generalize ordered : branch.postOrder = branches at ends
  generalize (Compiler.observe ((compiler options).notedArtifacts forest id) []).2 = calls at ends
  generalize outcome : (compiler options).artifacts forest id = result at ends
  cases ends with
  | @built done calls built =>
      obtain ⟨query, _, compiled⟩ := (compiler options).exists_compileNode sound read outcome
      have placed : branch.postOrder = done.map Prod.fst ++ [] := by
        rw [List.append_nil, ordered]
      have acceptable := isAcceptable_of_built builtIn sound mirrors built placed
      exact .inl ⟨acceptable, query, compiled⟩
  | @unregistered done calls part later built missing =>
      obtain ⟨builder, found, _⟩ := builder_follows_after builtIn sound mirrors built ordered
      exact nomatch missing.symm.trans found
  | @refused done calls part later builder halt built found failed =>
      obtain ⟨standard, standardFound, follows⟩ :=
        builder_follows_after builtIn sound mirrors built ordered
      cases found.symm.trans standardFound
      cases fault : part.fault? options with
      | none =>
          rw [fault] at follows
          obtain ⟨query, made⟩ := follows
          exact nomatch made.symm.trans failed
      | some error =>
          rw [fault] at follows
          cases failed.symm.trans follows
          refine .inr ⟨done.map Prod.fst, part, later, error, rfl, ?_, ?_, fault, ?_, ?_⟩
          · exact isAcceptable_of_built builtIn sound mirrors built ordered
          · rw [← Branch.fault?_eq_none, fault]
            exact nofun
          · exact ⟨builder, _, found, follows⟩
          · exact Compiler.compileNode_eq_error read outcome

/-- A node of a sound forest with nothing but built-in variants below compiles
exactly when every node below is acceptable.  Else the error is a refusal of the
first node in post-order that is not, and it comes from the builder of this
node.  Compiling from the root adds nothing but the error that there is none. -/
theorem compiles_iff (options : CompileOptions) {forest : Forest} (sound : forest.Sound)
    {id : NodeId} (inside : id < forest.size) :
    (forest.root = none → (compiler options).compile forest = .fail .noRoot) ∧
    ∃ branch, forest.branch id = .ok branch ∧ (branch.IsBuiltIn →
      ((∃ query, (compiler options).compileNode forest id = .ok query) ↔
        ∀ part ∈ branch.postOrder, part.IsAcceptable options) ∧
      (∀ halt, (compiler options).compileNode forest id = .error halt →
        ∃ before part after error, branch.postOrder = before ++ part :: after ∧
          (∀ earlier ∈ before, earlier.IsAcceptable options) ∧
          ¬ part.IsAcceptable options ∧ part.fault? options = some error ∧
          (∃ builder context, registry.builder? part.kind = some builder ∧
            builder part context = .fail error) ∧
          error.IsRefusal ∧ halt = .error error) ∧
      (forest.root = some id →
        (compiler options).compile forest = (compiler options).compileNode forest id ∧
        (compiler options).compile forest ≠ .fail .noRoot)) := by
  refine ⟨fun rootless => by rw [Compiler.compile, rootless], ?_⟩
  obtain ⟨branch, read, _, _⟩ := sound.exists_branch inside
  refine ⟨branch, read, fun builtIn => ?_⟩
  have outcome := @compileNode_follows options forest sound id branch read builtIn
  refine ⟨⟨?_, ?_⟩, ?_, ?_⟩
  · rintro ⟨query, compiled⟩
    rcases outcome with ⟨acceptable, _⟩ | ⟨_, _, _, _, _, _, _, _, _, failed⟩
    · exact acceptable
    · exact nomatch compiled.symm.trans failed
  · intro acceptable
    rcases outcome with ⟨_, compiles⟩ | ⟨before, part, after, _, split, _, fault, _⟩
    · exact compiles
    · refine absurd (acceptable part ?_) fault
      rw [split]
      exact List.mem_append_right _ List.mem_cons_self
  · intro halt failed
    rcases outcome with ⟨_, query, compiled⟩ |
      ⟨before, part, after, error, split, earlier, refused, fault, raised, compiled⟩
    · exact nomatch compiled.symm.trans failed
    · exact ⟨before, part, after, error, split, earlier, refused, fault, raised,
        Branch.isRefusal_of_fault? fault, Except.error.inj (failed.symm.trans compiled)⟩
  · intro rooted
    have same : (compiler options).compile forest = (compiler options).compileNode forest id := by
      rw [Compiler.compile, rooted]
    refine ⟨same, ?_⟩
    rw [same]
    intro noRoot
    rcases outcome with ⟨_, query, compiled⟩ | ⟨_, _, _, error, _, _, _, fault, _, compiled⟩
    · exact nomatch compiled.symm.trans noRoot
    · cases compiled.symm.trans noRoot
      obtain ⟨variant, diagnostic, absurdity, _⟩ := Branch.isRefusal_of_fault? fault
      exact nomatch absurdity

/-- A phrase whose second word stands before its first one, in a group that has
no other fault. -/
def disorderedForest : Forest :=
  Operation.runAll .empty
    [.add (.leaf (.field { text := "quick", position := 2 })),
      .add (.leaf (.quotedField { text := "fox", position := 1 })),
      .addWithChildren (.composite .tokenizedPhrase) [0, 1],
      .addWithChildren (.wrapper .group) [2], .setRoot 3]

def disorderedPhrase : Branch :=
  .node 2 (.composite .tokenizedPhrase) (some (.wrapper .group))
    [.node 0 (.leaf (.field { text := "quick", position := 2 }))
        (some (.composite .tokenizedPhrase)) [],
      .node 1 (.leaf (.quotedField { text := "fox", position := 1 }))
        (some (.composite .tokenizedPhrase)) []]

theorem compiles_iff_disordered :
    disorderedForest.Sound ∧ 3 < disorderedForest.size ∧
      (compiler).compile disorderedForest = .fail (.positionsOutOfOrder disorderedPhrase 1 2) ∧
      ∃ branch, disorderedForest.branch 3 = .ok branch ∧ disorderedPhrase ∈ branch.postOrder ∧
        branch.IsBuiltIn ∧ ¬ ∀ part ∈ branch.postOrder, part.IsAcceptable {} := by
  have sound : disorderedForest.Sound := Operation.sound_runAll Forest.sound_empty _
  have inside : 3 < disorderedForest.size := by decide
  have failed : (compiler).compile disorderedForest =
      .fail (.positionsOutOfOrder disorderedPhrase 1 2) := rfl
  obtain ⟨_, branch, read, criterion⟩ := compiles_iff {} sound inside
  have shown : branch = .node 3 (.wrapper .group) none [disorderedPhrase] := by
    cases read
    rfl
  have builtIn : branch.IsBuiltIn := by
    rw [shown]
    intro part member custom
    simp only [disorderedPhrase, Branch.postOrder, Branch.postOrderOfAll, List.nil_append,
      List.append_nil, List.cons_append, List.mem_cons, List.not_mem_nil, or_false] at member
    rcases member with rfl | rfl | rfl | rfl <;> exact nofun
  obtain ⟨compiles, _, whole⟩ := criterion builtIn
  refine ⟨sound, inside, failed, branch, read, ?_, builtIn, ?_⟩
  · rw [shown]
    exact Branch.mem_postOrder_of_mem_children List.mem_cons_self
  · rw [← compiles, ← (whole rfl).1, failed]
    exact fun ⟨_, compiled⟩ => nomatch compiled

end Trees

end Standard

end QueryForest
