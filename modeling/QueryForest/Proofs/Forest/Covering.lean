import QueryForest.Compile.Standard
import QueryForest.Proofs.Forest.Lending

/-!
# Fields that nobody writes

A term that leaves its field to an enclosing node is covered when it is below a
proximity node of that field, which writes it.  In a history without writes all
such terms stay covered exactly until an operation strands one: takes it away from
its proximity node without putting it below another one, or copies it alone.
-/

namespace QueryForest

namespace Forest

variable {forest : Forest} {id : NodeId}

/-- A term that leaves its field to an enclosing node has a proximity node of that
field as its parent. -/
def Covered (forest : Forest) (id : NodeId) : Prop :=
  ∀ term, forest.termOf id = some term → term.ignoreField = true →
    ∃ near, forest.lenderOf id = some near ∧ near.field = term.field

/-- A term that is in step is covered if it has a proximity node as its parent at
all. -/
theorem InStep.covered_iff (inStep : forest.InStep id) :
    forest.Covered id ↔ ∀ term, forest.termOf id = some term → term.ignoreField = true →
      forest.lenderOf id ≠ none := by
  constructor
  · intro covered term termed leaves alone
    obtain ⟨near, lent, _⟩ := covered term termed leaves
    rw [alone] at lent
    cases lent
  · intro lent term termed leaves
    obtain ⟨near, found⟩ := Option.ne_none_iff_exists'.mp (lent term termed leaves)
    exact ⟨near, found, (inStep near term found termed).1.symm⟩

def IsLent (forest : Forest) (id : NodeId) : Prop :=
  forest.termOf id ≠ none ∧ forest.lenderOf id ≠ none

theorem IsLent.lt_size (lent : forest.IsLent id) : id < forest.size := by
  obtain ⟨near, found⟩ := Option.ne_none_iff_exists'.mp lent.2
  obtain ⟨parent, linked, _⟩ := Option.bind_eq_some_iff.mp found
  exact lt_size_of_parentOf linked

theorem InStep.exists_term (inStep : forest.InStep id) (lent : forest.IsLent id) :
    ∃ term, forest.termOf id = some term ∧ term.ignoreField = true := by
  obtain ⟨term, termed⟩ := Option.ne_none_iff_exists'.mp lent.1
  obtain ⟨near, found⟩ := Option.ne_none_iff_exists'.mp lent.2
  exact ⟨term, termed, (inStep near term found termed).2⟩

/-- Who is not below a proximity node after a move has the same term as before. -/
theorem Gathers.termOf_of_lenderOf_none {after : Forest} {parent : NodeId}
    {freed moved : List NodeId} (gathers : forest.Gathers after parent freed moved)
    (alone : after.lenderOf id = none) : after.termOf id = forest.termOf id := by
  by_cases isMoved : id ∈ moved
  · rw [gathers.lenderOf, if_pos isMoved] at alone
    unfold termOf
    rw [gathers.kindOf, alone]
    simp only [isMoved, if_true, Kind.bound, Option.map_id']
  · exact gathers.termOf_of_not_mem isMoved

end Forest

namespace Operation

variable {forest : Forest} {operation : Operation} {id : NodeId}

/-- No node that an operation adds has a term that leaves its field to others. -/
def AddsPlain : Operation → Prop
  | .add kind | .addWithChildren kind _ =>
      ∀ term, kind.term? = some term → term.ignoreField = false
  | _ => True

/-- An operation strands a term: the term was below a proximity node and no longer
is, or it is copied without that node. -/
def Strands (forest : Forest) (operation : Operation) : Prop :=
  ∃ id, forest.IsLent id ∧
    ((operation.run forest).lenderOf id = none ∨ operation = .copyBranch id)

theorem lenderOf_base (sound : forest.Sound) (operation : Operation) (id : NodeId) :
    (operation.base forest).lenderOf id = forest.lenderOf id := by
  cases operation with
  | add _ | addWithChildren _ _ | addProximity _ _ => exact Forest.lenderOf_push sound _ id
  | addChild _ _ | setChildren _ _ | detach _ | setRoot _ | replace _ _ | bindFields _
    | modifyTerm _ _ | copyBranch _ => rfl

theorem termOf_base (operation : Operation) (inside : id < forest.size) :
    (operation.base forest).termOf id = forest.termOf id := by
  cases operation with
  | add _ | addWithChildren _ _ | addProximity _ _ =>
      exact congrArg (Option.bind · Kind.term?) (Forest.kindOf_push_of_lt inside)
  | addChild _ _ | setChildren _ _ | detach _ | setRoot _ | replace _ _ | bindFields _
    | modifyTerm _ _ | copyBranch _ => rfl

/-- A node that an operation adds has no term to be covered. -/
theorem covered_push (sound : forest.Sound) {kind : Kind}
    (plain : ∀ term, kind.term? = some term → term.ignoreField = false)
    (covered : forest.Covered id) : (forest.push kind).Covered id := by
  intro term termed leaves
  rw [Forest.lenderOf_push sound]
  by_cases inside : id < forest.size
  · rw [Forest.termOf, Forest.kindOf_push_of_lt inside] at termed
    exact covered term termed leaves
  · by_cases isNew : id = forest.size
    · subst isNew
      rw [Forest.termOf, Forest.kindOf_of_getElem? (Forest.getElem?_push_self forest kind)]
        at termed
      rw [plain term termed] at leaves
      cases leaves
    · have outside : ¬ id < (forest.push kind).size := by
        rw [Forest.size_push]
        exact fun early => (Nat.lt_succ_iff_lt_or_eq.mp early).elim inside isNew
      rw [Forest.termOf, Forest.kindOf, Forest.getElem?_of_not_lt outside] at termed
      cases termed

theorem covered_base (sound : forest.Sound) (plain : operation.AddsPlain)
    (covered : forest.Covered id) : (operation.base forest).Covered id := by
  cases operation with
  | add kind | addWithChildren kind _ => exact covered_push sound plain covered
  | addProximity near _ => exact covered_push sound (fun _ termed => nomatch termed) covered
  | addChild _ _ | setChildren _ _ | detach _ | setRoot _ | replace _ _ | bindFields _
    | modifyTerm _ _ | copyBranch _ => exact covered

/-- A copy of a branch leaves all terms covered exactly when the branch is not a term
below a proximity node. -/
theorem covered_joined_iff (sound : forest.Sound) {branch : Branch}
    (mirrors : branch.Mirrors forest) (inStep : ∀ id, forest.InStep id)
    (covered : ∀ id, forest.Covered id) :
    (∀ id, (forest.joined branch.toForest).Covered id) ↔ ¬ forest.IsLent branch.id := by
  have copies := Forest.copies_toForest mirrors
  have copySound := mirrors.sound_toForest sound
  have first : branch.names[0]? = some branch.id := by
    rw [Branch.names, Branch.preOrder_eq]
    rfl
  constructor
  · intro stays lent
    obtain ⟨term, termed, leaves⟩ := (inStep branch.id).exists_term lent
    have copied := stays (0 + forest.size) term
    rw [Forest.termOf_joined_right, Forest.lenderOf_joined_right, copies.termOf first] at copied
    obtain ⟨near, found, _⟩ := copied termed leaves
    -- The root of the copy has no parent that could lend it a field.
    have parentless := (branch.rootParentless_toForest 0 rfl).2
    rw [Forest.lenderOf, parentless] at found
    cases found
  · intro notLent id
    rcases Forest.lt_or_exists_add forest.size id with inside | ⟨place, rfl⟩
    · unfold Forest.Covered
      rw [Forest.termOf_joined_left inside, sound.lenderOf_joined_left inside]
      exact covered id
    · intro term termed leaves
      rw [Forest.termOf_joined_right] at termed
      rw [Forest.lenderOf_joined_right]
      obtain ⟨kind, known, _⟩ := Option.bind_eq_some_iff.mp termed
      obtain ⟨node, present, _⟩ := Option.map_eq_some_iff.mp known
      have inside := Forest.lt_size_of_getElem? present
      obtain ⟨name, named⟩ := copies.exists_name inside
      rw [copies.termOf named] at termed
      by_cases isRoot : place = 0
      · subst isRoot
        cases named.symm.trans first
        obtain ⟨near, lent, _⟩ := covered branch.id term termed leaves
        refine absurd ⟨?_, ?_⟩ notLent
        · rw [termed]
          exact Option.some_ne_none term
        · rw [lent]
          exact Option.some_ne_none near
      · obtain ⟨parent, linked⟩ := mirrors.exists_parentOf_toForest sound inside isRoot
        rw [copies.lenderOf sound copySound named linked]
        exact covered name term termed leaves

/-- A copied branch leaves all terms covered exactly when its root takes its field from
nobody. -/
theorem covered_copyBranch_iff (sound : forest.Sound) (inStep : ∀ id, forest.InStep id)
    (covered : ∀ id, forest.Covered id) (root : NodeId) :
    (∀ id, (run forest (.copyBranch root)).Covered id) ↔
      ¬ Strands forest (.copyBranch root) := by
  by_cases inside : root < forest.size
  · obtain ⟨branch, read, rfl, mirrors⟩ := sound.exists_branch inside
    have becomes : run forest (.copyBranch branch.id) = forest.joined branch.toForest := by
      rw [run, Forest.edit_copyBranch read]
    rw [becomes, covered_joined_iff sound mirrors inStep covered]
    refine not_congr ⟨fun lent => ⟨branch.id, lent, .inr rfl⟩, ?_⟩
    rintro ⟨id, lent, alone | same⟩
    · rw [becomes, sound.lenderOf_joined_left lent.lt_size] at alone
      exact absurd alone lent.2
    · cases same
      exact lent
  · have unchanged : run forest (.copyBranch root) = forest := by
      rw [run, Forest.edit_copyBranch_outside inside]
    rw [unchanged]
    refine iff_of_true covered ?_
    rintro ⟨id, lent, alone | same⟩
    · rw [unchanged] at alone
      exact lent.2 alone
    · cases same
      exact inside lent.lt_size

/-- Where all terms are in step and covered, they stay covered exactly when none is
stranded. -/
theorem covered_run_iff (sound : forest.Sound) (noWrite : ∀ id, ¬ operation.Writes id)
    (plain : operation.AddsPlain) (inStep : ∀ id, forest.InStep id)
    (covered : ∀ id, forest.Covered id) :
    (∀ id, (operation.run forest).Covered id) ↔ ¬ operation.Strands forest := by
  by_cases isCopy : operation.IsCopy
  · obtain ⟨root, rfl⟩ := isCopy
    exact covered_copyBranch_iff sound inStep covered root
  · obtain ⟨parent, freed, moved, gathers, _⟩ := exists_gathers_run sound noWrite isCopy
    have staysInStep := forall_inStep_run sound noWrite inStep
    constructor
    · rintro stays ⟨id, lent, alone | isCopyOf⟩
      · obtain ⟨term, termed, leaves⟩ := (inStep id).exists_term lent
        have sameTerm := gathers.termOf_of_lenderOf_none alone
        rw [termOf_base operation lent.lt_size, termed] at sameTerm
        exact (staysInStep id).covered_iff.mp (stays id) term sameTerm leaves alone
      · exact isCopy ⟨id, isCopyOf⟩
    · intro notStrands id
      rw [(staysInStep id).covered_iff]
      intro term termed leaves alone
      rw [gathers.termOf_of_lenderOf_none alone] at termed
      obtain ⟨near, lent, _⟩ := covered_base sound plain (covered id) term termed leaves
      rw [lenderOf_base sound] at lent
      have hasLender : forest.lenderOf id ≠ none := by
        rw [lent]
        exact Option.some_ne_none near
      obtain ⟨owner, linked, _⟩ := Option.bind_eq_some_iff.mp lent
      rw [termOf_base operation (Forest.lt_size_of_parentOf linked)] at termed
      refine notStrands ⟨id, ⟨?_, hasLender⟩, .inl alone⟩
      rw [termed]
      exact Option.some_ne_none term

theorem covered_runAll {start : Forest} (sound : start.Sound) (inStep : ∀ id, start.InStep id)
    (covered : ∀ id, start.Covered id) {operations : List Operation}
    (noWrite : ∀ operation ∈ operations, ∀ id, ¬ operation.Writes id)
    (plain : ∀ operation ∈ operations, operation.AddsPlain)
    (never : ∀ before operation, before ++ [operation] <+: operations →
      ¬ operation.Strands (runAll start before)) :
    ∀ id, (runAll start operations).Covered id := by
  induction operations generalizing start with
  | nil => exact covered
  | cons head tail inductionHypothesis =>
      have headWrites := noWrite head List.mem_cons_self
      refine inductionHypothesis (head.sound_run sound)
        (forall_inStep_run sound headWrites inStep) ?_
        (fun operation member => noWrite operation (List.mem_cons_of_mem head member))
        (fun operation member => plain operation (List.mem_cons_of_mem head member)) ?_
      · apply (covered_run_iff sound headWrites (plain head List.mem_cons_self) inStep covered).mpr
        exact never [] head (List.prefix_append [head] tail)
      · intro before operation reached
        exact never (head :: before) operation (List.cons_prefix_cons.mpr ⟨rfl, reached⟩)

/-- In a history that begins with nothing, adds no term that leaves its field to
others and writes into none, all such terms are covered throughout exactly when no
operation strands one. -/
theorem covered_throughout_iff {operations : List Operation}
    (noWrite : ∀ operation ∈ operations, ∀ id, ¬ operation.Writes id)
    (plain : ∀ operation ∈ operations, operation.AddsPlain) :
    (∀ before, before <+: operations → ∀ id, (runAll .empty before).Covered id) ↔
      ∀ before operation, before ++ [operation] <+: operations →
        ¬ operation.Strands (runAll .empty before) := by
  have fresh : Forest.empty.IsFresh := .inl rfl
  constructor
  · intro covered before operation reached
    have member : operation ∈ operations := reached.subset (by simp)
    have earlier := (List.prefix_append before [operation]).trans reached
    have inStep := forall_inStep_runAll fresh.sound
      (fun operation member => noWrite operation (earlier.subset member)) fresh.inStep
    apply (covered_run_iff (sound_runAll fresh.sound before) (noWrite operation member)
      (plain operation member) inStep (covered before earlier)).mp
    have next := covered (before ++ [operation]) reached
    rwa [runAll_append] at next
  · intro never before reached
    refine covered_runAll fresh.sound fresh.inStep (fun _ _ termed => nomatch termed)
      (fun operation member => noWrite operation (reached.subset member))
      (fun operation member => plain operation (reached.subset member)) ?_
    exact fun earlier operation shorter => never earlier operation (shorter.trans reached)

/-- A term is taken away from its proximity node. -/
def takenAway : List Operation :=
  [.add (.leaf (.field { field := some "title", text := "fox" })),
    .addProximity ⟨some "title", .sentence, false⟩ [0], .detach 0]

theorem covered_throughout_iff_takenAway :
    (∀ operation ∈ takenAway, ∀ id, ¬ operation.Writes id) ∧
      (∀ operation ∈ takenAway, operation.AddsPlain) ∧
      ((∀ before, before <+: takenAway → ∀ id, (runAll .empty before).Covered id) ↔
        ∀ before operation, before ++ [operation] <+: takenAway →
          ¬ operation.Strands (runAll .empty before)) := by
  have noWrite : ∀ operation ∈ takenAway, ∀ id, ¬ operation.Writes id := by
    simp [takenAway, Writes]
  have plain : ∀ operation ∈ takenAway, operation.AddsPlain := by
    simp [takenAway, AddsPlain, Kind.term?, Leaf.term?]
  exact ⟨noWrite, plain, covered_throughout_iff noWrite plain⟩

/-- The term is written without its field but compiled in it. -/
theorem uncovered_after_takenAway :
    (runAll .empty takenAway).parentOf 0 = none ∧
      (runAll .empty takenAway).termOf 0 =
        some { field := some "title", text := "fox", ignoreField := true } ∧
      ((runAll .empty takenAway).branch 0).map Branch.standardText = .ok "fox" ∧
      Standard.compiler.compileNode (runAll .empty takenAway) 0 =
        .ok (.term ⟨"title", "fox"⟩) := by
  refine ⟨by decide, rfl, ?_, rfl⟩
  decide +kernel

end Operation

end QueryForest
