import QueryForest.Proofs.Syntax.Atoms

/-!
# Clauses read back

Clauses behind one another are read with the operator that stands between them.
What is read makes the same query as the clauses themselves: only a clause alone
does not tell its operator, and then it stands for itself.
-/

namespace QueryForest

open Branch (afterText joinedText)

namespace QueryReader

variable {options : CompileOptions} {clause : Reading Clause} {count depth : Nat}
  {around : Option String} {chars rest : List Char} {branch : Branch}

/-- A clause shows a branch in a field. -/
def Clause.Shows (options : CompileOptions) (around : Option String) (clause : Clause)
    (branch : Branch) : Prop :=
  clause.sign = branch.sign ∧
    clause.meaning around = (Standard.queryOf options branch).collapsed

/-- A branch with suffixes behind it is read as a unit. -/
def ReadsUnit (options : CompileOptions) (around : Option String) (branch : Branch) : Prop :=
  ∀ depth rest, branch.size ≤ depth → EndsAtom rest →
    (branch.endsInWord = true → rest.head? ≠ some '~') →
    ∃ meaning : Meaning,
      unit options (clauseWithin options depth) depth (branch.chars ++ rest) =
          some (suffixed meaning rest) ∧
        meaning around = (Standard.queryOf options branch).collapsed

def ReadsClause (options : CompileOptions) (around : Option String) (branch : Branch) : Prop :=
  ∀ depth rest, branch.size < depth → EndsClause rest →
    ∃ clause, clauseWithin options depth (branch.chars ++ rest) = some (clause, rest) ∧
      clause.Shows options around branch

def ReadsContents (options : CompileOptions) (branch : Branch) : Prop :=
  ∀ depth rest, branch.size < depth → EndsClauses rest →
    ∃ operator clauses,
      junction (clauseWithin options depth) depth (branch.chars ++ rest) =
          some ((operator, clauses), rest) ∧
        junctionQuery operator clauses = (Standard.queryOf options branch).collapsed

theorem readsUnit_of_atom (reads : ∀ depth rest, branch.size ≤ depth → EndsAtom rest →
    (branch.endsInWord = true → rest.head? ≠ some '~') →
    ReadsAtom options (clauseWithin options depth) depth around branch rest) :
    ReadsUnit options around branch := by
  intro depth rest deep ends single
  obtain ⟨meaning, read, shows⟩ := reads depth rest deep ends single
  refine ⟨meaning, ?_, shows⟩
  rw [unit, read]
  rfl

/-- A unit without a sign is a clause. -/
theorem readsClause_of_unit (unsigned : branch.sign = none)
    (front : ∀ rest, EndsAtom rest → Front (branch.chars ++ rest))
    (reads : ReadsUnit options around branch) : ReadsClause options around branch := by
  intro depth rest deep ends
  cases depth with
  | zero => exact absurd deep (Nat.not_lt_zero _)
  | succ depth =>
      obtain ⟨meaning, read, shows⟩ := reads depth rest (Nat.le_of_lt_succ deep) (.clause ends)
        fun _ => ends.head?_ne_tilde
      refine ⟨⟨none, meaning⟩, ?_, unsigned.symm, shows⟩
      rw [clauseWithin, signed, (front rest (.clause ends)).sign?]
      show (unit options (clauseWithin options depth) depth (branch.chars ++ rest) >>= _) = _
      rw [read, ends.suffixed]
      rfl

section Clauses

variable (operator : Operator) {children : List Branch}

theorem endsClause_behind (begins : ∀ child ∈ children, child.Begins) (ends : EndsClauses rest) :
    EndsClause (afterText operator children ++ rest) := by
  cases children with
  | nil => exact ends.endsClause
  | cons first others =>
      exact Branch.endsClause_afterText operator (List.cons_ne_nil _ _)
        (fun child member => (begins child member).clause) (.clause ends.endsClause)

theorem separator?_afterText {first : Branch} {others : List Branch}
    (begins : ∀ child ∈ first :: others, child.Begins) (ends : EndsClauses rest) :
    separator? (afterText operator (first :: others) ++ rest) =
      some (operator, first.chars ++ (afterText operator others ++ rest)) := by
  obtain ⟨beginsFirst, beginsOthers⟩ := List.forall_mem_cons.mp begins
  have front := beginsFirst.clause _ (.clause (endsClause_behind operator beginsOthers ends))
  rw [Branch.afterText_cons, List.append_assoc, List.append_assoc]
  exact front.separator?_eq operator

variable
  (reads : ∀ child ∈ children, ReadsClause options around child)
  (begins : ∀ child ∈ children, child.Begins)
  (small : ∀ child ∈ children, child.size < depth)

include reads begins small

/-- Clauses behind another one are read one after the other. -/
theorem others_afterText (ends : EndsClauses rest) (enough : children.length < count) :
    ∃ clauses, others (clauseWithin options depth) operator count
        (afterText operator children ++ rest) = some (clauses, rest) ∧
      List.Forall₂ (Clause.Shows options around) clauses children := by
  induction children generalizing count with
  | nil =>
      cases count with
      | zero => exact absurd enough (Nat.not_lt_zero _)
      | succ count =>
          refine ⟨[], ?_, .nil⟩
          show others (clauseWithin options depth) operator (count + 1) rest = _
          rw [others, separator?_eq_none ends]
  | cons first tail inductionHypothesis =>
      cases count with
      | zero => exact absurd enough (Nat.not_lt_zero _)
      | succ count =>
          obtain ⟨readsFirst, readsTail⟩ := List.forall_mem_cons.mp reads
          obtain ⟨_, beginsTail⟩ := List.forall_mem_cons.mp begins
          obtain ⟨smallFirst, smallTail⟩ := List.forall_mem_cons.mp small
          obtain ⟨clauses, readOthers, shown⟩ := inductionHypothesis readsTail beginsTail
            smallTail (Nat.lt_of_succ_lt_succ enough)
          have behind : EndsClause (afterText operator tail ++ rest) :=
            endsClause_behind operator beginsTail ends
          obtain ⟨clause, readFirst, shows⟩ := readsFirst depth _ smallFirst behind
          refine ⟨clause :: clauses, ?_, .cons shows shown⟩
          rw [others, separator?_afterText operator begins ends]
          show (if operator = operator then _ else none) = _
          rw [if_pos rfl, readFirst]
          show (others _ operator count _ >>= _) = _
          rw [readOthers]
          rfl

/-- Joined clauses are read as a junction; only a single clause does not tell its
operator. -/
theorem junction_joinedText (some : children ≠ []) (ends : EndsClauses rest)
    (enough : children.length ≤ count) :
    ∃ found clauses, junction (clauseWithin options depth) count
        (joinedText operator children ++ rest) = Option.some ((found, clauses), rest) ∧
      List.Forall₂ (Clause.Shows options around) clauses children ∧
        (found = operator ∨ children.length = 1) := by
  cases children with
  | nil => exact absurd rfl some
  | cons first tail =>
      obtain ⟨readsFirst, readsTail⟩ := List.forall_mem_cons.mp reads
      obtain ⟨_, beginsTail⟩ := List.forall_mem_cons.mp begins
      obtain ⟨smallFirst, smallTail⟩ := List.forall_mem_cons.mp small
      have behind : EndsClause (afterText operator tail ++ rest) :=
        endsClause_behind operator beginsTail ends
      obtain ⟨clause, readFirst, shows⟩ := readsFirst depth _ smallFirst behind
      obtain ⟨clauses, readOthers, shown⟩ :=
        others_afterText operator readsTail beginsTail smallTail ends enough
      rw [Branch.joinedText_cons, List.append_assoc]
      unfold junction
      rw [readFirst]
      cases tail with
      | nil =>
          refine ⟨.implicit, [clause], ?_, .cons shows .nil, .inr rfl⟩
          have alone : afterText operator [] ++ rest = rest := rfl
          simp only [Option.bind_eq_bind, Option.bind_some, alone, separator?_eq_none ends]
          rfl
      | cons second tail =>
          refine ⟨operator, clause :: clauses, ?_, .cons shows shown, .inl rfl⟩
          simp only [Option.bind_eq_bind, Option.bind_some,
            separator?_afterText operator beginsTail ends, readOthers]
          rfl

end Clauses

theorem collapsedClauses_eq_map (clauses : List (Occurrence × Query)) :
    Query.collapsedClauses clauses = clauses.map fun clause => (clause.1, clause.2.collapsed) := by
  induction clauses with
  | nil => rfl
  | cons head tail inductionHypothesis =>
      rw [Query.collapsedClauses, inductionHypothesis, Query.collapsedClause, List.map_cons]

theorem collapsedAll_eq_map (queries : List Query) :
    Query.collapsedAll queries = queries.map Query.collapsed := by
  induction queries with
  | nil => rfl
  | cons head tail inductionHypothesis =>
      rw [Query.collapsedAll, inductionHypothesis, List.map_cons]

theorem occurrenceOf_eq (operator : Operator) (child : Branch) :
    Standard.occurrenceOf (.composite (.junction operator)) child.kind =
      child.sign.getD (unsignedOccurrence operator) := by
  unfold Standard.occurrenceOf Branch.sign
  cases child.kind with
  | wrapper around =>
      cases around with
      | modifier modifier => cases modifier <;> cases operator <;> rfl
      | group | boost _ | slop _ => cases operator <;> rfl
  | leaf _ | composite _ | extension _ => cases operator <;> rfl

variable {children : List Branch} {clauses : List Clause}

theorem map_meaning_eq (shows : List.Forall₂ (Clause.Shows options around) clauses children) :
    clauses.map (·.meaning around) =
      Query.collapsedAll (Standard.queriesOf options children) := by
  rw [collapsedAll_eq_map, Standard.queriesOf_eq_map, List.map_map]
  induction shows with
  | nil => rfl
  | cons same _ inductionHypothesis =>
      rw [List.map_cons, List.map_cons, same.2, inductionHypothesis]
      rfl

/-- The clauses of a junction are those that are read, under its own operator. -/
theorem map_occurrence_eq (operator : Operator)
    (shows : List.Forall₂ (Clause.Shows options none) clauses children) :
    clauses.map (fun clause =>
        (clause.sign.getD (unsignedOccurrence operator), clause.meaning none)) =
      children.map fun child =>
        (Standard.occurrenceOf (.composite (.junction operator)) child.kind,
          (Standard.queryOf options child).collapsed) := by
  induction shows with
  | nil => rfl
  | cons same _ inductionHypothesis =>
      rw [List.map_cons, List.map_cons, same.1, same.2, inductionHypothesis, occurrenceOf_eq]

theorem collapsed_queryOf_junction {id : NodeId} {operator : Operator}
    {enclosing : Option Kind} :
    (Standard.queryOf options
        (.node id (.composite (.junction operator)) enclosing children)).collapsed =
      .joined (children.map fun child =>
        (Standard.occurrenceOf (.composite (.junction operator)) child.kind,
          (Standard.queryOf options child).collapsed)) := by
  rw [Standard.queryOf, Standard.compositeQuery, Standard.queriesOf_eq_map,
    List.zipWith_map_right, List.zipWith_self, Query.collapsed, collapsedClauses_eq_map,
    List.map_map]
  rfl

theorem joined_unsigned (operator : Operator) (query : Query) :
    Query.joined [(unsignedOccurrence operator, query)] = query := by
  cases operator <;> rfl

theorem junctionQuery_eq {found operator : Operator} {id : NodeId} {enclosing : Option Kind}
    (shows : List.Forall₂ (Clause.Shows options none) clauses children)
    (same : found = operator ∨ children.length = 1) :
    junctionQuery found clauses =
      (Standard.queryOf options
        (.node id (.composite (.junction operator)) enclosing children)).collapsed := by
  rw [junctionQuery, collapsed_queryOf_junction, ← map_occurrence_eq operator shows]
  rcases same with rfl | single
  · rfl
  · obtain ⟨child, rfl⟩ := List.length_eq_one_iff.mp single
    cases shows with
    | @cons clause _ _ _ _ none =>
        cases none
        rw [List.map_singleton, List.map_singleton]
        cases sign : clause.sign with
        | some occurrence => rfl
        | none =>
            rw [Option.getD_none, Option.getD_none, joined_unsigned, joined_unsigned]

/-! ## Groups -/

theorem grouped_of_junction {found : Operator} (front : chars.head? ≠ some ' ')
    (read : junction clause count chars = some ((found, clauses), ' ' :: ')' :: rest)) :
    grouped clause count chars = some ((found, clauses), rest) := by
  have closing : behind? " )" (' ' :: ')' :: rest) = some rest := behind?_append " )" rest
  simp only [grouped, front, if_false, read, closing, Option.bind_eq_bind, Option.bind_some,
    Option.pure_def]

theorem behind?_parenthesis (chars : List Char) :
    behind? "( " ('(' :: ' ' :: chars) = some chars :=
  behind?_append "( " chars

theorem atom_parentheses {found : Operator} (front : chars.head? ≠ some ' ')
    (read : junction clause count chars = some ((found, clauses), ' ' :: ')' :: rest))
    (ends : EndsAtom rest) :
    atom options clause count ('(' :: ' ' :: chars) =
      some (fun _ => junctionQuery found clauses, rest) := by
  simp only [atom, List.head?_cons, behind?_parenthesis, grouped_of_junction front read,
    nearness?_eq_none ends, Option.bind_eq_bind, Option.bind_some, Option.pure_def]

/-- A clause alone is the contents of a group. -/
theorem readsContents_of_clause (unsigned : branch.sign = none) (begins : branch.Begins)
    (reads : ReadsClause options none branch) : ReadsContents options branch := by
  intro depth rest deep ends
  obtain ⟨found, clauses, read, shows, _⟩ := junction_joinedText .implicit
    (List.forall_mem_singleton.mpr reads) (List.forall_mem_singleton.mpr begins)
    (List.forall_mem_singleton.mpr deep) (List.cons_ne_nil _ _) ends
    (Nat.one_le_of_lt deep)
  rw [Branch.joinedText_cons, Branch.afterText, List.flatMap_nil, List.append_nil] at read
  refine ⟨found, clauses, read, ?_⟩
  cases shows with
  | @cons clause _ _ _ same none =>
      cases none
      rw [junctionQuery, List.map_singleton, same.1, unsigned, Option.getD_none, joined_unsigned]
      exact same.2

end QueryReader

end QueryForest
