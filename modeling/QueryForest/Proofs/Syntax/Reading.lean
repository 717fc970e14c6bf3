import QueryForest.Proofs.Syntax.Clauses
import QueryForest.Proofs.Syntax.Nearness

/-!
# Legible branches read back

Every legible branch is read as what it compiles to.  A branch stands as a unit,
to which suffixes can be added, as a clause, which can have a sign, or as the
contents of a group; what is known of the children says how the branch is read.
-/

namespace QueryForest

open Branch (groupText joinedText nearnessText)
open Number (Single)

namespace QueryReader

variable {options : CompileOptions} {clause : Reading Clause} {count depth : Nat}
  {around : Option String} {chars rest : List Char} {branch : Branch}
  {children : List Branch} {clauses : List Clause}

variable {id : NodeId} {enclosing : Option Kind} {child : Branch} {others : List Branch}

theorem size_child {kind : Kind} :
    child.size < (Branch.node id kind enclosing (child :: others)).size := by
  rw [Branch.size, Branch.sizeOfAll]
  omega

theorem readsUnit_group (begins : child.Begins) (contents : ReadsContents options child) :
    ReadsUnit options around (.node id (.wrapper .group) enclosing (child :: others)) := by
  refine readsUnit_of_atom fun depth rest deep ends _ => ?_
  obtain ⟨found, clauses, read, shows⟩ :=
    contents depth (' ' :: ')' :: rest) (Nat.lt_of_lt_of_le size_child deep) (.closed rest)
  have front : (child.chars ++ ' ' :: ')' :: rest).head? ≠ some ' ' :=
    (begins.clause _ (.clause (EndsClauses.closed rest).endsClause)).head?_ne (by decide)
  refine ⟨fun _ => junctionQuery found clauses, ?_, shows⟩
  rw [Branch.chars_group, List.cons_append, List.cons_append, List.append_assoc]
  exact atom_parentheses front read ends

theorem readsUnit_boost {factor : Single} (number : factor.isNaN = false)
    (reads : ReadsUnit options none child) :
    ReadsUnit options around (.node id (.wrapper (.boost factor)) enclosing (child :: others)) := by
  intro depth rest deep ends _
  obtain ⟨meaning, read, shows⟩ := reads depth ('^' :: (factor.text.toList ++ rest))
    (Nat.le_trans size_child.le deep) (.boosted _) (by simp)
  obtain ⟨shown, behind⟩ := span_number (endsNumber_text factor) ends.endsNumber
  refine ⟨fun _ => .boost (meaning none) factor, ?_, ?_⟩
  · rw [Branch.chars_boost, List.append_assoc, List.cons_append, read, suffixed, shown, behind,
      Single.ofText_text number]
  · exact congrArg (Query.boost · factor) shows

theorem readsUnit_slop {value : UInt32} (word : child.endsInWord = false)
    (reads : ReadsUnit options none child)
    (passes : (Standard.withSlop value (Standard.queryOf options child)).collapsed =
      Standard.withSlop value (Standard.queryOf options child).collapsed) :
    ReadsUnit options around (.node id (.wrapper (.slop value)) enclosing (child :: others)) := by
  intro depth rest deep ends _
  obtain ⟨meaning, read, shows⟩ := reads depth ('~' :: ((toString value.toNat).toList ++ rest))
    (Nat.le_trans size_child.le deep) (.slopped _) (by simp [word])
  obtain ⟨shown, behind⟩ := span_number (endsNumber_natural value.toNat) ends.endsNumber
  refine ⟨fun _ => Standard.withSlop value (meaning none), ?_, ?_⟩
  · rw [Branch.chars_slop, List.append_assoc, List.cons_append, read, suffixed, shown, behind,
      natural_toString, UInt32.ofNat_toNat]
  · rw [shows]
    exact passes.symm

/-- A clause in parentheses of its own. -/
theorem atom_bracketed (begins : child.Begins) (reads : ReadsClause options none child)
    (deep : child.size < depth) :
    ∃ meaning : Meaning,
      atom options (clauseWithin options depth) depth ('(' :: (child.chars ++ ')' :: rest)) =
          some (meaning, rest) ∧
        ∀ around, meaning around = (Standard.queryOf options child).collapsed := by
  obtain ⟨clause, read, shows⟩ := reads depth (')' :: rest) deep (.closed rest)
  have blank : behind? " " (child.chars ++ ')' :: rest) = none :=
    behind?_eq_none rfl ((begins.clause _ (.clause (.closed rest))).head?_ne (by decide))
  have group : behind? "( " ('(' :: (child.chars ++ ')' :: rest)) = none := blank
  have closing : behind? ")" (')' :: rest) = some rest := behind?_append ")" rest
  refine ⟨fun _ => clause.meaning none, ?_, fun _ => shows.2⟩
  simp only [atom, List.head?_cons, group, List.tail_cons, read, closing, Option.bind_eq_bind,
    Option.bind_some, Option.pure_def]

/-- A modifier that is not neutral has a sign, however it is written. -/
theorem exists_sign (id : NodeId) (enclosing : Option Kind) (child : Branch)
    (others : List Branch) {modifier : Modifier} (signed : modifier ≠ .neutral) :
    ∃ sign, (Branch.node id (.wrapper (.modifier modifier)) enclosing (child :: others)).sign =
        some sign ∧
      ∀ chars, sign? (modifier.sign.toList ++ chars) = some (sign, chars) ∧
        sign? (modifier.keyword.toList ++ chars) = some (sign, chars) := by
  cases modifier with
  | neutral => exact absurd rfl signed
  | negated =>
      refine ⟨.mustNot, rfl, fun chars => ⟨?_, ?_⟩⟩
      · have minus := behind?_append "-" chars
        have plus : behind? "+" ("-".toList ++ chars) = none := rfl
        simp only [sign?, Modifier.sign, plus, minus]
      · have negation := behind?_append "NOT " chars
        have plus : behind? "+" ("NOT ".toList ++ chars) = none := rfl
        have minus : behind? "-" ("NOT ".toList ++ chars) = none := rfl
        simp only [sign?, Modifier.keyword, plus, minus, negation]
  | required =>
      refine ⟨.must, rfl, fun chars => ?_⟩
      have plus := behind?_append "+" chars
      exact ⟨by simp only [sign?, Modifier.sign, plus],
        by simp only [sign?, Modifier.keyword, plus]⟩

theorem clauseWithin_of_sign {sign : Occurrence} {behind : List Char} {meaning : Meaning}
    (signed : sign? chars = some (sign, behind))
    (read : unit options (clauseWithin options depth) depth behind =
      some (suffixed meaning rest)) (ends : EndsClause rest) :
    clauseWithin options (depth + 1) chars = some (⟨some sign, fun _ => meaning none⟩, rest) := by
  simp only [clauseWithin, QueryReader.signed, signed, read, ends.suffixed, Option.bind_eq_bind,
    Option.bind_some, Option.pure_def]

theorem readsClause_signed {modifier : Modifier} (signed : modifier ≠ .neutral)
    (plain : child.kind.isModifier = false) (reads : ReadsUnit options none child) :
    ReadsClause options around
      (.node id (.wrapper (.modifier modifier)) enclosing (child :: others)) := by
  obtain ⟨sign, shown, known⟩ :=
    exists_sign id enclosing child others signed
  intro depth rest deep ends
  cases depth with
  | zero => exact absurd deep (Nat.not_lt_zero _)
  | succ depth =>
      obtain ⟨meaning, read, shows⟩ := reads depth rest
        (Nat.le_of_lt_succ (Nat.lt_trans size_child deep)) (.clause ends)
        fun _ => ends.head?_ne_tilde
      refine ⟨⟨some sign, fun _ => meaning none⟩, ?_, shown.symm, shows⟩
      rw [Branch.chars_modifier modifier plain, List.append_assoc]
      refine clauseWithin_of_sign ?_ read ends
      split
      · exact (known _).2
      · exact (known _).1

theorem unit_bracketed (begins : child.Begins) (reads : ReadsClause options none child)
    (deep : child.size < depth) :
    ∃ meaning : Meaning,
      unit options (clauseWithin options depth) depth ('(' :: (child.chars ++ ')' :: rest)) =
          some (suffixed meaning rest) ∧
        ∀ around, meaning around = (Standard.queryOf options child).collapsed := by
  obtain ⟨meaning, read, shows⟩ := atom_bracketed begins reads deep
  refine ⟨meaning, ?_, shows⟩
  rw [unit, read]
  rfl

theorem readsUnit_stacked (stacked : child.kind.isModifier = true) (begins : child.Begins)
    (reads : ReadsClause options none child) :
    ReadsUnit options around
      (.node id (.wrapper (.modifier .neutral)) enclosing (child :: others)) := by
  intro depth rest deep _ _
  obtain ⟨meaning, read, shows⟩ :=
    unit_bracketed begins reads (Nat.lt_of_lt_of_le size_child deep)
  refine ⟨meaning, ?_, shows around⟩
  rw [Branch.chars_stacked _ _ _ _ stacked, List.append_assoc, List.cons_append, List.append_assoc]
  exact read

theorem readsClause_stacked {modifier : Modifier} (signed : modifier ≠ .neutral)
    (stacked : child.kind.isModifier = true) (begins : child.Begins)
    (reads : ReadsClause options none child) :
    ReadsClause options around
      (.node id (.wrapper (.modifier modifier)) enclosing (child :: others)) := by
  obtain ⟨sign, shown, known⟩ :=
    exists_sign id enclosing child others signed
  intro depth rest deep ends
  cases depth with
  | zero => exact absurd deep (Nat.not_lt_zero _)
  | succ depth =>
      obtain ⟨meaning, read, shows⟩ :=
        unit_bracketed begins reads (Nat.lt_of_lt_of_le size_child (Nat.le_of_lt_succ deep))
      refine ⟨⟨some sign, fun _ => meaning none⟩, ?_, shown.symm, shows none⟩
      rw [Branch.chars_stacked _ _ _ _ stacked, List.append_assoc, List.cons_append,
        List.append_assoc]
      exact clauseWithin_of_sign (known _).1 read ends

theorem readsUnit_neutral (plain : child.kind.isModifier = false)
    (reads : ReadsUnit options around child) :
    ReadsUnit options around
      (.node id (.wrapper (.modifier .neutral)) enclosing (child :: others)) := by
  intro depth rest deep ends single
  rw [Branch.chars_neutral plain]
  refine reads depth rest (Nat.le_trans size_child.le deep) ends fun word => single ?_
  cases child with
  | node id kind enclosing children =>
      cases kind with
      | leaf bottom => cases bottom <;> first | rfl | exact nomatch word
      | wrapper around =>
          cases around with
          | modifier _ => exact nomatch plain
          | group | boost _ | slop _ => exact nomatch word
      | composite _ | extension _ => exact nomatch word

section Proximity

variable {near : Proximity}
  (reads : ∀ child ∈ children, ReadsClause options (namedField near.field) child)
  (begins : ∀ child ∈ children, child.Begins)
  (small : ∀ child ∈ children, child.size < depth)

include reads begins small

/-- The clauses of a proximity node are read, if there are any. -/
theorem grouped_joinedText (enough : children.length ≤ depth) (rest : List Char) :
    ∃ found clauses, grouped (clauseWithin options depth) depth
        (joinedText .implicit children ++ ' ' :: ')' :: rest) = some ((found, clauses), rest) ∧
      List.Forall₂ (Clause.Shows options (namedField near.field)) clauses children := by
  cases children with
  | nil =>
      have closing : behind? " )" (' ' :: ')' :: rest) = some rest := behind?_append " )" rest
      refine ⟨.implicit, [], ?_, .nil⟩
      show grouped (clauseWithin options depth) depth (' ' :: ')' :: rest) = _
      simp only [grouped, List.head?_cons, if_true, closing, Option.bind_eq_bind,
        Option.bind_some, Option.pure_def]
  | cons first others =>
      obtain ⟨found, clauses, read, shows, _⟩ := junction_joinedText .implicit reads begins small
        (List.cons_ne_nil _ _) (.closed rest) enough
      have front := Branch.clauseFront_joinedText .implicit (List.cons_ne_nil first others)
        (fun child member => (begins child member).clause)
        (.clause (EndsClauses.closed rest).endsClause)
      exact ⟨found, clauses, grouped_of_junction (front.head?_ne (by decide)) read, shows⟩

/-- A proximity group is read in its field. -/
theorem readsAtom_proximity (enough : children.length ≤ depth) (ends : EndsAtom rest) :
    ReadsAtom options (clauseWithin options depth) depth around
      (.node id (.composite (.proximity near)) enclosing children) rest := by
  have shape (behind : List Char) : groupText near children ++ behind =
      '(' :: ' ' :: (joinedText .implicit children ++
        ' ' :: ')' :: (nearnessText near ++ behind)) := by
    simp [groupText]
  have query {clauses : List Clause}
      (shows : List.Forall₂ (Clause.Shows options (namedField near.field)) clauses children) :
      Query.near (clauses.map (·.meaning (namedField near.field)))
          (Standard.nearnessOf near.reach) near.inOrder =
        (Standard.queryOf options
          (.node id (.composite (.proximity near)) enclosing children)).collapsed := by
    rw [map_meaning_eq shows]
    rfl
  rw [ReadsAtom, Branch.chars_proximity]
  cases named : namedField near.field with
  | none =>
      obtain ⟨found, clauses, read, shows⟩ :=
        grouped_joinedText reads begins small enough (nearnessText near ++ rest)
      have meant := query shows
      rw [named] at meant
      refine ⟨fun _ => .near (clauses.map (·.meaning none)) (Standard.nearnessOf near.reach)
        near.inOrder, ?_, meant⟩
      rw [shape]
      simp only [atom, List.head?_cons, behind?_parenthesis, read, nearness?_nearnessText near ends,
        Option.bind_eq_bind, Option.bind_some, Option.pure_def]
  | some name =>
      obtain ⟨found, clauses, read, shows⟩ :=
        grouped_joinedText reads begins small enough (nearnessText near ++ ')' :: rest)
      have meant := query shows
      rw [named] at meant
      have opening (chars : List Char) : behind? "(( " ('(' :: '(' :: ' ' :: chars) = some chars :=
        behind?_append "(( " chars
      have closing : behind? ")" (')' :: rest) = some rest := behind?_append ")" rest
      refine ⟨fun _ => .near (clauses.map (·.meaning (some name)))
        (Standard.nearnessOf near.reach) near.inOrder, ?_, meant⟩
      have inside : wordText name ++ ':' :: '(' :: (groupText near children ++ [')']) ++ rest =
          wordText name ++ ':' :: '(' :: (groupText near children ++ ')' :: rest) := by simp
      rw [inside, atom_field, shape]
      simp only [body, List.head?_cons, opening, read,
        nearness?_nearnessText near (.clause (.closed rest)), closing, Option.bind_eq_bind,
        Option.bind_some, Option.pure_def]

end Proximity

theorem size_le_sizeOfAll (member : child ∈ children) :
    child.size ≤ Branch.sizeOfAll children := by
  induction children with
  | nil => exact absurd member List.not_mem_nil
  | cons head tail inductionHypothesis =>
      rw [Branch.sizeOfAll]
      rcases List.mem_cons.mp member with rfl | later
      · exact Nat.le_add_right _ _
      · exact Nat.le_trans (inductionHypothesis later) (Nat.le_add_left _ _)

theorem length_le_sizeOfAll (children : List Branch) :
    children.length ≤ Branch.sizeOfAll children := by
  induction children with
  | nil => exact Nat.le_refl 0
  | cons head tail inductionHypothesis =>
      have some := head.size_pos
      rw [Branch.sizeOfAll, List.length_cons]
      omega

/-- The clauses of a junction are read as what it compiles to. -/
theorem exists_junction (id : NodeId) (enclosing : Option Kind) (operator : Operator)
    (reads : ∀ child ∈ children, ReadsClause options none child)
    (begins : ∀ child ∈ children, child.Begins) (some : children ≠ [])
    (deep : Branch.sizeOfAll children < depth) (ends : EndsClauses rest) :
    ∃ found clauses, junction (clauseWithin options depth) depth
        (joinedText operator children ++ rest) = Option.some ((found, clauses), rest) ∧
      junctionQuery found clauses = (Standard.queryOf options
        (.node id (.composite (.junction operator)) enclosing children)).collapsed := by
  obtain ⟨found, clauses, read, shows, same⟩ := junction_joinedText operator reads begins
    (fun child member => Nat.lt_of_le_of_lt (size_le_sizeOfAll member) deep) some ends
    (Nat.le_trans (length_le_sizeOfAll children) deep.le)
  exact ⟨found, clauses, read, junctionQuery_eq shows same⟩

/-! ## All branches -/

theorem joined_of_length_ne_one {clauses : List (Occurrence × Query)}
    (several : clauses.length ≠ 1) : Query.joined clauses = .boolean clauses := by
  match clauses with
  | [] => rfl
  | [_] => exact absurd rfl several
  | (occurrence, _) :: _ :: _ => cases occurrence <;> rfl

/-- A slop can be put on a legible query before or after junctions of one clause
are taken away: none stands where it could reach. -/
theorem collapsed_withSlop {slopped : Bool} (legible : branch.IsLegible around slopped)
    (inSlop : slopped = true) (value : UInt32) :
    (Standard.withSlop value (Standard.queryOf options branch)).collapsed =
      Standard.withSlop value (Standard.queryOf options branch).collapsed := by
  induction legible generalizing value with
  | field _ _ _ | quotedField _ _ | fuzzy _ _ | matchAll => rfl
  | group _ _ inductionHypothesis => exact inductionHypothesis inSlop value
  | stacked _ _ inductionHypothesis => exact inductionHypothesis inSlop value
  | neutral _ _ inductionHypothesis => exact inductionHypothesis inSlop value
  | signed _ _ _ inductionHypothesis => exact inductionHypothesis inSlop value
  | boost _ _ _ _ => rfl
  | @slop _ _ _ inner _ child _ _ _ _ inductionHypothesis =>
      have again (query : Query) :
          Standard.withSlop value (Standard.withSlop inner query) =
            Standard.withSlop value query := by
        cases query <;> rfl
      show (Standard.withSlop value
          (Standard.withSlop inner (Standard.queryOf options child))).collapsed =
        Standard.withSlop value
          (Standard.withSlop inner (Standard.queryOf options child)).collapsed
      rw [again, inductionHypothesis rfl, inductionHypothesis rfl, again]
  | @junction _ _ id operator enclosing children _ few _ _ =>
      show (Standard.queryOf options
          (.node id (.composite (.junction operator)) enclosing children)).collapsed = _
      rw [collapsed_queryOf_junction, joined_of_length_ne_one (by simpa using few inSlop)]
      rfl
  | tokenizedPhrase _ _ _ _ => rfl
  | multiPhrase _ _ _ => rfl
  | proximity _ _ => rfl

/-- How a legible branch is read, wherever it stands. -/
structure Reads (options : CompileOptions) (around : Option String) (branch : Branch) :
    Prop where
  unit : branch.sign = none → branch.isBare = false → ReadsUnit options around branch
  clause : branch.isBare = false → ReadsClause options around branch
  contents : around = none → branch.sign = none → ReadsContents options branch

theorem Reads.of_unit (unsigned : branch.sign = none) (boxed : branch.isBare = false)
    (begins : branch.Begins) (reads : ReadsUnit options around branch) :
    Reads options around branch := by
  have clause := readsClause_of_unit unsigned (begins.atom unsigned boxed) reads
  refine ⟨fun _ _ => reads, fun _ => clause, ?_⟩
  rintro rfl _
  exact readsContents_of_clause unsigned begins clause

theorem Reads.of_clause (signed : branch.sign ≠ none)
    (reads : ReadsClause options around branch) : Reads options around branch :=
  ⟨fun unsigned => absurd unsigned signed, fun _ => reads,
    fun _ unsigned => absurd unsigned signed⟩

theorem sign_ne_none {modifier : Modifier} (signed : modifier ≠ .neutral) :
    (Branch.node id (.wrapper (.modifier modifier)) enclosing (child :: others)).sign ≠ none := by
  obtain ⟨sign, shown, _⟩ :=
    exists_sign id enclosing child others signed
  exact shown ▸ Option.some_ne_none sign

/-- A junction stands in parentheses, or is the contents of a group. -/
theorem reads_junction {operator : Operator}
    (reads : ∀ child ∈ children, ReadsClause options none child)
    (begins : ∀ child ∈ children, child.Begins) (some : children ≠ [])
    (whole : (Branch.node id (.composite (.junction operator)) enclosing children).Begins) :
    Reads options around
      (.node id (.composite (.junction operator)) enclosing children) := by
  have text := Branch.chars_junction id enclosing operator some
    fun child member => (begins child member).chars_ne_nil
  by_cases bare : enclosing.all Kind.isGroup = true
  · rw [if_pos bare] at text
    refine ⟨fun _ boxed => absurd (bare.symm.trans boxed) (by decide),
      fun boxed => absurd (bare.symm.trans boxed) (by decide), fun _ _ depth rest deep ends => ?_⟩
    rw [text]
    exact exists_junction id enclosing operator reads begins some (Nat.lt_of_succ_lt deep) ends
  · rw [if_neg bare] at text
    refine .of_unit rfl (Bool.eq_false_iff.mpr bare) whole
      (readsUnit_of_atom fun depth rest deep ends _ => ?_)
    have small : Branch.sizeOfAll children < depth := deep
    obtain ⟨found, clauses, read, shows⟩ := exists_junction id enclosing operator reads begins
      some small (.closed rest)
    have front := Branch.clauseFront_joinedText operator some
      (fun child member => (begins child member).clause)
      (.clause (EndsClauses.closed rest).endsClause)
    refine ⟨fun _ => junctionQuery found clauses, ?_, shows⟩
    rw [text, List.cons_append, List.cons_append, List.append_assoc]
    exact atom_parentheses (front.head?_ne (by decide)) read ends

section Children

variable {inner : Option String} {slopped : Bool}

/-- Junctions stand without parentheses right below a group only, so below any other node a
legible child is a clause. -/
theorem clause_of_child (linked : branch.IsLinked) (apart : branch.kind.isGroup = false)
    (member : child ∈ branch.children) (legible : child.IsLegible inner slopped)
    (reads : child.IsLinked → child.Begins → Reads options inner child) :
    ReadsClause options inner child := by
  have childLinked := linked.child member
  exact (reads childLinked (legible.begins childLinked)).clause (linked.isBare_child member apart)

theorem unit_of_child (linked : branch.IsLinked) (apart : branch.kind.isGroup = false)
    (member : child ∈ branch.children) (legible : child.IsLegible inner slopped)
    (unsigned : child.sign = none)
    (reads : child.IsLinked → child.Begins → Reads options inner child) :
    ReadsUnit options inner child := by
  have childLinked := linked.child member
  exact (reads childLinked (legible.begins childLinked)).unit unsigned
    (linked.isBare_child member apart)

end Children

/-- Every legible branch is read as what it compiles to. -/
theorem reads_of_isLegible {slopped : Bool} (legible : branch.IsLegible around slopped)
    (linked : branch.IsLinked) : Reads options around branch := by
  have begins := legible.begins linked
  induction legible with
  | field placed _ _ =>
      exact .of_unit rfl rfl begins (readsUnit_of_atom fun _ _ _ ends single =>
        readsAtom_field placed ends (single rfl))
  | quotedField placed whole =>
      exact .of_unit rfl rfl begins (readsUnit_of_atom fun _ _ _ _ _ =>
        readsAtom_quotedField placed whole)
  | fuzzy placed _ =>
      exact .of_unit rfl rfl begins (readsUnit_of_atom fun _ _ _ ends _ =>
        readsAtom_fuzzy placed ends)
  | matchAll =>
      exact .of_unit rfl rfl begins (readsUnit_of_atom fun _ _ _ _ _ => readsAtom_matchAll)
  | group unsigned inside inductionHypothesis =>
      have childLinked := linked.child List.mem_cons_self
      have childBegins := inside.begins childLinked
      exact .of_unit rfl rfl begins (readsUnit_group childBegins
        ((inductionHypothesis childLinked childBegins).contents rfl unsigned))
  | @stacked _ _ _ modifier _ child _ stacked inside inductionHypothesis =>
      have childBegins := inside.begins (linked.child List.mem_cons_self)
      have childReads := clause_of_child linked rfl List.mem_cons_self inside inductionHypothesis
      by_cases signed : modifier = .neutral
      · subst signed
        exact .of_unit rfl rfl begins (readsUnit_stacked stacked childBegins childReads)
      · exact .of_clause (sign_ne_none signed)
          (readsClause_stacked signed stacked childBegins childReads)
  | neutral plain inside inductionHypothesis =>
      have childReads := unit_of_child linked rfl List.mem_cons_self inside
        (Branch.sign_eq_none plain) inductionHypothesis
      exact .of_unit rfl rfl begins (readsUnit_neutral plain childReads)
  | signed signed plain inside inductionHypothesis =>
      have childReads := unit_of_child linked rfl List.mem_cons_self inside
        (Branch.sign_eq_none plain) inductionHypothesis
      exact .of_clause (sign_ne_none signed) (readsClause_signed signed plain childReads)
  | boost unsigned inside number inductionHypothesis =>
      have childReads :=
        unit_of_child linked rfl List.mem_cons_self inside unsigned inductionHypothesis
      exact .of_unit rfl rfl begins (readsUnit_boost number childReads)
  | slop unsigned word inside inductionHypothesis =>
      have childReads :=
        unit_of_child linked rfl List.mem_cons_self inside unsigned inductionHypothesis
      exact .of_unit rfl rfl begins
        (readsUnit_slop word childReads (collapsed_withSlop inside rfl _))
  | junction some _ inside inductionHypothesis =>
      exact reads_junction
        (fun child member => clause_of_child linked rfl member (inside child member)
          (inductionHypothesis child member))
        (fun child member => (inside child member).begins (linked.child member)) some begins
  | tokenizedPhrase several whole numbered same =>
      exact .of_unit rfl rfl begins (readsUnit_of_atom fun _ _ _ _ _ =>
        readsAtom_tokenizedPhrase several whole numbered same)
  | multiPhrase some positive same =>
      exact .of_unit rfl rfl begins (readsUnit_of_atom fun _ _ _ _ _ =>
        readsAtom_multiPhrase some positive same)
  | @proximity _ _ _ near _ children inside inductionHypothesis =>
      have childReads : ∀ child ∈ children, ReadsClause options (namedField near.field) child :=
        fun child member => clause_of_child linked rfl member (inside child member)
          (inductionHypothesis child member)
      refine .of_unit rfl rfl begins (readsUnit_of_atom fun depth _ deep ends _ => ?_)
      have small : Branch.sizeOfAll children < depth := deep
      exact readsAtom_proximity childReads
        (fun child member => (inside child member).begins (linked.child member))
        (fun child member => Nat.lt_of_le_of_lt (size_le_sizeOfAll member) small)
        (Nat.le_trans (length_le_sizeOfAll children) small.le) ends

end QueryReader

end QueryForest
