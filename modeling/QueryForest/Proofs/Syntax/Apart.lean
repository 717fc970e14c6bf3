import QueryForest.Proofs.Syntax.Confinement
import QueryForest.Proofs.Syntax.Determined
import QueryForest.Proofs.Syntax.Outside

/-!
# Clauses stay apart

Where the clauses of a conjunction or a disjunction are joined, no clause shows one of
the two operators as a word outside of quotes and brackets.  So the operators that are
found there are those of the junction, and between them are its clauses.
-/

namespace QueryForest

open Escaper (bareMarks_escape isBalanced_escape)
open QueryStyle (bareMarks_quoted escaping)
open Text.IsOuterText (IsUnlike)
open Text (IsBalanced IsOuterText IsOuterWord IsPlainWord Standing delimiters isBalanced_of_flat
  isOperatorWord isOuterText_intercalate mem_of_mem_bareMarks not_mem_delimiters_of_isDigit
  not_mem_reserved_of_mem_outerParts outerParts outerParts_eq_singleton outerParts_intercalate
  spaced)

theorem isOuterWord_of_flat {text : List Char}
    (flat : ∀ character ∈ text, character ∉ delimiters ∧ character ≠ ' ') : IsOuterWord text := by
  apply IsOuterWord.of_isBalanced (isBalanced_of_flat fun character member => (flat _ member).1)
  exact fun blank => (flat ' ' (mem_of_mem_bareMarks blank)).2 rfl

theorem flat_of_isDigit (character : Char) (digit : character.isDigit = true) :
    character ∉ delimiters ∧ character ≠ ' ' := by
  refine ⟨not_mem_delimiters_of_isDigit character digit, ?_⟩
  rintro rfl
  exact absurd digit (by decide)

theorem isOuterWord_natural (value : Nat) : IsOuterWord (toString value).toList :=
  isOuterWord_of_flat (QueryReader.forall_mem_natural flat_of_isDigit value)

theorem isOuterWord_number (single : Number.Single) : IsOuterWord single.text.toList :=
  isOuterWord_of_flat
    (QueryReader.forall_mem_text flat_of_isDigit (by simp [delimiters]) single)

theorem isOuterWord_escape (text : String) :
    IsOuterWord (Escaper.standard.escape text).toList :=
  .of_isBalanced (isBalanced_escape text) (by simp [(bareMarks_escape text).2])

theorem isOuterWord_parentheses {text : String} (balanced : IsBalanced text.toList) :
    IsOuterWord ("(" ++ text ++ ")").toList := by
  have enclosed : IsOuterWord ('(' :: (text.toList ++ [')'])) := .enclosed balanced (by decide)
  simpa using enclosed

theorem forall₂_sameSyntax {texts : List String}
    (each : ∀ text ∈ texts, IsBalanced text.toList) : List.Forall₂ SameSyntax texts texts :=
  List.forall₂_same.mpr fun text member => .constant text (each text member)

theorem isBalanced_intercalate {separator : String} (between : IsBalanced separator.toList)
    {texts : List String} (each : ∀ text ∈ texts, IsBalanced text.toList) :
    IsBalanced (String.intercalate separator texts).toList :=
  (SameSyntax.intercalate between (forall₂_sameSyntax each)).balanced

/-! ## Texts without operators -/

def junctionWords : List (List Char) :=
  [['A', 'N', 'D'], ['O', 'R']]

/-- Outside of quotes and brackets no word of a text is an operator. -/
def IsClauseText (text : String) : Prop :=
  IsOuterText junctionWords text.toList

namespace IsClauseText

variable {text other : String}

theorem of_isUnlike (isWord : IsOuterWord text.toList)
    (unlike : IsUnlike junctionWords text.toList) : IsClauseText text :=
  .word isWord unlike.not_mem

theorem empty : IsClauseText "" :=
  .word (by decide) (by decide)

theorem everything : IsClauseText "*:*" :=
  .of_isUnlike (by decide) (by decide)

theorem separated (clause : IsClauseText text) (later : IsClauseText other) :
    IsClauseText (text ++ (" " ++ other)) := by
  have joined := IsOuterText.append clause later
  simpa [IsClauseText] using joined

theorem before (clause : IsClauseText text) (isWord : IsOuterWord other.toList)
    (unlike : IsUnlike junctionWords other.toList) : IsClauseText (other ++ text) := by
  rw [IsClauseText, String.toList_append]
  exact IsOuterText.before clause isWord unlike

theorem suffixed (clause : IsClauseText text) {sign : String} (known : sign ∈ ["^", "~"])
    (isWord : IsOuterWord other.toList) : IsClauseText (text ++ sign ++ other) := by
  have signs : ∀ sign ∈ ["^", "~"],
      IsOuterWord sign.toList ∧ IsUnlike junctionWords sign.toList := by decide
  obtain ⟨signWord, unlike⟩ := signs sign known
  rw [String.append_assoc, IsClauseText, String.toList_append, String.toList_append]
  exact IsOuterText.behind clause (signWord.append isWord) (unlike.append_left _)

theorem escape (text : String) : IsClauseText (Escaper.standard.escape text) := by
  refine .word (isOuterWord_escape text) fun listed => ?_
  have operators : ∀ word ∈ junctionWords, isOperatorWord word = true := by decide
  have ordinary : isOperatorWord (Escaper.standard.escape text).toList = false := by
    rw [Escaper.standard, String.toList_ofList]
    exact Text.isOperatorWord_escapeWord text.toList
  exact Bool.false_ne_true (ordinary.symm.trans (operators _ listed))

theorem quoted (text : String) : IsClauseText (QueryStyle.standard.quoted text) := by
  have isWord : IsOuterWord (QueryStyle.standard.quoted text).toList :=
    .of_isBalanced (SameSyntax.quoted text text).balanced (by simp [(bareMarks_quoted text).2])
  exact of_isUnlike isWord ⟨'"', by simp [QueryStyle.quoted], by decide⟩

theorem natural (value : Nat) : IsClauseText (toString value) := by
  refine .word (isOuterWord_natural value) fun listed => ?_
  have letters : ∀ word ∈ junctionWords, word.all Char.isDigit = false := by decide
  have digits : (toString value).toList.all Char.isDigit = true :=
    List.all_eq_true.mpr (QueryReader.forall_mem_natural (fun _ => id) value)
  exact Bool.false_ne_true ((letters _ listed).symm.trans digits)

theorem parentheses (balanced : IsBalanced text.toList) : IsClauseText ("(" ++ text ++ ")") :=
  of_isUnlike (isOuterWord_parentheses balanced) ⟨'(', by simp, by decide⟩

/-- A text in parentheses with blanks inside. -/
theorem spacedParentheses (balanced : IsBalanced text.toList) :
    IsClauseText ("( " ++ text ++ " )") := by
  have padded : IsBalanced (" " ++ text ++ " ").toList := by
    simp only [String.toList_append]
    exact (IsBalanced.append (by decide) balanced).append (by decide)
  have shape : "( " ++ text ++ " )" = "(" ++ (" " ++ text ++ " ") ++ ")" := by
    apply String.toList_injective
    simp
  rw [shape]
  exact parentheses padded

end IsClauseText

namespace QueryStyle

variable (defaultField : Option String) {body clause : String} {clauses : List String}

theorem isClauseText_named (name : String) (isClause : IsClauseText body) :
    IsClauseText (Escaper.standard.escape name ++ ":" ++ body) := by
  refine isClause.before ?_ ⟨':', by simp, by decide⟩
  rw [String.toList_append]
  exact (isOuterWord_escape name).append (by decide)

theorem isClauseText_inField (isClause : IsClauseText body) (field : Option String) :
    IsClauseText ((escaping defaultField).inField field body) := by
  rw [inField, writtenField_eq, escaping]
  cases spokenField defaultField field with
  | none => exact isClause
  | some name => exact isClauseText_named name isClause

theorem isClauseText_inFieldOf (isClause : IsClauseText body) (term : Term) :
    IsClauseText ((escaping defaultField).inFieldOf term body) := by
  unfold inFieldOf
  split
  · exact isClause
  · exact isClauseText_inField defaultField isClause term.field

theorem isClauseText_inFieldOfFirst (isClause : IsClauseText body) (terms : List Term) :
    IsClauseText ((escaping defaultField).inFieldOfFirst terms body) := by
  cases terms with
  | nil => exact .empty
  | cons first _ => exact isClauseText_inFieldOf defaultField isClause first

theorem isClauseText_leaf (bottom : Leaf Similarity) :
    IsClauseText ((escaping defaultField).leaf bottom) := by
  have word (term : Term) : IsClauseText ((escaping defaultField).word term) :=
    isClauseText_inFieldOf defaultField (.escape term.text) term
  cases bottom with
  | field term => exact word term
  | quotedField term => exact isClauseText_inFieldOf defaultField (.quoted term.text) term
  | fuzzy term similarity _ => exact (word term).suffixed (by decide) (isOuterWord_number _)
  | matchAll => exact .everything
  | matchNone => exact .empty

theorem isClauseText_multiPhrase (terms : List Term) :
    IsClauseText ((escaping defaultField).multiPhrase terms) := by
  apply isClauseText_inFieldOfFirst
  generalize groupByPosition (terms.map fun term => (term.position, term.text)) = groups
  have balanced : IsBalanced
      (String.intercalate " " ((escaping defaultField).slots groups)).toList :=
    (SameSyntax.intercalate (by decide) (forall₂_slotsFrom defaultField 1 groups)).balanced
  have enclosed : IsOuterWord ('\x7b' :: (_ ++ ['\x7d'])) := .enclosed balanced (by decide)
  exact .of_isUnlike (by simpa using enclosed) ⟨'\x7b', by simp, by decide⟩

theorem isClauseText_unit (found : ProximityUnit) : IsClauseText found.keyword := by
  have within : IsClauseText "WITHIN" := .of_isUnlike (by decide) (by decide)
  cases found with
  | paragraph =>
      have reach : IsClauseText "PARAGRAPH" := .of_isUnlike (by decide) (by decide)
      simpa [ProximityUnit.keyword] using within.separated reach
  | sentence =>
      have reach : IsClauseText "SENTENCE" := .of_isUnlike (by decide) (by decide)
      simpa [ProximityUnit.keyword] using within.separated reach
  | number => exact within

/-- The clauses that are near each other are in parentheses, and words follow them. -/
theorem isClauseText_unnamed (style : QueryStyle) (near : Proximity)
    (balanced : ∀ clause ∈ clauses, IsBalanced clause.toList) :
    IsClauseText (style.proximity { near with field := none } clauses) := by
  have inside : IsBalanced (String.intercalate " " clauses).toList :=
    isBalanced_intercalate (by decide) balanced
  simp only [proximity, writtenField]
  generalize String.intercalate " " clauses = joined at inside ⊢
  have inUnit : IsClauseText ("( " ++ joined ++ " ) " ++ near.reach.unit.keyword) := by
    have shape : "( " ++ joined ++ " ) " ++ near.reach.unit.keyword =
        "( " ++ joined ++ " )" ++ (" " ++ near.reach.unit.keyword) :=
      String.toList_injective (by simp)
    rw [shape]
    exact (IsClauseText.spacedParentheses inside).separated (isClauseText_unit near.reach.unit)
  have inOrder : IsClauseText "INORDER" := .of_isUnlike (by decide) (by decide)
  cases near.reach.distance? with
  | none =>
      cases near.inOrder with
      | false => simpa using inUnit
      | true => simpa using inUnit.separated inOrder
  | some distance =>
      have within := inUnit.separated (.natural distance.toNat)
      cases near.inOrder with
      | false => simpa using within
      | true => simpa using within.separated inOrder

theorem isClauseText_proximity (near : Proximity)
    (balanced : ∀ clause ∈ clauses, IsBalanced clause.toList) :
    IsClauseText ((escaping defaultField).proximity near clauses) := by
  have unnamed := isClauseText_unnamed (escaping defaultField) near balanced
  rw [proximity_eq, writtenField_eq, escaping]
  cases spokenField defaultField near.field with
  | none => exact unnamed
  | some name =>
      have same := sameSyntax_unnamed defaultField near (forall₂_sameSyntax balanced)
      exact isClauseText_named name (.parentheses same.balanced)

/-- Of a junction in a junction, the clauses are in parentheses. -/
theorem isClauseText_junction (operator : Operator) {enclosing : Option Kind}
    (boxed : enclosing.all Kind.isGroup = false)
    (balanced : ∀ clause ∈ clauses, IsBalanced clause.toList) :
    IsClauseText (junction operator enclosing clauses) := by
  have joined : IsBalanced (String.intercalate operator.separator
      (clauses.filter fun clause => !clause.isEmpty)).toList := by
    refine isBalanced_intercalate (by cases operator <;> decide) fun clause member => ?_
    exact balanced clause (List.mem_of_mem_filter member)
  simp only [junction, boxed]
  split
  · exact .empty
  · exact .spacedParentheses joined

theorem isClauseText_modified (modifier : Modifier) (child : Kind) (isClause : IsClauseText clause)
    (balanced : IsBalanced clause.toList) : IsClauseText (modified modifier child clause) := by
  have signed {text : String} (isText : IsClauseText text) :
      IsClauseText (modifier.sign ++ text) := by
    cases modifier with
    | neutral => simpa [Modifier.sign] using isText
    | negated => exact isText.before (by decide) (by decide)
    | required => exact isText.before (by decide) (by decide)
  unfold modified
  split
  · cases modifier with
    | neutral => simpa [Modifier.keyword] using isClause
    | negated =>
        have word : IsClauseText "NOT" := .of_isUnlike (by decide) (by decide)
        simpa only [Modifier.keyword, ← String.append_assoc, String.reduceAppend] using
          word.separated isClause
    | required => exact signed isClause
  · split
    · have bracketed := signed (.parentheses balanced)
      simpa [String.append_assoc] using bracketed
    · exact signed isClause

/-- A group needs no more of its clause than that it is balanced. -/
theorem isClauseText_wrapper (child : Kind) (around : Wrapper)
    (isClause : around ≠ .group → IsClauseText clause) (balanced : IsBalanced clause.toList) :
    IsClauseText (wrapper child clause around) := by
  cases around with
  | group => exact .spacedParentheses balanced
  | modifier modifier =>
      exact isClauseText_modified modifier child (isClause nofun) balanced
  | boost factor => exact (isClause nofun).suffixed (by decide) (isOuterWord_number factor)
  | slop value => exact (isClause nofun).suffixed (by decide) (isOuterWord_natural _)

end QueryStyle

/-! ## Trees -/

namespace Branch

variable {defaultField : Option String} {branch : Branch}

theorem isBalanced_write_of_mem (defaultField : Option String) {children : List Branch}
    (builtIn : ∀ child ∈ children, child.IsBuiltIn) :
    ∀ clause ∈ children.map (write (escaping defaultField)), IsBalanced clause.toList := by
  intro clause member
  obtain ⟨child, listed, rfl⟩ := List.mem_map.mp member
  exact (child.sameSyntax_write defaultField (builtIn child listed)).balanced

/-- A tree shows no operator outside of quotes and brackets, unless it is a junction
without parentheses of its own. -/
theorem isClauseText_write (builtIn : branch.IsBuiltIn) (linked : branch.IsLinked)
    (boxed : branch.isBare = false) : IsClauseText (branch.write (escaping defaultField)) := by
  induction branch with
  | node id kind enclosing children inductionHypothesis =>
      have below := (isBuiltIn_node.mp builtIn).2
      have balanced := isBalanced_write_of_mem defaultField below
      cases kind with
      | leaf bottom => exact QueryStyle.isClauseText_leaf defaultField bottom
      | wrapper around =>
          cases children with
          | nil => exact .empty
          | cons child others =>
              have listed : child ∈ child :: others := List.mem_cons_self
              rw [write_wrapper_cons]
              -- Below a group a junction stands bare, but the group has its own parentheses.
              refine QueryStyle.isClauseText_wrapper child.kind around (fun other => ?_)
                (balanced _ (List.mem_map_of_mem listed))
              have ungrouped : (Kind.wrapper around).isGroup = false := by
                cases around <;> simp_all [Kind.isGroup]
              exact inductionHypothesis child listed (below child listed) (linked.child listed)
                (linked.isBare_child listed ungrouped)
      | composite above =>
          rw [write, writeAll_eq_map]
          cases above with
          | junction operator => exact QueryStyle.isClauseText_junction operator boxed balanced
          | tokenizedPhrase =>
              exact QueryStyle.isClauseText_inFieldOfFirst defaultField (.quoted _) _
          | multiPhrase => exact QueryStyle.isClauseText_multiPhrase defaultField _
          | proximity near => exact QueryStyle.isClauseText_proximity defaultField near balanced
      | extension custom => exact absurd rfl ((isBuiltIn_node.mp builtIn).1 custom)

end Branch

def Operator.inWords : List Operator :=
  [.conjunction, .disjunction]

namespace Operator

variable {operator other : Operator}

theorem exists_word (inWords : operator ∈ inWords) :
    ∃ word ∈ junctionWords, operator.separator.toList = spaced word ∧ IsPlainWord word := by
  simp only [Operator.inWords, List.mem_cons, List.not_mem_nil, or_false] at inWords
  rcases inWords with rfl | rfl
  · exact ⟨['A', 'N', 'D'], by decide, by decide, by decide, by decide⟩
  · exact ⟨['O', 'R'], by decide, by decide, by decide, by decide⟩

theorem mem_junctionWords (inWords : operator ∈ inWords) {word : List Char}
    (separates : operator.separator.toList = spaced word) : word ∈ junctionWords := by
  obtain ⟨listed, known, listedSeparates, _⟩ := exists_word inWords
  have same := separates.symm.trans listedSeparates
  have isListed : word = listed := by simpa [spaced] using same
  rwa [isListed]

theorem separator_injective (same : operator.separator.toList = other.separator.toList) :
    operator = other := by
  cases operator <;> cases other <;> first | rfl | exact absurd same (by decide)

end Operator

/-- Clauses that are joined by an operator show no other operator. -/
theorem isOuterText_joined {operator other : Operator} (inWords : operator ∈ Operator.inWords)
    (otherInWords : other ∈ Operator.inWords) (others : other ≠ operator) {word : List Char}
    (separates : other.separator.toList = spaced word) {clauses : List String}
    (some : clauses ≠ []) (each : ∀ clause ∈ clauses, IsClauseText clause) :
    IsOuterText [word] (String.intercalate operator.separator clauses).toList := by
  obtain ⟨own, _, ownSeparates, plain⟩ := Operator.exists_word inWords
  have known := Operator.mem_junctionWords otherInWords separates
  have apart : ∀ clause ∈ clauses.map String.toList, IsOuterText [word] clause := by
    rw [List.forall_mem_map]
    intro clause member
    exact IsOuterText.mono (each clause member) (List.forall_mem_singleton.mpr known)
  have different : own ∉ [word] := by
    intro same
    rw [List.mem_singleton.mp same, ← separates] at ownSeparates
    exact others (Operator.separator_injective ownSeparates.symm)
  rw [String.toList_intercalate, ownSeparates]
  exact isOuterText_intercalate plain.outer different (by simpa using some) apart

/-- The clauses of a node are the parts of a text between the places of its operator
outside of quotes and brackets, where the other operators do not stand. -/
structure AreParts (clauses : List String) (operator : Operator) (text : String) : Prop where
  parts : outerParts operator.separator.toList text.toList = clauses.map String.toList
  whole : ∀ other ∈ Operator.inWords, other ≠ operator →
    outerParts other.separator.toList text.toList = [text.toList]
  absent : ∀ other ∈ Operator.inWords, other ≠ operator → ∀ word,
    other.separator.toList = spaced word → word ∉ outerParts [' '] text.toList

/-- Clauses without operators are the parts of what they are joined to. -/
theorem areParts_intercalate {operator : Operator} (inWords : operator ∈ Operator.inWords)
    {clauses : List String} (some : clauses ≠ [])
    (each : ∀ clause ∈ clauses, IsClauseText clause) :
    AreParts clauses operator (String.intercalate operator.separator clauses) := by
  constructor
  · obtain ⟨word, known, separates, plain⟩ := Operator.exists_word inWords
    rw [String.toList_intercalate, separates]
    exact outerParts_intercalate plain known (by simpa using some) (List.forall_mem_map.mpr each)
  · intro other otherInWords others
    obtain ⟨word, _, separates, plain⟩ := Operator.exists_word otherInWords
    rw [separates]
    exact outerParts_eq_singleton plain List.mem_cons_self
      (isOuterText_joined inWords otherInWords others separates some each)
  · intro other otherInWords others word separates found
    have outer := isOuterText_joined inWords otherInWords others separates some each
    exact not_mem_reserved_of_mem_outerParts outer found List.mem_cons_self

namespace Branch

def shownClauses (style : QueryStyle) (branch : Branch) : List String :=
  (branch.children.map (write style)).filter fun clause => !clause.isEmpty

/-- A text is what a branch writes, or what it writes between its own parentheses. -/
def IsContentOf (branch : Branch) (text : String) (style : QueryStyle) : Prop :=
  branch.write style =
    if branch.enclosing.all Kind.isGroup then text else "( " ++ text ++ " )"

variable {defaultField : Option String} {branch : Branch}

/-- The clauses of a junction that is written stand apart. -/
theorem exists_areParts (builtIn : branch.IsBuiltIn) (linked : branch.IsLinked)
    {operator : Operator} (inWords : operator ∈ Operator.inWords)
    (joins : branch.kind = .composite (.junction operator))
    (written : branch.write (escaping defaultField) ≠ "") :
    ∃ text, branch.IsContentOf text (escaping defaultField) ∧
      AreParts (branch.shownClauses (escaping defaultField)) operator text := by
  cases branch with
  | node id kind enclosing children =>
      cases joins
      have shows : (node id (.composite (.junction operator)) enclosing children).write
          (escaping defaultField) =
            QueryStyle.junction operator enclosing
              (children.map (write (escaping defaultField))) := by
        rw [write, writeAll_eq_map, QueryStyle.composite]
      rw [shows, QueryStyle.junction] at written
      have some : ((children.map (write (escaping defaultField))).filter
          fun clause => !clause.isEmpty) ≠ [] := by
        intro absent
        simp [absent] at written
      refine ⟨_, ?_, areParts_intercalate inWords some fun clause member => ?_⟩
      · rw [IsContentOf, shows, QueryStyle.junction]
        simp only [List.isEmpty_iff, some, if_false]
        rfl
      · obtain ⟨child, listed, rfl⟩ := List.mem_map.mp (List.mem_of_mem_filter member)
        exact isClauseText_write (builtIn.child listed) (linked.child listed)
          (linked.isBare_child listed rfl)

end Branch

namespace Forest

/-- In a sound forest the clauses of every conjunction and every disjunction that is
written can be told apart, if no user has defined a node below it. -/
theorem Sound.clauses_stand_apart {forest : Forest} (sound : forest.Sound) {id : NodeId}
    (inside : id < forest.size) :
    ∃ branch, forest.branch id = .ok branch ∧
      (branch.IsBuiltIn → ∀ defaultField, ∀ operator ∈ Operator.inWords,
        branch.kind = .composite (.junction operator) →
        branch.write (escaping defaultField) ≠ "" →
          ∃ text, branch.IsContentOf text (escaping defaultField) ∧
            AreParts (branch.shownClauses (escaping defaultField)) operator text) := by
  obtain ⟨branch, read, _⟩ := sound.exists_branch inside
  have linked := (mirrors_of_branchWithin read).2.isLinked sound
  refine ⟨branch, read, fun builtIn defaultField operator inWords joins written => ?_⟩
  exact branch.exists_areParts builtIn linked inWords joins written

/-- A conjunction of an operator as a word, a disjunction of texts that look like
junctions, nothing, and a disjunction that is not wanted. -/
def tangled : Forest :=
  Operation.runAll .empty
    [.add (.leaf (.field { text := "AND" })), .add (.leaf (.field { text := "x AND y" })),
      .add (.leaf (.quotedField { text := "\" OR (" })),
      .addWithChildren (.composite (.junction .disjunction)) [1, 2], .add (.leaf .matchNone),
      .add (.leaf (.field { field := some "or", text := "a" })),
      .add (.leaf (.field { text := "b" })),
      .addWithChildren (.composite (.junction .disjunction)) [5, 6],
      .addWithChildren (.wrapper (.modifier .negated)) [7],
      .addWithChildren (.composite (.junction .conjunction)) [0, 3, 4, 8]]

def tangledTree : Branch :=
  let all := Kind.composite (.junction .conjunction)
  let any := Kind.composite (.junction .disjunction)
  let unwanted := Kind.wrapper (.modifier .negated)
  .node 9 all none
    [.node 0 (.leaf (.field { text := "AND" })) (some all) [],
      .node 3 any (some all)
        [.node 1 (.leaf (.field { text := "x AND y" })) (some any) [],
          .node 2 (.leaf (.quotedField { text := "\" OR (" })) (some any) []],
      .node 4 (.leaf .matchNone) (some all) [],
      .node 8 unwanted (some all)
        [.node 7 any (some unwanted)
          [.node 5 (.leaf (.field { field := some "or", text := "a" })) (some any) [],
            .node 6 (.leaf (.field { text := "b" })) (some any) []]]]

theorem clauses_stand_apart_tangled :
    tangled.Sound ∧ 9 < tangled.size ∧ tangled.branch 9 = .ok tangledTree ∧
      tangledTree.IsBuiltIn ∧
      tangledTree.write (escaping none) =
        "\\AND AND ( x\\ AND\\ y OR \"\\\" OR (\" ) AND NOT ( \\or:a OR b )" ∧
      AreParts ["\\AND", "( x\\ AND\\ y OR \"\\\" OR (\" )", "NOT ( \\or:a OR b )"] .conjunction
        (tangledTree.write (escaping none)) := by
  have sound : tangled.Sound := Operation.sound_runAll sound_empty _
  have inside : 9 < tangled.size := by decide
  have shown : tangled.branch 9 = .ok tangledTree := rfl
  have builtIn : tangledTree.IsBuiltIn := by simp [tangledTree, Branch.isBuiltIn_node]
  have written : tangledTree.write (escaping none) =
      "\\AND AND ( x\\ AND\\ y OR \"\\\" OR (\" ) AND NOT ( \\or:a OR b )" := by decide +kernel
  have clauses : tangledTree.shownClauses (escaping none) =
      ["\\AND", "( x\\ AND\\ y OR \"\\\" OR (\" )", "NOT ( \\or:a OR b )"] := by decide +kernel
  obtain ⟨branch, read, apart⟩ := sound.clauses_stand_apart inside
  cases shown.symm.trans read
  obtain ⟨text, content, parts⟩ :=
    apart builtIn none .conjunction List.mem_cons_self rfl (by rw [written]; decide)
  refine ⟨sound, inside, shown, builtIn, written, ?_⟩
  rw [← clauses, content.trans (if_pos rfl)]
  exact parts

end Forest

end QueryForest
