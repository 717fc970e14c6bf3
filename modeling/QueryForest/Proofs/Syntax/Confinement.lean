import QueryForest.Proofs.Syntax.Marks
import QueryForest.Proofs.View.Spoken

/-!
# Words do not become syntax

The bare marks of a written tree do not depend on its words: they are the same for
every other tree that differs in texts and in names of fields only.  Whatever the
words are, the brackets among the marks are balanced.
-/

namespace QueryForest

open Escaper (bareMarks_escape escape_eq_empty_iff isBalanced_escape)
open QueryStyle (bareMarks_quoted)
open Text (IsBalanced Standing delimiters isBalanced_of_flat not_mem_delimiters_of_isDigit)

/-- Two texts are balanced and have the same bare marks, and neither or both are
empty. -/
structure SameSyntax (text other : String) : Prop where
  balanced : IsBalanced text.toList
  ends : Standing.after {} other.toList = {}
  marks : Standing.bareMarks {} text.toList = Standing.bareMarks {} other.toList
  empty : text = "" ↔ other = ""

namespace SameSyntax

variable {text other : String}

theorem constant (text : String) (balanced : IsBalanced text.toList) : SameSyntax text text :=
  ⟨balanced, balanced.ends, rfl, .rfl⟩

theorem append {later otherLater : String} (same : SameSyntax text other)
    (sameLater : SameSyntax later otherLater) :
    SameSyntax (text ++ later) (other ++ otherLater) where
  balanced := by
    rw [String.toList_append]
    exact same.balanced.append sameLater.balanced
  ends := by simp [same.ends, sameLater.ends]
  marks := by simp [same.balanced.ends, same.ends, same.marks, sameLater.marks]
  empty := by simp [same.empty, sameLater.empty]

theorem enclosed {opening closing : String}
    (pair : IsBalanced (opening.toList ++ closing.toList))
    (opens : Standing.after {} opening.toList = {}) (same : SameSyntax text other) :
    SameSyntax (opening ++ text ++ closing) (opening ++ other ++ closing) where
  balanced := by
    simp only [String.toList_append]
    exact pair.enclosed opens same.balanced
  ends := by
    have ends := pair.ends
    simp only [Standing.after_append, opens] at ends
    simp [opens, same.ends, ends]
  marks := by simp [opens, same.balanced.ends, same.ends, same.marks]
  empty := by simp [same.empty]

theorem intercalate {separator : String} (between : IsBalanced separator.toList)
    {texts others : List String} (same : List.Forall₂ SameSyntax texts others) :
    SameSyntax (String.intercalate separator texts) (String.intercalate separator others) := by
  induction same with
  | nil =>
      simp only [String.intercalate_nil]
      exact constant "" (by decide)
  | cons first rest inductionHypothesis =>
      cases rest with
      | nil => simpa only [String.intercalate_singleton] using first
      | cons second others =>
          simp only [String.intercalate_cons_cons]
          exact (first.append (constant separator between)).append inductionHypothesis

theorem escape (empty : text = "" ↔ other = "") :
    SameSyntax (Escaper.standard.escape text) (Escaper.standard.escape other) where
  balanced := isBalanced_escape text
  ends := (bareMarks_escape other).1
  marks := by rw [(bareMarks_escape text).2, (bareMarks_escape other).2]
  empty := by rw [escape_eq_empty_iff, escape_eq_empty_iff, empty]

/-- Field names may be anything in front of a colon, and empty as well. -/
theorem fieldName (name otherName : String) :
    SameSyntax (Escaper.standard.escape name ++ ":")
      (Escaper.standard.escape otherName ++ ":") where
  balanced := by
    rw [String.toList_append]
    exact (isBalanced_escape name).append (by decide)
  ends := by
    rw [String.toList_append, Standing.after_append, (bareMarks_escape otherName).1]
    decide
  marks := by simp [bareMarks_escape]
  empty := by simp

theorem quoted (text other : String) :
    SameSyntax (QueryStyle.standard.quoted text) (QueryStyle.standard.quoted other) where
  balanced := by
    refine ⟨(bareMarks_quoted text).1, ?_⟩
    rw [(bareMarks_quoted text).2]
    decide
  ends := (bareMarks_quoted other).1
  marks := by rw [(bareMarks_quoted text).2, (bareMarks_quoted other).2]
  empty := by simp [QueryStyle.quoted]

theorem natural (value : Nat) : SameSyntax (toString value) (toString value) := by
  apply constant
  apply isBalanced_of_flat
  exact QueryReader.forall_mem_natural not_mem_delimiters_of_isDigit value

theorem number (single : Number.Single) : SameSyntax single.text single.text := by
  apply constant
  apply isBalanced_of_flat
  exact QueryReader.forall_mem_text not_mem_delimiters_of_isDigit (by simp [delimiters]) single

end SameSyntax

/-! ## Redacted trees -/

/-- Every text that is not empty becomes one letter, and so does the name of every
field that is written. -/
def Rewording.redacted (defaultField : Option String) : Rewording where
  field field := (spokenField defaultField field).map fun _ => "x"
  text text := if text = "" then "" else "x"

/-- A tree without its words, in which all nodes have one name. -/
def Branch.redacted (defaultField : Option String) (branch : Branch) : Branch :=
  branch.reworded (.redacted defaultField) fun _ => 0

namespace QueryStyle

def escaping (defaultField : Option String) : QueryStyle :=
  { escaper := .standard, defaultField }

variable (defaultField : Option String) {body otherBody : String}

theorem writtenField_redacted (field : Option String) :
    standard.writtenField ((Rewording.redacted defaultField).field field) =
      (spokenField defaultField field).map fun _ => standard.escaper.escape "x" := by
  simp only [writtenField_eq, standard, Rewording.redacted]
  generalize spokenField defaultField field = spoken
  cases spoken <;> simp [spokenField, plainField]

theorem sameSyntax_inField (same : SameSyntax body otherBody) (field : Option String) :
    SameSyntax ((escaping defaultField).inField field body)
      (standard.inField ((Rewording.redacted defaultField).field field) otherBody) := by
  rw [inField, inField, writtenField_redacted, writtenField_eq, escaping]
  cases spokenField defaultField field with
  | none => exact same
  | some name => exact (SameSyntax.fieldName name "x").append same

theorem sameSyntax_inFieldOf (same : SameSyntax body otherBody) (term : Term) :
    SameSyntax ((escaping defaultField).inFieldOf term body)
      (standard.inFieldOf ((Rewording.redacted defaultField).term term) otherBody) := by
  unfold inFieldOf Rewording.term
  cases term.ignoreField with
  | true => exact same
  | false => exact sameSyntax_inField defaultField same term.field

theorem sameSyntax_word (term : Term) :
    SameSyntax ((escaping defaultField).word term)
      (standard.word ((Rewording.redacted defaultField).term term)) := by
  apply sameSyntax_inFieldOf
  apply SameSyntax.escape
  simp [Rewording.term, Rewording.redacted]

theorem sameSyntax_leaf (bottom : Leaf Similarity) :
    SameSyntax ((escaping defaultField).leaf bottom)
      (standard.leaf (bottom.mapTerm (Rewording.redacted defaultField).term)) := by
  cases bottom with
  | field term => exact sameSyntax_word defaultField term
  | quotedField term => exact sameSyntax_inFieldOf defaultField (.quoted _ _) term
  | fuzzy term similarity exactStart =>
      apply SameSyntax.append _ (.number similarity.value)
      exact (sameSyntax_word defaultField term).append (.constant "~" (by decide))
  | matchAll => exact .constant "*:*" (by decide)
  | matchNone => exact .constant "" (by decide)

theorem sameSyntax_inFieldOfFirst (same : SameSyntax body otherBody) (terms : List Term) :
    SameSyntax ((escaping defaultField).inFieldOfFirst terms body)
      (standard.inFieldOfFirst (terms.map (Rewording.redacted defaultField).term) otherBody) := by
  cases terms with
  | nil => exact .constant "" (by decide)
  | cons first others => exact sameSyntax_inFieldOf defaultField same first

theorem sameSyntax_alternatives (texts : List String) :
    SameSyntax ((escaping defaultField).alternatives texts)
      (standard.alternatives (texts.map (Rewording.redacted defaultField).text)) := by
  unfold alternatives
  apply SameSyntax.intercalate (by decide)
  rw [List.map_map, List.forall₂_map_left_iff, List.forall₂_map_right_iff, List.forall₂_same]
  intro text _
  apply SameSyntax.escape
  simp [Rewording.redacted]

theorem forall₂_slotsFrom (next : Nat) (groups : List (UInt32 × List String)) :
    List.Forall₂ SameSyntax ((escaping defaultField).slotsFrom next groups)
      (standard.slotsFrom next (changeItems (Rewording.redacted defaultField).text groups)) := by
  induction groups generalizing next with
  | nil => simp [changeItems, slotsFrom]
  | cons group tail inductionHypothesis =>
      have unfilled (count : Nat) :
          List.Forall₂ SameSyntax (List.replicate count "?") (List.replicate count "?") := by
        apply List.forall₂_same.mpr
        intro slot member
        rw [List.eq_of_mem_replicate member]
        exact .constant "?" (by decide)
      apply List.rel_append (unfilled _)
      exact .cons (sameSyntax_alternatives defaultField group.2) (inductionHypothesis _)

theorem sameSyntax_multiPhrase (terms : List Term) :
    SameSyntax ((escaping defaultField).multiPhrase terms)
      (standard.multiPhrase (terms.map (Rewording.redacted defaultField).term)) := by
  have groups : groupByPosition ((terms.map (Rewording.redacted defaultField).term).map
        fun term => (term.position, term.text)) =
      changeItems (Rewording.redacted defaultField).text
        (groupByPosition (terms.map fun term => (term.position, term.text))) := by
    rw [← groupByPosition_map, List.map_map, List.map_map]
    simp [Function.comp_def, Rewording.term]
  unfold multiPhrase
  rw [groups]
  apply sameSyntax_inFieldOfFirst
  apply SameSyntax.enclosed (by decide) (by decide)
  apply SameSyntax.intercalate (by decide)
  exact forall₂_slotsFrom defaultField 1 _

variable {clauses otherClauses : List String}

theorem sameSyntax_junction (operator : Operator) (enclosing : Option Kind)
    (same : List.Forall₂ SameSyntax clauses otherClauses) :
    SameSyntax (junction operator enclosing clauses)
      (junction operator enclosing otherClauses) := by
  have present : List.Forall₂ SameSyntax (clauses.filter fun clause => !clause.isEmpty)
      (otherClauses.filter fun clause => !clause.isEmpty) := by
    apply List.rel_filter _ same
    intro clause otherClause pair
    simp [pair.empty]
  unfold junction
  generalize clauses.filter (fun clause => !clause.isEmpty) = shown at present ⊢
  generalize otherClauses.filter (fun clause => !clause.isEmpty) = otherShown at present ⊢
  have joined : SameSyntax (String.intercalate operator.separator shown)
      (String.intercalate operator.separator otherShown) := by
    apply SameSyntax.intercalate _ present
    cases operator <;> decide
  cases present with
  | nil => exact .constant "" (by decide)
  | cons _ _ =>
      cases enclosing.all Kind.isGroup with
      | true => exact joined
      | false => exact joined.enclosed (by decide) (by decide)

/-- A proximity in a field is the one without a field in parentheses. -/
theorem proximity_eq (style : QueryStyle) (near : Proximity) (clauses : List String) :
    style.proximity near clauses =
      (style.writtenField near.field).elim (style.proximity { near with field := none } clauses)
        fun written => written ++ ":" ++
          ("(" ++ style.proximity { near with field := none } clauses ++ ")") := by
  have bracketed (written body : String) :
      written ++ ":(" ++ body ++ ")" = written ++ ":" ++ ("(" ++ body ++ ")") := by
    apply String.toList_injective
    simp
  unfold proximity
  cases style.writtenField near.field with
  | none => rfl
  | some written => exact bracketed written _

theorem sameSyntax_unnamed (near : Proximity)
    (same : List.Forall₂ SameSyntax clauses otherClauses) :
    SameSyntax ((escaping defaultField).proximity { near with field := none } clauses)
      (standard.proximity { near with field := none } otherClauses) := by
  have unit (found : ProximityUnit) : SameSyntax found.keyword found.keyword := by
    apply SameSyntax.constant
    cases found <;> decide
  have inside : SameSyntax ("( " ++ String.intercalate " " clauses ++ " ) ")
      ("( " ++ String.intercalate " " otherClauses ++ " ) ") :=
    (SameSyntax.intercalate (by decide) same).enclosed (by decide) (by decide)
  simp only [proximity, writtenField]
  apply SameSyntax.append
  · apply SameSyntax.append
    · exact inside.append (unit near.reach.unit)
    · cases near.reach.distance? with
      | none => exact .constant "" (by decide)
      | some distance =>
          exact SameSyntax.append (.constant " " (by decide)) (.natural distance.toNat)
  · apply SameSyntax.constant
    cases near.inOrder <;> decide

theorem sameSyntax_proximity (near : Proximity)
    (same : List.Forall₂ SameSyntax clauses otherClauses) :
    SameSyntax ((escaping defaultField).proximity near clauses)
      (standard.proximity { near with field := (Rewording.redacted defaultField).field near.field }
        otherClauses) := by
  have unnamed := sameSyntax_unnamed defaultField near same
  rw [proximity_eq, proximity_eq standard, writtenField_eq, writtenField_redacted, escaping]
  cases spokenField defaultField near.field with
  | none => exact unnamed
  | some name =>
      exact (SameSyntax.fieldName name "x").append (unnamed.enclosed (by decide) (by decide))

theorem sameSyntax_wrapper (child : Kind) (around : Wrapper) {clause otherClause : String}
    (same : SameSyntax clause otherClause) :
    SameSyntax (wrapper child clause around) (wrapper child otherClause around) := by
  have sign (modifier : Modifier) : SameSyntax modifier.sign modifier.sign := by
    apply SameSyntax.constant
    cases modifier <;> decide
  have keyword (modifier : Modifier) : SameSyntax modifier.keyword modifier.keyword := by
    apply SameSyntax.constant
    cases modifier <;> decide
  cases around with
  | group => exact same.enclosed (by decide) (by decide)
  | modifier modifier =>
      unfold wrapper modified
      cases child.isJunction with
      | true => exact (keyword modifier).append same
      | false =>
          cases child.isModifier with
          | true =>
              have bracketed : SameSyntax ("(" ++ clause ++ ")") ("(" ++ otherClause ++ ")") :=
                same.enclosed (by decide) (by decide)
              simpa [String.append_assoc] using (sign modifier).append bracketed
          | false => exact (sign modifier).append same
  | boost factor => exact (same.append (.constant "^" (by decide))).append (.number factor)
  | slop value => exact (same.append (.constant "~" (by decide))).append (.natural value.toNat)

theorem carries_redacted : (Rewording.redacted defaultField).Carries SameSyntax
    (escaping defaultField) standard where
  nothing := .constant "" (by decide)
  leaf := sameSyntax_leaf defaultField
  wrapper child around _ _ same := sameSyntax_wrapper child around same
  composite above enclosing terms clauses otherClauses same := by
    cases above with
    | junction operator => exact sameSyntax_junction operator enclosing same
    | tokenizedPhrase => exact sameSyntax_inFieldOfFirst defaultField (.quoted _ _) terms
    | multiPhrase => exact sameSyntax_multiPhrase defaultField terms
    | proximity near => exact sameSyntax_proximity defaultField near same

end QueryStyle

/-! ## Written trees -/

namespace Branch

open QueryStyle (escaping)

theorem sameSyntax_write (defaultField : Option String) {branch : Branch}
    (builtIn : branch.IsBuiltIn) :
    SameSyntax (branch.write (escaping defaultField))
      ((branch.redacted defaultField).write .standard) := by
  apply write_reworded (QueryStyle.carries_redacted defaultField)
  intro part within custom kind
  exact absurd kind (builtIn part within custom)

/-- Trees that are the same without their words have the same bare marks, whatever
their texts and the names of their fields are. -/
theorem bareMarks_eq_of_redacted_eq {defaultField : Option String} {first second : Branch}
    (firstBuiltIn : first.IsBuiltIn) (secondBuiltIn : second.IsBuiltIn)
    (same : first.redacted defaultField = second.redacted defaultField) :
    Standing.bareMarks {} (first.write (escaping defaultField)).toList =
      Standing.bareMarks {} (second.write (escaping defaultField)).toList := by
  have firstMarks := (sameSyntax_write defaultField firstBuiltIn).marks
  have secondMarks := (sameSyntax_write defaultField secondBuiltIn).marks
  rw [firstMarks, secondMarks, same]

/-- A word in a field, and near each other in the same field a quoted text and a phrase. -/
def search (field text : String) : Branch :=
  let both := Kind.composite (.junction .conjunction)
  let near := Kind.composite (.proximity ⟨some field, .paragraph, true⟩)
  let phrase := Kind.composite .multiPhrase
  .node 6 both none
    [.node 0 (.leaf (.field { field := some field, text })) (some both) [],
      .node 5 near (some both)
        [.node 1 (.leaf (.quotedField { field := some field, text, ignoreField := true }))
            (some near) [],
          .node 4 phrase (some near)
            [.node 2 (.leaf (.field { text })) (some phrase) [],
              .node 3 (.leaf (.field { text, position := 3 })) (some phrase) []]]]

theorem isBuiltIn_search (field text : String) : (search field text).IsBuiltIn := by
  simp [search, isBuiltIn_node]

theorem bareMarks_eq_of_redacted_eq_search :
    (search "a:b" "x) OR \"(y\\").IsBuiltIn ∧ (search "name" "text").IsBuiltIn ∧
      (search "a:b" "x) OR \"(y\\").redacted none = (search "name" "text").redacted none ∧
      Standing.bareMarks {} ((search "a:b" "x) OR \"(y\\").write (escaping none)).toList =
        Standing.bareMarks {} ((search "name" "text").write (escaping none)).toList := by
  have same : (search "a:b" "x) OR \"(y\\").redacted none =
      (search "name" "text").redacted none := rfl
  have hostile := isBuiltIn_search "a:b" "x) OR \"(y\\"
  have harmless := isBuiltIn_search "name" "text"
  exact ⟨hostile, harmless, same, bareMarks_eq_of_redacted_eq hostile harmless same⟩

end Branch

namespace Forest

/-- In a sound forest every node is written to a balanced text if no user has defined
a node below it. -/
theorem Sound.isBalanced_write {forest : Forest} (sound : forest.Sound) {id : NodeId}
    (inside : id < forest.size) :
    ∃ branch, forest.branch id = .ok branch ∧
      (branch.IsBuiltIn → ∀ defaultField,
        IsBalanced (branch.write (.escaping defaultField)).toList) := by
  obtain ⟨branch, read, _⟩ := sound.exists_branch inside
  refine ⟨branch, read, fun builtIn defaultField => ?_⟩
  exact (branch.sameSyntax_write defaultField builtIn).balanced

def search (field text : String) : Forest :=
  Operation.runAll .empty
    [.add (.leaf (.field { field := some field, text })), .add (.leaf (.quotedField { text })),
      .add (.leaf (.field { text })), .add (.leaf (.field { text, position := 3 })),
      .addWithChildren (.composite .multiPhrase) [2, 3],
      .addWithChildren (.composite (.proximity ⟨some field, .paragraph, true⟩)) [1, 4],
      .addWithChildren (.composite (.junction .conjunction)) [0, 5]]

theorem isBalanced_write_search :
    (search "a:b" "x) (\"").Sound ∧ 6 < (search "a:b" "x) (\"").size ∧
      (search "a:b" "x) (\"").branch 6 = .ok (Branch.search "a:b" "x) (\"") ∧
      (Branch.search "a:b" "x) (\"").IsBuiltIn ∧
      IsBalanced ((Branch.search "a:b" "x) (\"").write (.escaping (some "name"))).toList := by
  have sound : (search "a:b" "x) (\"").Sound := Operation.sound_runAll sound_empty _
  have inside : 6 < (search "a:b" "x) (\"").size := by decide
  have shown : (search "a:b" "x) (\"").branch 6 = .ok (Branch.search "a:b" "x) (\"") := rfl
  have builtIn := Branch.isBuiltIn_search "a:b" "x) (\""
  obtain ⟨branch, read, balanced⟩ := sound.isBalanced_write inside
  cases shown.symm.trans read
  exact ⟨sound, inside, shown, builtIn, balanced builtIn (some "name")⟩

end Forest

end QueryForest
