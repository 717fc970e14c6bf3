import QueryForest.Proofs.Syntax.Marks

/-!
# Escapes are undone

Whatever the text, what an escaper writes for it is read back, shows no syntax of its
own and is no operator.  So a term is found again in what is written for its leaf: the
field stands before the first bare colon, and the text behind it.
-/

namespace QueryForest

open QueryReader (Passes passes_backslash passes_escapeWord wordText)
open QueryStyle (bareMarks_quoted)

namespace Text

theorem backslash_of_clean {special : Char → Bool} {text : List Char}
    (clean : ∀ character ∈ text, special character = false) : backslash special text = text := by
  induction text with
  | nil => rfl
  | cons head tail inductionHypothesis =>
      obtain ⟨ofHead, ofTail⟩ := List.forall_mem_cons.mp clean
      rw [backslash, ofHead, if_neg Bool.false_ne_true, inductionHypothesis ofTail]

/-- Where a special character was, there is a backslash. -/
theorem mem_backslash {special : Char → Bool} {text : List Char} {character : Char}
    (member : character ∈ text) (isSpecial : special character = true) :
    '\\' ∈ backslash special text := by
  induction text with
  | nil => cases member
  | cons head tail inductionHypothesis =>
      rw [backslash]
      rcases List.mem_cons.mp member with rfl | later
      · simp [isSpecial]
      · split <;> simp [inductionHypothesis later]

theorem not_mem_of_isOperatorWord {word : List Char} (operator : isOperatorWord word = true) :
    '\\' ∉ word := by
  intro member
  have upper : '\\' ∈ word.map Char.toUpper := List.mem_map.mpr ⟨'\\', member, by decide⟩
  simp only [isOperatorWord, operatorWords, List.contains_eq_mem, List.mem_cons,
    List.not_mem_nil, or_false, decide_eq_true_eq] at operator
  rcases operator with same | same | same <;>
    exact absurd (same ▸ upper) (by decide)

/-- What is written for a word is no operator, in any case of its letters. -/
theorem isOperatorWord_escapeWord (word : List Char) :
    isOperatorWord (escapeWord word) = false := by
  apply Bool.eq_false_iff.mpr
  intro operator
  have plain := not_mem_of_isOperatorWord operator
  rw [escapeWord] at operator plain
  split at plain
  · exact plain List.mem_cons_self
  · next ordinary =>
      rw [if_neg ordinary, backslash_of_clean] at operator
      · exact ordinary operator
      · intro character member
        apply Bool.eq_false_iff.mpr
        intro special
        exact plain (mem_backslash member special)

/-- What stands before and behind the first bare colon. -/
def atColon? (standing : Standing) : List Char → Option (List Char × List Char)
  | [] => none
  | head :: tail =>
      if head = ':' ∧ standing.marks ':' then
        some ([], tail)
      else
        (atColon? (standing.next head) tail).map fun (before, behind) => (head :: before, behind)

/-- The text that a bare or quoted word stands for. -/
def bodyText (body : List Char) : String :=
  String.ofList (unescape (if body.head? = some '"' then body.tail.dropLast else body))

/-- The field and the text that a leaf is written with. -/
def readTerm (text : List Char) : Option String × String :=
  match atColon? {} text with
  | some (field, body) => (some (String.ofList (unescape field)), bodyText body)
  | none => (none, bodyText text)

/-- Text without a bare colon is passed over. -/
theorem atColon?_append {standing : Standing} {text : List Char}
    (unmarked : ':' ∉ standing.bareMarks text) (rest : List Char) :
    atColon? standing (text ++ rest) =
      (atColon? (standing.after text) rest).map fun (before, behind) =>
        (text ++ before, behind) := by
  induction text generalizing standing with
  | nil => simp
  | cons head tail inductionHypothesis =>
      have passed : ¬ (head = ':' ∧ standing.marks ':' = true) := by
        rintro ⟨rfl, marked⟩
        simp [Standing.bareMarks, marked] at unmarked
      have later : ':' ∉ (standing.next head).bareMarks tail := by
        rw [Standing.bareMarks] at unmarked
        split at unmarked
        · exact fun member => unmarked (List.mem_cons_of_mem head member)
        · exact unmarked
      rw [List.cons_append, atColon?, if_neg passed, inductionHypothesis later, Option.map_map,
        Standing.after_cons]
      rfl

end Text

section Leaves

open Text (Standing atColon? atColon?_append bodyText isOperatorWord isSpecial readTerm unescape)

theorem bareMarks_wordText (text : String) :
    Standing.after {} (wordText text) = {} ∧ Standing.bareMarks {} (wordText text) = [] := by
  rw [← QueryStyle.toList_escape]
  exact Escaper.bareMarks_escape text

theorem bareMarks_quotedText (text : String) :
    Standing.bareMarks {} (quotedText text.toList) = ['"', '"'] := by
  rw [← QueryStyle.toList_quoted]
  exact (bareMarks_quoted text).2

theorem atColon?_wordText (name : String) (body : List Char) :
    atColon? {} (wordText name ++ ':' :: body) = some (wordText name, body) := by
  obtain ⟨ends, unmarked⟩ := bareMarks_wordText name
  have colon : atColon? {} (':' :: body) = some ([], body) := by
    rw [atColon?, if_pos ⟨rfl, by decide⟩]
  rw [atColon?_append (by simp [unmarked]), ends, colon]
  simp

theorem atColon?_eq_none {body : List Char} (unmarked : ':' ∉ Standing.bareMarks {} body) :
    atColon? {} body = none := by
  have whole := atColon?_append unmarked []
  rwa [List.append_nil, atColon?, Option.map_none] at whole

theorem bodyText_wordText (text : String) : bodyText (wordText text) = text := by
  have bare : (wordText text).head? ≠ some '"' := by
    intro quote
    obtain ⟨tail, shape⟩ := List.head?_eq_some_iff.mp quote
    have unmarked := (bareMarks_wordText text).2
    rw [shape, Standing.bareMarks, if_pos (by decide)] at unmarked
    cases unmarked
  rw [bodyText, if_neg bare, wordText, Text.unescape_escapeWord, String.ofList_toList]

theorem bodyText_quotedText (text : String) : bodyText (quotedText text.toList) = text := by
  rw [bodyText, quotedText, List.head?_cons, if_pos rfl, List.tail_cons, List.dropLast_concat,
    Text.unescape_escapeQuotedText, String.ofList_toList]

theorem readTerm_fieldText (field : Option String) {body : List Char}
    (unmarked : ':' ∉ Standing.bareMarks {} body) :
    readTerm (fieldText field body) = (field, bodyText body) := by
  cases field with
  | none => rw [fieldText, readTerm, atColon?_eq_none unmarked]
  | some name =>
      rw [fieldText, readTerm, atColon?_wordText]
      simp only [wordText, Text.unescape_escapeWord, String.ofList_toList]

/-- What is written for a term shows its named field and its text. -/
theorem Branch.readTerm_chars {branch : Branch} {term : Term}
    (leaf : branch.kind = .leaf (.field term) ∨ branch.kind = .leaf (.quotedField term))
    (shown : term.ignoreField = false) :
    readTerm branch.chars = (namedField term.field, term.text) := by
  obtain ⟨id, kind, enclosing, children⟩ := branch
  have field : term.shownField = namedField term.field := by
    rw [Term.shownField, shown, if_neg Bool.false_ne_true]
  rcases leaf with leaf | leaf
  · cases leaf
    rw [chars_field, readTerm_fieldText _ (by simp [(bareMarks_wordText term.text).2]), field,
      bodyText_wordText]
  · cases leaf
    rw [chars_quotedField, readTerm_fieldText _ (by simp [bareMarks_quotedText]), field,
      bodyText_quotedText]

/-- Escaping is undone by taking the backslashes away.  No special character and no
blank of an escaped word is bare, an escaped word is no operator, and an escaped text
between quotes has no bare quote.  So the field and the text of a term are found in what
is written for its leaf. -/
theorem Escaper.standard_is_undone :
    (∀ text : String,
      unescape (standard.escape text).toList = text.toList ∧
      unescape (standard.escapeQuoted text).toList = text.toList ∧
      Passes isSpecial (standard.escape text).toList ∧
      isOperatorWord (standard.escape text).toList = false ∧
      Passes (· = '"') (standard.escapeQuoted text).toList) ∧
    ∀ (branch : Branch) (term : Term),
      (branch.kind = .leaf (.field term) ∨ branch.kind = .leaf (.quotedField term)) →
        term.ignoreField = false →
          readTerm branch.standardText.toList = (namedField term.field, term.text) := by
  refine ⟨fun text => ?_, fun branch term leaf shown => Branch.readTerm_chars leaf shown⟩
  have escaped : (standard.escape text).toList = Text.escapeWord text.toList :=
    String.toList_ofList
  have quoted : (standard.escapeQuoted text).toList = Text.escapeQuotedText text.toList :=
    String.toList_ofList
  rw [escaped, quoted]
  refine ⟨Text.unescape_escapeWord _, Text.unescape_escapeQuotedText _,
    passes_escapeWord (fun _ => id) _, Text.isOperatorWord_escapeWord _,
    passes_backslash (by decide) ?_ _⟩
  simp [Text.isSpecialQuoted]

/-- A quoted text with quotes and colons in it, in a field named like an operator. -/
def quotation : Branch :=
  .node 0 (.leaf (.quotedField { field := some "or", text := "a\" b\\:c" })) none []

theorem Escaper.standard_is_undone_quotation :
    quotation.standardText = "\\or:\"a\\\" b\\\\:c\"" ∧
      readTerm quotation.standardText.toList = (some "or", "a\" b\\:c") ∧
      isOperatorWord (standard.escape "Not").toList = false := by
  obtain ⟨words, terms⟩ := Escaper.standard_is_undone
  have written : quotation.standardText = "\\or:\"a\\\" b\\\\:c\"" := by decide +kernel
  exact ⟨written, terms quotation _ (.inr rfl) rfl, (words "Not").2.2.2.1⟩

end Leaves

end QueryForest
