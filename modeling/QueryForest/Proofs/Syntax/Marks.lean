import QueryForest.Proofs.Syntax.Phrases

/-!
# Bare marks

A reader of the query syntax goes through a text from left to right.  A backslash
makes the next character literal, and a bare double quote opens or closes a quoted
part.  The marks that are left, which are the bare quotes and the other syntax
characters and blanks outside quoted parts, decide how the text is read.
-/

namespace QueryForest

namespace Text

/-- Where a reader stands: in a quoted part or not, and behind a backslash or not. -/
structure Standing where
  quoted : Bool := false
  escaped : Bool := false
  deriving DecidableEq

/-- The characters that mean something outside quoted parts, apart from the quote, the
backslash and blanks. -/
def markCharacters : List Char :=
  ['+', '-', '!', '(', ')', ':', '^', '[', ']', '\x7b', '\x7d', '~', '*', '?', '|', '&', '/']

namespace Standing

def next (standing : Standing) (character : Char) : Standing :=
  if standing.escaped then
    { standing with escaped := false }
  else if character = '\\' then
    { standing with escaped := true }
  else if character = '"' then
    { standing with quoted := !standing.quoted }
  else
    standing

def after (standing : Standing) (text : List Char) : Standing :=
  text.foldl next standing

/-- Whether a character is a bare mark where the reader stands. -/
def marks (standing : Standing) (character : Char) : Bool :=
  !standing.escaped && (character = '"' ||
    (!standing.quoted && (markCharacters.contains character || isBlank character)))

/-- The bare marks of a text. -/
def bareMarks (standing : Standing) : List Char → List Char
  | [] => []
  | head :: tail =>
      if standing.marks head then
        head :: (standing.next head).bareMarks tail
      else
        (standing.next head).bareMarks tail

variable (standing : Standing)

@[simp]
theorem after_nil : standing.after [] = standing := by
  simp [after]

@[simp]
theorem after_cons (head : Char) (tail : List Char) :
    standing.after (head :: tail) = (standing.next head).after tail := by
  simp [after]

@[simp]
theorem after_append (first second : List Char) :
    standing.after (first ++ second) = (standing.after first).after second := by
  simp [after]

@[simp]
theorem bareMarks_append (first second : List Char) :
    standing.bareMarks (first ++ second) =
      standing.bareMarks first ++ (standing.after first).bareMarks second := by
  induction first generalizing standing with
  | nil => simp [bareMarks]
  | cons head tail inductionHypothesis =>
      rw [List.cons_append, bareMarks, bareMarks, inductionHypothesis, after_cons]
      split <;> simp

end Standing

/-! ## Brackets -/

/-- An opening bracket adds its counterpart to those that are waited for, and a closing
one has to be the next of them. -/
def bracket (awaited : List Char) (mark : Char) : Option (List Char) :=
  if mark = '(' then
    some (')' :: awaited)
  else if mark = '\x7b' then
    some ('\x7d' :: awaited)
  else if mark = ')' ∨ mark = '\x7d' then
    if awaited.head? = some mark then some awaited.tail else none
  else
    some awaited

def brackets (awaited marks : List Char) : Option (List Char) :=
  marks.foldlM bracket awaited

@[simp]
theorem brackets_nil (awaited : List Char) : brackets awaited [] = some awaited := by
  simp [brackets]

@[simp]
theorem brackets_append (awaited first second : List Char) :
    brackets awaited (first ++ second) =
      (brackets awaited first).bind fun inner => brackets inner second := by
  simp [brackets]

/-- Brackets that are waited for in the end do not matter before. -/
theorem bracket_append {awaited next : List Char} {mark : Char}
    (done : bracket awaited mark = some next) (more : List Char) :
    bracket (awaited ++ more) mark = some (next ++ more) := by
  unfold bracket at done ⊢
  split at done
  · cases done
    simp_all
  · split at done
    · cases done
      simp_all
    · cases awaited with
      | nil => simp_all
      | cons head tail =>
          split at done
          · split at done <;> simp_all
          · simp_all

theorem brackets_awaited {awaited rest marks : List Char}
    (done : brackets awaited marks = some rest) (more : List Char) :
    brackets (awaited ++ more) marks = some (rest ++ more) := by
  induction marks generalizing awaited with
  | nil => simp_all
  | cons head tail inductionHypothesis =>
      rw [brackets, List.foldlM_cons] at done ⊢
      obtain ⟨next, stepped, later⟩ := Option.bind_eq_some_iff.mp done
      rw [bracket_append stepped more]
      exact inductionHypothesis later

/-- The brackets outside quoted parts are closed in the order in which they have to be,
and at the end no bracket, no quote and no escape is open. -/
structure IsBalanced (text : List Char) : Prop where
  ends : Standing.after {} text = {}
  closes : brackets [] (Standing.bareMarks {} text) = some []

instance (text : List Char) : Decidable (IsBalanced text) :=
  decidable_of_iff
    (Standing.after {} text = {} ∧ brackets [] (Standing.bareMarks {} text) = some [])
    ⟨fun both => ⟨both.1, both.2⟩, fun balanced => ⟨balanced.ends, balanced.closes⟩⟩

namespace IsBalanced

variable {text other : List Char}

theorem brackets_eq (balanced : IsBalanced text) (awaited : List Char) :
    brackets awaited (Standing.bareMarks {} text) = some awaited :=
  brackets_awaited balanced.closes awaited

/-- A text is balanced between two others that are balanced together. -/
theorem enclosed {opening closing : List Char} (pair : IsBalanced (opening ++ closing))
    (opens : Standing.after {} opening = {}) (balanced : IsBalanced text) :
    IsBalanced (opening ++ text ++ closing) where
  ends := by
    have ends := pair.ends
    simp only [Standing.after_append, opens] at ends
    simp [opens, balanced.ends, ends]
  closes := by
    have closes := pair.closes
    simp only [Standing.bareMarks_append, opens, brackets_append] at closes
    obtain ⟨inner, entered, left⟩ := Option.bind_eq_some_iff.mp closes
    simp [opens, balanced.ends, entered, balanced.brackets_eq, left]

theorem append (balanced : IsBalanced text) (otherBalanced : IsBalanced other) :
    IsBalanced (text ++ other) where
  ends := by simp [balanced.ends, otherBalanced.ends]
  closes := by simp [balanced.ends, balanced.closes, otherBalanced.closes]

end IsBalanced

/-- The characters that move the reader or open or close something. -/
def delimiters : List Char :=
  ['\\', '"', '(', ')', '\x7b', '\x7d']

theorem after_of_flat {text : List Char} (flat : ∀ character ∈ text, character ∉ delimiters) :
    Standing.after {} text = {} := by
  induction text with
  | nil => simp
  | cons head tail inductionHypothesis =>
      obtain ⟨ofHead, ofTail⟩ := List.forall_mem_cons.mp flat
      have stays : Standing.next {} head = {} := by
        simp only [delimiters, List.mem_cons, not_or] at ofHead
        simp [Standing.next, ofHead]
      rw [Standing.after_cons, stays, inductionHypothesis ofTail]

theorem brackets_of_flat (awaited : List Char) {marks : List Char}
    (flat : ∀ mark ∈ marks, mark ∉ delimiters) : brackets awaited marks = some awaited := by
  induction marks with
  | nil => simp
  | cons head tail inductionHypothesis =>
      obtain ⟨ofHead, ofTail⟩ := List.forall_mem_cons.mp flat
      have stays : bracket awaited head = some awaited := by
        simp only [delimiters, List.mem_cons, not_or] at ofHead
        simp [bracket, ofHead]
      rw [brackets, List.foldlM_cons, stays]
      exact inductionHypothesis ofTail

theorem mem_of_mem_bareMarks {standing : Standing} {text : List Char} {mark : Char}
    (member : mark ∈ standing.bareMarks text) : mark ∈ text := by
  induction text generalizing standing with
  | nil => simp [Standing.bareMarks] at member
  | cons head tail inductionHypothesis =>
      rw [Standing.bareMarks] at member
      split at member
      · rcases List.mem_cons.mp member with rfl | later
        · exact List.mem_cons_self
        · exact List.mem_cons_of_mem head (inductionHypothesis later)
      · exact List.mem_cons_of_mem head (inductionHypothesis member)

theorem isBalanced_of_flat {text : List Char}
    (flat : ∀ character ∈ text, character ∉ delimiters) : IsBalanced text where
  ends := after_of_flat flat
  closes := by
    apply brackets_of_flat
    intro mark member
    exact flat mark (mem_of_mem_bareMarks member)

/-- What passes the marks of a place is read to no mark, and leaves the reader there. -/
theorem bareMarks_of_passes {stops : Char → Bool} {text : List Char}
    (passes : QueryReader.Passes stops text) {quoted : Bool}
    (within : ∀ character, ({ quoted } : Standing).marks character = true →
      stops character = true) :
    ({ quoted } : Standing).after text = { quoted } ∧
      ({ quoted } : Standing).bareMarks text = [] := by
  induction passes with
  | nil => simp [Standing.bareMarks]
  | @escaped character rest _ inductionHypothesis =>
      have opens : ({ quoted } : Standing).next '\\' = { quoted, escaped := true } := by
        simp [Standing.next]
      have closes : ({ quoted, escaped := true } : Standing).next character = { quoted } := by
        simp [Standing.next]
      have literal : ({ quoted, escaped := true } : Standing).marks character = false := by
        simp [Standing.marks]
      have unmarked : ({ quoted } : Standing).marks '\\' = false := by
        cases quoted <;> decide
      simp [Standing.bareMarks, opens, closes, unmarked, literal, inductionHypothesis]
  | @plain character rest unprotected goes _ inductionHypothesis =>
      have unmarked : ({ quoted } : Standing).marks character = false := by
        apply Bool.eq_false_iff.mpr
        intro marked
        exact Bool.false_ne_true (goes.symm.trans (within character marked))
      have other : character ≠ '"' := by
        rintro rfl
        simp [Standing.marks] at unmarked
      have stays : ({ quoted } : Standing).next character = { quoted } := by
        simp [Standing.next, unprotected, other]
      simp [Standing.bareMarks, stays, unmarked, inductionHypothesis]

theorem not_mem_delimiters_of_isDigit (character : Char) (digit : character.isDigit = true) :
    character ∉ delimiters := by
  intro member
  simp only [delimiters, List.mem_cons, List.not_mem_nil, or_false] at member
  rcases member with rfl | rfl | rfl | rfl | rfl | rfl <;> exact absurd digit (by decide)

end Text

open Text (IsBalanced Standing bareMarks_of_passes escapeQuotedText isSpecial isSpecialQuoted
  markCharacters syntaxCharacters)

namespace Escaper

/-- An escaped word has no bare marks. -/
theorem bareMarks_escape (text : String) :
    Standing.after {} (standard.escape text).toList = {} ∧
      Standing.bareMarks {} (standard.escape text).toList = [] := by
  have passes : QueryReader.Passes isSpecial (standard.escape text).toList := by
    rw [standard, String.toList_ofList]
    exact QueryReader.passes_escapeWord (fun _ => id) text.toList
  apply bareMarks_of_passes passes
  intro character marked
  have known : ∀ mark ∈ markCharacters, mark ∈ syntaxCharacters := by
    simp [markCharacters, syntaxCharacters]
  simp only [Standing.marks, Bool.not_false, Bool.true_and, Bool.or_eq_true,
    decide_eq_true_eq, List.contains_eq_mem] at marked
  rcases marked with rfl | listed | blank
  · decide
  · simp [isSpecial, known character listed]
  · simp [isSpecial, blank]

theorem isBalanced_escape (text : String) : IsBalanced (standard.escape text).toList where
  ends := (bareMarks_escape text).1
  closes := by simp [(bareMarks_escape text).2]

theorem escape_eq_empty_iff {text : String} : standard.escape text = "" ↔ text = "" := by
  rw [← String.toList_eq_nil_iff, standard, String.toList_ofList,
    ← String.toList_eq_nil_iff]
  constructor
  · intro written
    rw [← Text.unescape_escapeWord text.toList, written, Text.unescape]
  · intro absent
    rw [absent]
    decide

end Escaper

namespace QueryStyle

/-- Of a quoted text the quotes are the only bare marks. -/
theorem bareMarks_quoted (text : String) :
    Standing.after {} (standard.quoted text).toList = {} ∧
      Standing.bareMarks {} (standard.quoted text).toList = ['"', '"'] := by
  have passes : QueryReader.Passes isSpecialQuoted (escapeQuotedText text.toList) :=
    QueryReader.passes_backslash (by decide) (fun _ => id) text.toList
  have inside := @bareMarks_of_passes _ _ passes true (by simp [Standing.marks, isSpecialQuoted])
  have opens : Standing.next {} '"' = { quoted := true } := by decide
  have closes : Standing.next { quoted := true } '"' = {} := by decide
  have outer : Standing.marks {} '"' = true := by decide
  have inner : Standing.marks { quoted := true } '"' = true := by decide
  rw [toList_quoted, quotedText]
  simp [Standing.bareMarks, opens, closes, outer, inner, inside]

end QueryStyle

end QueryForest
