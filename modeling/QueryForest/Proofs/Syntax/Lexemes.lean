import QueryForest.Proofs.Syntax.Reader
import QueryForest.View.QuerySyntax

/-!
# Words and numbers read back

What an escaper writes is read up to the end that the writer has put behind it:
a word up to a special character, a quoted text up to the quote, and a number up
to what cannot be part of one.  A word never looks like one of the operators.
-/

namespace QueryForest

namespace QueryReader

open Number (Digit Single digitsOf ofDigits digitText)
open Text (backslash escapeWord isOperatorWord isSpecial unescape)

/-- A raw text in which no unprotected character is of a class. -/
inductive Passes (stops : Char → Bool) : List Char → Prop
  | nil : Passes stops []
  | escaped {character : Char} {rest : List Char} :
      Passes stops rest → Passes stops ('\\' :: character :: rest)
  | plain {character : Char} {rest : List Char} :
      character ≠ '\\' → stops character = false → Passes stops rest →
        Passes stops (character :: rest)

variable {stops : Char → Bool} {raw rest : List Char}

theorem Passes.append {other : List Char} (passes : Passes stops raw)
    (later : Passes stops other) : Passes stops (raw ++ other) := by
  induction passes with
  | nil => exact later
  | escaped _ inductionHypothesis => exact .escaped inductionHypothesis
  | plain unprotected goes _ inductionHypothesis =>
      exact .plain unprotected goes inductionHypothesis

/-- A text goes by when all characters that are special go behind backslashes. -/
theorem passes_backslash {special : Char → Bool} (protects : special '\\' = true)
    (within : ∀ character, stops character = true → special character = true)
    (text : List Char) : Passes stops (backslash special text) := by
  induction text with
  | nil => exact .nil
  | cons head tail inductionHypothesis =>
      rw [backslash]
      by_cases isSpecial : special head = true
      · rw [if_pos isSpecial]
        exact .escaped inductionHypothesis
      · rw [if_neg isSpecial]
        refine .plain ?_ ?_ inductionHypothesis
        · rintro rfl
          exact isSpecial protects
        · exact Bool.eq_false_iff.mpr fun stopped => isSpecial (within head stopped)

theorem passes_escapeWord
    (within : ∀ character, stops character = true → isSpecial character = true)
    (text : List Char) : Passes stops (escapeWord text) := by
  have spelled : Passes stops (backslash isSpecial text) :=
    passes_backslash (by decide) within text
  unfold escapeWord
  by_cases operator : isOperatorWord text = true
  · rw [if_pos operator]
    cases text with
    | nil => exact absurd operator (by decide)
    | cons head tail =>
        rw [backslash, Text.not_isSpecial_of_operator operator, if_neg Bool.false_ne_true]
        exact .escaped (passes_backslash (by decide) within tail)
  · rw [if_neg operator]
    exact spelled

/-- The cut goes on behind what passes. -/
theorem cut_append (passes : Passes stops raw) :
    cut stops (raw ++ rest) = (raw ++ (cut stops rest).1, (cut stops rest).2) := by
  induction passes with
  | nil => rfl
  | escaped _ inductionHypothesis =>
      rw [List.cons_append, List.cons_append, cut, inductionHypothesis]
      rfl
  | @plain character tail unprotected goes _ inductionHypothesis =>
      rw [List.cons_append, cut, inductionHypothesis, goes, if_neg Bool.false_ne_true]
      · rfl
      · rintro escaped others rfl _
        exact unprotected rfl

/-- The cut is right at the front of a text that begins with a character of the
class, or of no text. -/
theorem cut_eq (ends : ∀ character, rest.head? = some character →
    stops character = true ∧ character ≠ '\\') : cut stops rest = ([], rest) := by
  cases rest with
  | nil => rfl
  | cons head tail =>
      obtain ⟨stopped, unprotected⟩ := ends head rfl
      rw [cut, if_pos stopped]
      rintro escaped others rfl _
      exact unprotected rfl

theorem cut_of_ends (passes : Passes stops raw)
    (ends : ∀ character, rest.head? = some character →
      stops character = true ∧ character ≠ '\\') : cut stops (raw ++ rest) = (raw, rest) := by
  rw [cut_append passes, cut_eq ends, List.append_nil]

theorem split_append {separator : Char} (passes : Passes (· = separator) raw) :
    split separator (raw ++ rest) = (split separator rest).modifyHead (raw ++ ·) := by
  induction passes with
  | nil =>
      rw [List.nil_append]
      generalize split separator rest = stretches
      cases stretches <;> rfl
  | escaped _ inductionHypothesis =>
      rw [List.cons_append, List.cons_append, split, inductionHypothesis,
        List.modifyHead_modifyHead]
      rfl
  | @plain character tail unprotected goes _ inductionHypothesis =>
      rw [List.cons_append, split, inductionHypothesis, if_neg (by simpa using goes),
        List.modifyHead_modifyHead]
      · rfl
      · rintro escaped others rfl _
        exact unprotected rfl

/-- Stretches that were joined by a separator are split again. -/
theorem split_intercalate {separator : Char} (unprotected : separator ≠ '\\')
    {stretches : List (List Char)} (some : stretches ≠ [])
    (each : ∀ stretch ∈ stretches, Passes (· = separator) stretch) :
    split separator ([separator].intercalate stretches) = stretches := by
  induction stretches with
  | nil => exact absurd rfl some
  | cons head tail inductionHypothesis =>
      have headPasses := each head List.mem_cons_self
      cases tail with
      | nil =>
          have alone : split separator (head ++ []) = (split separator []).modifyHead (head ++ ·) :=
            split_append headPasses
          rw [List.append_nil] at alone
          rw [List.intercalate_singleton, alone]
          simp [split]
      | cons second others =>
          have later := inductionHypothesis (List.cons_ne_nil _ _)
            fun stretch member => each stretch (List.mem_cons_of_mem head member)
          rw [List.intercalate_cons_cons, List.append_assoc, split_append headPasses,
            List.singleton_append, split, if_pos rfl, later]
          · simp
          · rintro escaped rest rfl _
            exact unprotected rfl

def EndsWord (rest : List Char) : Prop :=
  ∀ character, rest.head? = some character → isSpecial character = true ∧ character ≠ '\\'

theorem endsWord_cons {character : Char} (rest : List Char)
    (ends : isSpecial character = true ∧ character ≠ '\\') : EndsWord (character :: rest) := by
  intro found same
  cases same
  exact ends

def wordText (text : String) : List Char :=
  escapeWord text.toList

theorem word_append (text : String) (ends : EndsWord rest) :
    word (wordText text ++ rest) = (text, rest) := by
  unfold word wordText
  rw [cut_of_ends (passes_escapeWord (fun _ => id) text.toList) ends]
  simp only [Text.unescape_escapeWord, String.ofList_toList]

theorem word_eq (ends : EndsWord rest) : word rest = ("", rest) := by
  unfold word
  rw [cut_eq ends]
  rfl

theorem behind?_append (text : String) (rest : List Char) :
    behind? text (text.toList ++ rest) = some rest :=
  List.isPrefixOf?_eq_some_iff_append_eq.mpr rfl

/-- A text that begins with another character is not at the front. -/
theorem behind?_eq_none {text : String} {first : Char} {others chars : List Char}
    (begins : text.toList = first :: others) (different : chars.head? ≠ some first) :
    behind? text chars = none := by
  unfold behind?
  rw [begins]
  cases chars with
  | nil => rfl
  | cons head tail =>
      have other : (first == head) = false := by
        rw [beq_eq_false_iff_ne]
        rintro rfl
        exact different rfl
      rw [List.isPrefixOf?, other]
      rfl

/-- A written word is none of the operators. -/
theorem wordText_ne_operator {operator : List Char} (known : isOperatorWord operator = true)
    (bare : unescape operator = operator) (text : String) : wordText text ≠ operator := by
  intro same
  have read : text.toList = operator := by
    rw [← Text.unescape_escapeWord text.toList]
    exact (congrArg unescape same).trans bare
  rw [wordText, read, escapeWord, if_pos known] at same
  cases operator with
  | nil => exact absurd known (by decide)
  | cons head tail =>
      have plain := Text.not_isSpecial_of_operator known
      rw [← (List.cons.inj same).1] at plain
      exact absurd plain (by decide)

/-- In front of a blank no operator is read where a word stands. -/
theorem behind?_operator {operator : List Char} (known : isOperatorWord operator = true)
    (bare : unescape operator = operator) (passes : Passes isSpecial operator) (text : String)
    (ends : EndsWord rest) :
    behind? (String.ofList (operator ++ [' '])) (wordText text ++ rest) = none := by
  cases found : behind? (String.ofList (operator ++ [' '])) (wordText text ++ rest) with
  | none => rfl
  | some behind =>
      have same := List.isPrefixOf?_eq_some_iff_append_eq.mp found
      rw [String.toList_ofList, List.append_assoc, List.singleton_append] at same
      have cuts := congrArg (cut isSpecial) same
      rw [cut_of_ends passes (endsWord_cons behind (by decide)),
        show cut isSpecial (wordText text ++ rest) = (wordText text, rest) from
          cut_of_ends (passes_escapeWord (fun _ => id) text.toList) ends] at cuts
      exact absurd (congrArg Prod.fst cuts).symm (wordText_ne_operator known bare text)

def EndsNumber (rest : List Char) : Prop :=
  ∀ character, rest.head? = some character → endsNumber character = true

theorem span_number {number : List Char} (goes : ∀ character ∈ number, endsNumber character = false)
    (ends : EndsNumber rest) :
    (number ++ rest).takeWhile (!endsNumber ·) = number ∧
      (number ++ rest).dropWhile (!endsNumber ·) = rest := by
  have within : ∀ character ∈ number, (!endsNumber character) = true :=
    fun character member => by rw [goes character member]; rfl
  rw [List.takeWhile_append_of_pos within, List.dropWhile_append_of_pos within]
  cases rest with
  | nil => simp
  | cons head tail =>
      have stops : ¬ (!endsNumber head) = true := by simp [ends head rfl]
      rw [List.takeWhile_cons_of_neg (p := (!endsNumber ·)) stops,
        List.dropWhile_cons_of_neg (p := (!endsNumber ·)) stops, List.append_nil]
      exact ⟨rfl, rfl⟩

theorem forall_mem_natural {P : Char → Prop}
    (digits : ∀ character, character.isDigit = true → P character) (value : Nat) :
    ∀ character ∈ (toString value).toList, P character := by
  intro character member
  have written : (toString value).toList = Nat.toDigits 10 value := String.toList_ofList
  rw [written] at member
  exact digits character (Nat.isDigit_of_mem_toDigits (by decide) (by decide) member)

theorem isDigit_toChar (digit : Digit) : digit.toChar.isDigit = true := by
  decide +revert

/-- What holds of the decimal digits and of a few other characters holds of all
characters of a 32-bit number. -/
theorem forall_mem_text {P : Char → Prop}
    (digits : ∀ character, character.isDigit = true → P character)
    (others : ∀ character ∈ ['-', '.', 'N', 'a', 'i', 'n', 'f'], P character) (single : Single) :
    ∀ character ∈ single.text.toList, P character := by
  have run (digitRun : List Digit) : ∀ character ∈ digitText digitRun, P character := by
    intro character member
    obtain ⟨digit, _, rfl⟩ := List.mem_map.mp member
    exact digits _ (isDigit_toChar digit)
  by_cases finite : single.isFinite = true
  · rw [Single.toList_text finite, Single.unsignedText]
    refine List.forall_mem_append.mpr ⟨?_, List.forall_mem_append.mpr ⟨run _, ?_⟩⟩
    · split
      · exact List.forall_mem_singleton.mpr (others '-' (by simp))
      · exact List.forall_mem_nil _
    · cases (single.numeral .plain).fraction with
      | nil => exact List.forall_mem_nil _
      | cons head tail => exact List.forall_mem_cons.mpr ⟨others '.' (by simp), run _⟩
  · rw [Single.text, if_neg finite]
    simp only [List.forall_mem_cons] at others
    split
    · simp [others]
    · split <;> simp [others]

theorem endsNumber_of_isDigit (character : Char) (digit : character.isDigit = true) :
    endsNumber character = false := by
  cases ends : endsNumber character with
  | false => rfl
  | true =>
      simp only [endsNumber, List.contains_eq_mem, List.mem_cons, List.not_mem_nil, or_false,
        decide_eq_true_eq] at ends
      rcases ends with rfl | rfl | rfl | rfl <;> exact absurd digit (by decide)

theorem endsNumber_natural (value : Nat) :
    ∀ character ∈ (toString value).toList, endsNumber character = false :=
  forall_mem_natural endsNumber_of_isDigit value

theorem natural_toString (value : Nat) : natural (toString value).toList = value := by
  have written : (toString value).toList = Nat.toDigits 10 value := String.toList_ofList
  rw [natural, written]
  exact Number.ofDigits_digitsOf value

theorem endsNumber_text (single : Single) :
    ∀ character ∈ single.text.toList, endsNumber character = false :=
  forall_mem_text endsNumber_of_isDigit (by simp [endsNumber]) single

end QueryReader

end QueryForest
