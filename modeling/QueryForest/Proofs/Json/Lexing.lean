import Mathlib.Data.Fintype.Basic
import Mathlib.Tactic.FinCases
import QueryForest.Json.Writer
import QueryForest.Json.Token

namespace QueryForest

open Number (Digit Numeral digitText)

/-- A written numeral has digits before the point, the first of them not zero
unless it is the only one, and digits in the exponent if it has one. -/
structure Number.Numeral.IsWritten (numeral : Numeral) : Prop where
  whole : ∃ head tail, numeral.whole = head :: tail ∧ (head = .zero → tail = [])
  exponent : ∀ negative digits,
    numeral.exponent = some (negative, digits) → digits ≠ []

namespace Json

namespace Lexer

theorem scan_of_go {mode next : Mode} {character : Char}
    (goes : step mode character = .go next) (rest : List Char) :
    scan mode (character :: rest) = scan next rest := by
  rw [scan, goes]
  rfl

theorem scan_of_emit {mode : Mode} {character : Char} {token : Token}
    (emits : step mode character = .emit token) (rest : List Char) :
    scan mode (character :: rest) = token :: scan .blank rest := by
  rw [scan, emits]
  rfl

def delimits (character : Char) : Bool :=
  isBlank character || character = ',' || character = ']' || character = '\x7d'

def Delimited (rest : List Char) : Prop :=
  ∀ character, rest.head? = some character → delimits character = true

theorem delimited_nil : Delimited [] :=
  fun _ none => nomatch none

theorem delimited_cons {character : Char} (rest : List Char)
    (delimiter : delimits character = true) : Delimited (character :: rest) := by
  intro other first
  cases first
  exact delimiter

theorem scan_blanks {blanks : List Char} (allBlank : ∀ c ∈ blanks, isBlank c = true)
    (rest : List Char) : scan .blank (blanks ++ rest) = scan .blank rest := by
  induction blanks with
  | nil => rfl
  | cons head tail inductionHypothesis =>
      have headBlank := allBlank head List.mem_cons_self
      have entered : step .blank head = .go .blank := by
        simp only [isBlank, Bool.or_eq_true, decide_eq_true_eq] at headBlank
        rcases headBlank with ((rfl | rfl) | rfl) | rfl <;> rfl
      rw [List.cons_append, scan_of_go entered]
      exact inductionHypothesis fun c member =>
        allBlank c (List.mem_cons_of_mem head member)

/-! ## Numerals -/

theorem step_of_delimits {numeral : OpenNumeral} (mayEnd : numeral.part.mayEnd = true)
    {character : Char} (delimiter : delimits character = true) :
    numeral.step character = .stop := by
  simp only [delimits, isBlank, Bool.or_eq_true, decide_eq_true_eq] at delimiter
  rcases delimiter with (((((rfl | rfl) | rfl) | rfl) | rfl) | rfl) | rfl <;>
    simp [OpenNumeral.step, Digit.ofChar?, mayEnd]

theorem scan_of_mayEnd {numeral : OpenNumeral} (mayEnd : numeral.part.mayEnd = true)
    {rest : List Char} (delimited : Delimited rest) :
    scan (.numeral numeral) rest = numeral.token :: scan .blank rest := by
  cases rest with
  | nil =>
      rw [scan, finish, if_pos mayEnd]
      rfl
  | cons head tail =>
      have stops := step_of_delimits mayEnd (delimited head rfl)
      have ended : step (.numeral numeral) head =
          { enter head with completed := numeral.token :: (enter head).completed } := by
        rw [step, stops]
      rw [scan, scan, ended, step]
      cases (enter head).next <;> rfl

/-- A numeral whose part at the end is a run of digits takes more of them. -/
theorem scan_digits {numeral : List Digit → OpenNumeral}
    (takes : ∀ before digit,
      (numeral before).takeDigit digit = some (numeral (digit :: before)))
    (before digits : List Digit) (rest : List Char) :
    scan (.numeral (numeral before)) (digitText digits ++ rest) =
      scan (.numeral (numeral (digits.reverse ++ before))) rest := by
  induction digits generalizing before with
  | nil => rfl
  | cons head tail inductionHypothesis =>
      have goes : step (.numeral (numeral before)) head.toChar =
          .go (.numeral (numeral (head :: before))) := by
        simp [step, OpenNumeral.step, takes]
      rw [List.reverse_cons, List.append_assoc]
      refine Eq.trans ?_ (inductionHypothesis (head :: before))
      rw [digitText, List.map_cons, List.cons_append, scan_of_go goes]
      rfl

namespace OpenNumeral

/-- A numeral whose digits have been read from one on that is not zero. -/
def begun (negative : Bool) (read : List Digit) : OpenNumeral :=
  { part := .whole, negative, whole := read }

/-- A numeral with a point, and the digits that have been read behind it. -/
def pointed (negative : Bool) (whole read : List Digit) : OpenNumeral :=
  { part := if read.isEmpty then .point else .fraction
    negative
    whole
    fraction := read }

/-- A numeral with the sign of an exponent, and the digits that have been read behind
it. -/
def powered (numeral : OpenNumeral) (negative : Bool) (read : List Digit) : OpenNumeral :=
  { numeral with
    part := if read.isEmpty then .markSign else .power
    negativePower := negative
    power := read }

theorem takeDigit_pointed (negative : Bool) (whole read : List Digit) (digit : Digit) :
    (pointed negative whole read).takeDigit digit =
      some (pointed negative whole (digit :: read)) := by
  cases read <;> rfl

theorem takeDigit_powered (numeral : OpenNumeral) (negative : Bool) (read : List Digit)
    (digit : Digit) :
    (numeral.powered negative read).takeDigit digit =
      some (numeral.powered negative (digit :: read)) := by
  cases read <;> rfl

theorem mayEnd_powered (numeral : OpenNumeral) (negative : Bool) {read : List Digit}
    (some : read ≠ []) : (numeral.powered negative read).part.mayEnd = true := by
  rw [powered, List.isEmpty_eq_false_iff.mpr some]
  rfl

theorem close_powered (numeral : OpenNumeral) (negative : Bool) {read : List Digit}
    (some : read ≠ []) :
    (numeral.powered negative read).close =
      { numeral.close with exponent := .some (negative, read.reverse) } := by
  rw [powered, close, List.isEmpty_eq_false_iff.mpr some]
  rfl

end OpenNumeral

/-- The token of a numeral; one beyond all finite numbers is malformed. -/
def numeralToken (numeral : Numeral) : Token :=
  if numeral.quantity?.isSome then .number numeral else .malformed

theorem token_eq (numeral : OpenNumeral) :
    numeral.token = numeralToken numeral.close :=
  rfl

/-- An exponent, or nothing, stands at the end of a numeral. -/
theorem scan_exponentText {numeral : OpenNumeral}
    (may : numeral.part = .zero ∨ numeral.part = .whole ∨ numeral.part = .fraction)
    (noPower : numeral.power = []) {exponent : Option (Bool × List Digit)}
    (digitsFollow : ∀ negative digits, exponent = some (negative, digits) →
      digits ≠ [])
    {rest : List Char} (delimited : Delimited rest) :
    scan (.numeral numeral) (Numeral.exponentText exponent ++ rest) =
      numeralToken { numeral.close with exponent } :: scan .blank rest := by
  cases exponent with
  | none =>
      have mayEnd : numeral.part.mayEnd = true := by
        rcases may with may | may | may <;> rw [may] <;> rfl
      have closed : { numeral.close with exponent := none } = numeral.close := by
        rw [OpenNumeral.close, noPower]
        rfl
      rw [closed, ← token_eq]
      exact scan_of_mayEnd mayEnd delimited
  | some exponent =>
      obtain ⟨negative, digits⟩ := exponent
      have digitsRead : digits.reverse ≠ [] :=
        List.reverse_ne_nil_iff.mpr (digitsFollow negative digits rfl)
      have marks : step (.numeral numeral) 'e' =
          .go (.numeral { numeral with part := .mark }) := by
        rcases may with may | may | may <;>
          simp [step, OpenNumeral.step, Digit.ofChar?, may]
      have signs : step (.numeral { numeral with part := .mark })
          (if negative then '-' else '+') = .go (.numeral (numeral.powered negative [])) := by
        cases negative <;>
          simp [step, OpenNumeral.step, Digit.ofChar?, OpenNumeral.powered, noPower]
      have reads := scan_digits (numeral.takeDigit_powered negative) [] digits rest
      rw [List.append_nil] at reads
      rw [Numeral.exponentText, List.cons_append, List.cons_append, scan_of_go marks,
        scan_of_go signs, reads,
        scan_of_mayEnd (numeral.mayEnd_powered negative digitsRead) delimited, token_eq,
        numeral.close_powered negative digitsRead, List.reverse_reverse]

/-- The digits before the point, of which the first has been read. -/
theorem scan_whole (negative : Bool) {head : Digit} {tail : List Digit}
    (single : head = .zero → tail = []) (rest : List Char) :
    ∃ part, (part = .zero ∨ part = .whole) ∧
      scan (.numeral
          { part := if head = .zero then .zero else .whole, negative, whole := [head] })
          (digitText tail ++ rest) =
        scan (.numeral { part, negative, whole := (head :: tail).reverse }) rest := by
  by_cases zero : head = .zero
  · rw [if_pos zero, single zero]
    exact ⟨.zero, .inl rfl, rfl⟩
  · rw [if_neg zero, List.reverse_cons]
    have takes : ∀ before digit, (OpenNumeral.begun negative before).takeDigit digit =
        some (.begun negative (digit :: before)) := fun _ _ => rfl
    exact ⟨.whole, .inr rfl, scan_digits takes [head] tail rest⟩

/-- The digits behind the point, if there are any. -/
theorem scan_fraction {part : NumeralPart} (may : part = .zero ∨ part = .whole)
    (negative : Bool) (whole fraction : List Digit) (rest : List Char) :
    ∃ last, (last = .zero ∨ last = .whole ∨ last = .fraction) ∧
      scan (.numeral { part, negative, whole })
          ((if fraction.isEmpty then [] else '.' :: digitText fraction) ++ rest) =
        scan (.numeral
          { part := last, negative, whole, fraction := fraction.reverse }) rest := by
  by_cases empty : fraction = []
  · subst empty
    refine ⟨part, ?_, rfl⟩
    rcases may with may | may
    · exact .inl may
    · exact .inr (.inl may)
  · have points : step (.numeral { part, negative, whole }) '.' =
        .go (.numeral (.pointed negative whole [])) := by
      rcases may with rfl | rfl <;> rfl
    have reads := scan_digits (OpenNumeral.takeDigit_pointed negative whole) [] fraction rest
    have someRead : fraction.reverse.isEmpty = false := by
      simpa using empty
    have someWritten : fraction.isEmpty = false := by
      simpa using empty
    refine ⟨.fraction, .inr (.inr rfl), ?_⟩
    rw [someWritten, if_neg Bool.false_ne_true, List.cons_append, scan_of_go points,
      reads, List.append_nil]
    simp only [OpenNumeral.pointed, someRead, Bool.false_eq_true, if_false]

theorem enter_digit (digit : Digit) :
    enter digit.toChar =
      .go (.numeral
        { part := if digit = .zero then .zero else .whole, whole := [digit] }) := by
  fin_cases digit <;> rfl

/-- A written numeral is read as its token. -/
theorem scan_numeral {numeral : Numeral} (written : numeral.IsWritten)
    {rest : List Char} (delimited : Delimited rest) :
    scan .blank (numeral.text ++ rest) =
      numeralToken numeral :: scan .blank rest := by
  obtain ⟨negative, whole, fraction, exponent⟩ := numeral
  obtain ⟨head, tail, rfl, single⟩ := written.whole
  have begins : ∀ behind, scan .blank
      ((if negative then ['-'] else []) ++ (digitText (head :: tail) ++ behind)) =
        scan (.numeral
          { part := if head = .zero then .zero else .whole, negative, whole := [head] })
          (digitText tail ++ behind) := by
    intro behind
    cases negative with
    | false =>
        have goes : step .blank head.toChar = _ := enter_digit head
        exact scan_of_go goes _
    | true =>
        have signs : step .blank '-' =
            .go (.numeral { part := .sign, negative := true }) := rfl
        refine (scan_of_go signs _).trans (scan_of_go ?_ _)
        simp only [step, OpenNumeral.step, Digit.ofChar?_toChar, OpenNumeral.takeDigit]
  rw [Numeral.text, List.append_assoc, List.append_assoc, List.append_assoc, begins]
  obtain ⟨part, may, wholeRead⟩ := scan_whole negative single
    ((if fraction.isEmpty then [] else '.' :: digitText fraction)
      ++ (Numeral.exponentText exponent ++ rest))
  obtain ⟨last, mayMark, fractionRead⟩ := scan_fraction may negative
    (head :: tail).reverse fraction (Numeral.exponentText exponent ++ rest)
  rw [wholeRead, fractionRead,
    scan_exponentText mayMark rfl written.exponent delimited]
  simp only [OpenNumeral.close, List.reverse_reverse]

/-! ## Strings -/

theorem hexValue?_digitChar : ∀ value : Fin 16,
    hexValue? (Nat.digitChar value.val) = some value.val := by
  decide

theorem scan_hexDigit (read : List Char) {value digits digit : Nat}
    {character : Char} (more : digits < 3)
    (isDigit : hexValue? character = some digit) (rest : List Char) :
    scan (.codeUnit read none value digits) (character :: rest) =
      scan (.codeUnit read none (16 * value + digit) (digits + 1)) rest := by
  refine scan_of_go ?_ rest
  rw [step, isDigit]
  simp only [Option.bind_eq_bind, Option.bind_some, Nat.ne_of_lt more, if_false]
  rfl

theorem scan_lastHexDigit (read : List Char) {value digit : Nat}
    {last character : Char} (isDigit : hexValue? last = some digit)
    (unit : 16 * value + digit = character.toNat) (small : character.toNat < 0xD800)
    (rest : List Char) :
    scan (.codeUnit read none value 3) (last :: rest) =
      scan (.string (character :: read)) rest := by
  have notHigh : isHigh character.toNat = false := by
    simp only [isHigh, Bool.and_eq_false_iff, decide_eq_false_iff_not]
    omega
  have notLow : isLow character.toNat = false := by
    simp only [isLow, Bool.and_eq_false_iff, decide_eq_false_iff_not]
    omega
  refine scan_of_go ?_ rest
  rw [step, isDigit]
  simp only [Option.bind_eq_bind, Option.bind_some, if_true, unit, afterCodeUnit,
    notHigh, notLow, Bool.false_eq_true, if_false, Char.ofNat_toNat]
  rfl

/-- A control character is read back from its four hexadecimal digits. -/
theorem scan_control (read : List Char) {character : Char}
    (control : character.toNat < 0x20) (rest : List Char) :
    scan (.codeUnit read none 0 0)
        ('0' :: '0' :: Nat.digitChar (character.toNat / 16)
          :: Nat.digitChar (character.toNat % 16) :: rest) =
      scan (.string (character :: read)) rest := by
  have zero : hexValue? '0' = some 0 := rfl
  have high := hexValue?_digitChar ⟨character.toNat / 16, by omega⟩
  have low := hexValue?_digitChar ⟨character.toNat % 16, by omega⟩
  rw [scan_hexDigit read (by decide) zero, scan_hexDigit read (by decide) zero,
    scan_hexDigit read (by decide) high, scan_lastHexDigit read low]
  · simp only
    omega
  · omega

/-- A character that has a short escape is read back from it. -/
theorem escapedCharacter?_of_lookup {character letter : Char}
    (short : shortEscapes.lookup character = some letter) :
    letter ≠ 'u' ∧ escapedCharacter? letter = some character := by
  have listed : (character, letter) ∈ shortEscapes := by
    obtain ⟨before, behind, split, _⟩ := List.lookup_eq_some_iff.mp short
    rw [split]
    exact List.mem_append_right before List.mem_cons_self
  simp only [shortEscapes, List.mem_cons, Prod.mk.injEq, List.not_mem_nil, or_false]
    at listed
  rcases listed with ⟨rfl, rfl⟩ | ⟨rfl, rfl⟩ | ⟨rfl, rfl⟩ | ⟨rfl, rfl⟩ | ⟨rfl, rfl⟩ |
    ⟨rfl, rfl⟩ | ⟨rfl, rfl⟩ <;> exact ⟨by decide, rfl⟩

/-- A character inside a string is read back. -/
theorem scan_characterText (read : List Char) (character : Char) (rest : List Char) :
    scan (.string read) (characterText character ++ rest) =
      scan (.string (character :: read)) rest := by
  have opens : step (.string read) '\\' = .go (.escape read) := rfl
  unfold characterText
  cases short : shortEscapes.lookup character with
  | some letter =>
      obtain ⟨notUnit, escaped⟩ := escapedCharacter?_of_lookup short
      refine (scan_of_go opens _).trans (scan_of_go ?_ rest)
      rw [step, if_neg notUnit, escaped]
      rfl
  | none =>
      by_cases control : character.toNat < 0x20
      · have unit : step (.escape read) 'u' = .go (.codeUnit read none 0 0) := rfl
        simp only [control, if_true]
        apply (scan_of_go opens _).trans
        exact (scan_of_go unit _).trans (scan_control read control rest)
      · have notQuote : character ≠ '"' := by
          rintro rfl
          cases short
        have notSlash : character ≠ '\\' := by
          rintro rfl
          cases short
        simp only [control, if_false]
        refine scan_of_go ?_ rest
        rw [step, if_neg notQuote, if_neg notSlash, if_neg control]

theorem scan_characters (read characters rest : List Char) :
    scan (.string read) (characters.flatMap characterText ++ rest) =
      scan (.string (characters.reverse ++ read)) rest := by
  induction characters generalizing read with
  | nil => rfl
  | cons head tail inductionHypothesis =>
      rw [List.flatMap_cons, List.append_assoc, scan_characterText,
        inductionHypothesis, List.reverse_cons, List.append_assoc]
      rfl

/-- A written string is read as its token. -/
theorem scan_stringText (text : String) (rest : List Char) :
    scan .blank ((stringText text).toList ++ rest) =
      .string text :: scan .blank rest := by
  have opens : step .blank '"' = .go (.string []) := rfl
  have closes : step (.string text.toList.reverse) '"' = .emit (.string text) := by
    rw [step, if_pos rfl, List.reverse_reverse, String.ofList_toList]
  have written : (stringText text).toList =
      '"' :: (text.toList.flatMap characterText ++ ['"']) := by
    simp [stringText]
  rw [written, List.cons_append, List.append_assoc, scan_of_go opens, scan_characters,
    List.append_nil]
  exact scan_of_emit closes rest

end Lexer

end Json

end QueryForest
