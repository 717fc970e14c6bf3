/-!
# Texts

Which characters are blank, the lines of outlines and indented data, and escaping.  An
escaper makes a text safe for a place in the query syntax: a bare word, or the inside of a
double-quoted phrase.  Both escapings put backslashes in front of characters and change
nothing else, so `unescape` recovers the text.
-/

namespace QueryForest

namespace Text

/-- The ranges of code points that Unicode classes as white space (`White_Space`),
ascending. -/
def blankRanges : List (Nat × Nat) :=
  [(0x09, 0x0D), (0x20, 0x20), (0x85, 0x85), (0xA0, 0xA0), (0x1680, 0x1680),
    (0x2000, 0x200A), (0x2028, 0x2029), (0x202F, 0x202F), (0x205F, 0x205F),
    (0x3000, 0x3000)]

def isBlank (character : Char) : Bool :=
  blankRanges.any fun range =>
    range.1 ≤ character.toNat && character.toNat ≤ range.2

def allBlank (text : String) : Bool :=
  text.toList.all isBlank

/-- Two spaces for each level of depth. -/
def indentation (depth : Nat) : String :=
  String.ofList (List.replicate (2 * depth) ' ')

def line (depth : Nat) (content : String) : String :=
  indentation depth ++ content ++ "\n"

def truthWord (truth : Bool) : String :=
  if truth then "true" else "false"

/-- Write a backslash before every character of a class. -/
def backslash (special : Char → Bool) : List Char → List Char
  | [] => []
  | head :: tail =>
      if special head then
        '\\' :: head :: backslash special tail
      else
        head :: backslash special tail

/-- Read a backslash and the character after it as that character. -/
def unescape : List Char → List Char
  | '\\' :: escaped :: tail => escaped :: unescape tail
  | head :: tail => head :: unescape tail
  | [] => []

/-- The characters with a meaning of their own in the query syntax. -/
def syntaxCharacters : List Char :=
  ['\\', '+', '-', '!', '(', ')', ':', '^', '[', ']', '"', '\x7b', '\x7d', '~',
    '*', '?', '|', '&', '/']

def isSpecial (character : Char) : Bool :=
  syntaxCharacters.contains character || isBlank character

def isSpecialQuoted (character : Char) : Bool :=
  character = '"' || character = '\\'

/-- The words that the query syntax reads as operators, in upper case. -/
def operatorWords : List (List Char) :=
  [['A', 'N', 'D'], ['O', 'R'], ['N', 'O', 'T']]

/-- A word is an operator in any case of its ASCII letters. -/
def isOperatorWord (word : List Char) : Bool :=
  operatorWords.contains (word.map Char.toUpper)

/-- Escape a bare word; one that reads as an operator gets a backslash before
its first letter. -/
def escapeWord (word : List Char) : List Char :=
  if isOperatorWord word then
    '\\' :: backslash isSpecial word
  else
    backslash isSpecial word

def escapeQuotedText (text : List Char) : List Char :=
  backslash isSpecialQuoted text

/-- Backslashes are taken away again if the backslash itself is special. -/
theorem unescape_backslash {special : Char → Bool}
    (escaped : special '\\' = true) (text : List Char) :
    unescape (backslash special text) = text := by
  induction text with
  | nil => rfl
  | cons head tail inductionHypothesis =>
      rw [backslash]
      split
      · rw [unescape, inductionHypothesis]
      · next plain =>
          have other : head ≠ '\\' := by
            intro same
            exact plain (same ▸ escaped)
          rw [unescape, inductionHypothesis]
          intro _ _ same
          exact absurd same other

/-- A special character is no lower-case letter. -/
theorem toUpper_of_isSpecial {character : Char}
    (special : isSpecial character = true) : character.toUpper = character := by
  have outside : character.toNat < 97 ∨ 122 < character.toNat := by
    simp only [isSpecial, syntaxCharacters, isBlank, blankRanges, List.contains_eq_mem,
      Bool.or_eq_true, decide_eq_true_eq, List.any_eq_true, Bool.and_eq_true] at special
    rcases special with listed | ⟨range, listed, low, high⟩
    · simp only [List.mem_cons, List.not_mem_nil, or_false] at listed
      rcases listed with rfl | rfl | rfl | rfl | rfl | rfl | rfl | rfl | rfl | rfl | rfl
        | rfl | rfl | rfl | rfl | rfl | rfl | rfl | rfl <;> decide
    · simp only [List.mem_cons, List.not_mem_nil, or_false] at listed
      rcases listed with rfl | rfl | rfl | rfl | rfl | rfl | rfl | rfl | rfl | rfl <;> omega
  refine dif_neg ?_
  rintro ⟨low, high⟩
  simp only [UInt32.le_iff_toNat_le] at low high
  have lowest : ('a' : Char).val.toNat = 97 := rfl
  have highest : ('z' : Char).val.toNat = 122 := rfl
  rw [lowest] at low
  rw [highest] at high
  change character.val.toNat < 97 ∨ 122 < character.val.toNat at outside
  omega

/-- An operator word begins with a letter, which is not special. -/
theorem not_isSpecial_of_operator {head : Char} {tail : List Char}
    (operator : isOperatorWord (head :: tail) = true) : isSpecial head = false := by
  cases special : isSpecial head with
  | false => rfl
  | true =>
      have unchanged := toUpper_of_isSpecial special
      simp only [isOperatorWord, operatorWords, List.contains_eq_mem, List.map_cons,
        unchanged, List.mem_cons, List.cons.injEq, List.not_mem_nil, or_false,
        decide_eq_true_eq] at operator
      rcases operator with ⟨rfl, _⟩ | ⟨rfl, _⟩ | ⟨rfl, _⟩ <;> exact absurd special (by decide)

/-- An escaped word reads back as the word. -/
theorem unescape_escapeWord (word : List Char) :
    unescape (escapeWord word) = word := by
  rw [escapeWord]
  split
  · next operator =>
      cases word with
      | nil => exact absurd operator (by decide)
      | cons head tail =>
          have plain := not_isSpecial_of_operator operator
          rw [backslash, plain]
          simp only [Bool.false_eq_true, if_false, unescape]
          rw [unescape_backslash (by decide)]
  · exact unescape_backslash (by decide) word

theorem unescape_escapeQuotedText (text : List Char) :
    unescape (escapeQuotedText text) = text :=
  unescape_backslash (by decide) text

end Text

/-- How a writer protects field names and words, and how it protects the
inside of a quoted phrase. -/
structure Escaper where
  escape : String → String
  escapeQuoted : String → String :=
    fun text => String.ofList (Text.escapeQuotedText text.toList)

namespace Escaper

/-- The escaping that the query syntax undoes. -/
def standard : Escaper where
  escape text := String.ofList (Text.escapeWord text.toList)

def verbatim : Escaper where
  escape := id
  escapeQuoted := id

end Escaper

end QueryForest
