import QueryForest.Number.Numeral

/-!
# JSON tokens

The lexer passes once over the characters, in one of a few modes.  A numeral
ends before the first character that cannot continue it, which the blank mode
then takes.  Where the text stops being JSON, the tokens end with one that is
malformed, so that everything before it can still be used.
-/

namespace QueryForest.Json

open Number (Digit Numeral)

inductive Token where
  | openArray
  | closeArray
  | openObject
  | closeObject
  | colon
  | comma
  | null
  | bool (value : Bool)
  | number (numeral : Numeral)
  | string (text : String)
  | malformed
  deriving DecidableEq, Repr

namespace Lexer

/-- The part of a numeral that was read last. -/
inductive NumeralPart where
  | sign
  | zero
  | whole
  | point
  | fraction
  | mark
  | markSign
  | power
  deriving DecidableEq, Repr

/-- A numeral in the course of reading, digits in reverse. -/
structure OpenNumeral where
  part : NumeralPart
  negative : Bool := false
  whole : List Digit := []
  fraction : List Digit := []
  negativePower : Bool := false
  power : List Digit := []
  deriving DecidableEq, Repr

inductive Mode where
  | blank
  | word (expected : Char) (rest : List Char) (token : Token)
  | numeral (numeral : OpenNumeral)
  | string (read : List Char)
  | escape (read : List Char)
  | codeUnit (read : List Char) (high : Option Nat) (value digits : Nat)
  | lowEscape (read : List Char) (high : Nat)
  | lowMark (read : List Char) (high : Nat)

def isBlank (character : Char) : Bool :=
  character = ' ' || character = '\n' || character = '\r' || character = '\t'

/-! ## Numerals -/

def NumeralPart.mayEnd : NumeralPart → Bool
  | .zero | .whole | .fraction | .power => true
  | .sign | .point | .mark | .markSign => false

/-- Take one more digit.  After a leading zero none may follow. -/
def OpenNumeral.takeDigit (numeral : OpenNumeral) (digit : Digit) :
    Option OpenNumeral :=
  match numeral.part with
  | .sign =>
      some { numeral with
        part := if digit = .zero then .zero else .whole
        whole := [digit] }
  | .whole => some { numeral with whole := digit :: numeral.whole }
  | .point | .fraction =>
      some { numeral with part := .fraction, fraction := digit :: numeral.fraction }
  | .mark | .markSign | .power =>
      some { numeral with part := .power, power := digit :: numeral.power }
  | .zero => none

inductive NumeralStep where
  | continue (numeral : OpenNumeral)
  | stop
  | refuse

/-- A character either continues a numeral, or stands after one that may end,
or spoils it. -/
def OpenNumeral.step (numeral : OpenNumeral) (character : Char) : NumeralStep :=
  let other : NumeralStep := if numeral.part.mayEnd then .stop else .refuse
  match Digit.ofChar? character with
  | some digit =>
      match numeral.takeDigit digit with
      | some continued => .continue continued
      | none => .refuse
  | none =>
      if character = '.' then
        match numeral.part with
        | .zero | .whole => .continue { numeral with part := .point }
        | _ => other
      else if character = 'e' || character = 'E' then
        match numeral.part with
        | .zero | .whole | .fraction => .continue { numeral with part := .mark }
        | _ => other
      else if character = '+' || character = '-' then
        match numeral.part with
        | .mark =>
            .continue
              { numeral with part := .markSign, negativePower := character = '-' }
        | _ => other
      else
        other

def OpenNumeral.close (numeral : OpenNumeral) : Numeral where
  negative := numeral.negative
  whole := numeral.whole.reverse
  fraction := numeral.fraction.reverse
  exponent :=
    if numeral.power.isEmpty then none
    else some (numeral.negativePower, numeral.power.reverse)

/-- A numeral beyond all finite numbers is malformed. -/
def OpenNumeral.token (numeral : OpenNumeral) : Token :=
  let closed := numeral.close
  if closed.quantity?.isSome then .number closed else .malformed

def escapedCharacter? : Char → Option Char
  | '"' => some '"'
  | '\\' => some '\\'
  | '/' => some '/'
  | 'b' => some '\x08'
  | 'f' => some '\x0c'
  | 'n' => some '\n'
  | 'r' => some '\r'
  | 't' => some '\t'
  | _ => none

def hexValue? (character : Char) : Option Nat :=
  if '0' ≤ character ∧ character ≤ '9' then
    some (character.toNat - '0'.toNat)
  else if 'a' ≤ character ∧ character ≤ 'f' then
    some (character.toNat - 'a'.toNat + 10)
  else if 'A' ≤ character ∧ character ≤ 'F' then
    some (character.toNat - 'A'.toNat + 10)
  else
    none

def isHigh (unit : Nat) : Bool :=
  0xD800 ≤ unit && unit < 0xDC00

def isLow (unit : Nat) : Bool :=
  0xDC00 ≤ unit && unit < 0xE000

def pairedCharacter (high low : Nat) : Char :=
  Char.ofNat (0x10000 + (high - 0xD800) * 0x400 + (low - 0xDC00))

/-- The mode after four hexadecimal digits, if they make sense: a high
surrogate must be followed by a low one, and a low one by itself is none. -/
def afterCodeUnit (read : List Char) (high : Option Nat) (unit : Nat) :
    Option Mode :=
  match high with
  | some high =>
      if isLow unit then some (.string (pairedCharacter high unit :: read))
      else none
  | none =>
      if isHigh unit then some (.lowEscape read unit)
      else if isLow unit then none
      else some (.string (Char.ofNat unit :: read))

/-! ## Scanning -/

/-- What a character brings: the tokens that it completes, and the mode after
it, unless the text stops being JSON there. -/
structure Step where
  completed : List Token := []
  next : Option Mode

namespace Step

def go (next : Mode) : Step :=
  { next := some next }

def emit (token : Token) : Step :=
  { completed := [token], next := some .blank }

def refuse : Step :=
  { next := none }

def goIf (next : Option Mode) : Step :=
  { next }

end Step

/-- What a character brings where no token is open. -/
def enter (character : Char) : Step :=
  match character with
  | '[' => .emit .openArray
  | ']' => .emit .closeArray
  | '\x7b' => .emit .openObject
  | '\x7d' => .emit .closeObject
  | ':' => .emit .colon
  | ',' => .emit .comma
  | '"' => .go (.string [])
  | 'n' => .go (.word 'u' ['l', 'l'] .null)
  | 't' => .go (.word 'r' ['u', 'e'] (.bool true))
  | 'f' => .go (.word 'a' ['l', 's', 'e'] (.bool false))
  | '-' => .go (.numeral { part := .sign, negative := true })
  | _ =>
      if isBlank character then
        .go .blank
      else
        .goIf do
          let digit ← Digit.ofChar? character
          let numeral ← OpenNumeral.takeDigit { part := .sign } digit
          some (.numeral numeral)

def step (mode : Mode) (character : Char) : Step :=
  match mode with
  | .blank => enter character
  | .word expected rest token =>
      if character = expected then
        match rest with
        | [] => .emit token
        | following :: rest => .go (.word following rest token)
      else
        .refuse
  | .numeral numeral =>
      match numeral.step character with
      | .continue continued => .go (.numeral continued)
      | .refuse => .refuse
      | .stop =>
          let entered := enter character
          { entered with completed := numeral.token :: entered.completed }
  | .string read =>
      if character = '"' then
        .emit (.string (String.ofList read.reverse))
      else if character = '\\' then
        .go (.escape read)
      else if character.toNat < 0x20 then
        .refuse
      else
        .go (.string (character :: read))
  | .escape read =>
      if character = 'u' then
        .go (.codeUnit read none 0 0)
      else
        .goIf ((escapedCharacter? character).map fun escaped =>
          .string (escaped :: read))
  | .codeUnit read high value digits =>
      .goIf do
        let value := 16 * value + (← hexValue? character)
        if digits = 3 then
          afterCodeUnit read high value
        else
          some (.codeUnit read high value (digits + 1))
  | .lowEscape read high =>
      if character = '\\' then .go (.lowMark read high) else .refuse
  | .lowMark read high =>
      if character = 'u' then .go (.codeUnit read (some high) 0 0) else .refuse

def finish : Mode → List Token
  | .blank => []
  | .numeral numeral =>
      if numeral.part.mayEnd then [numeral.token] else [.malformed]
  | _ => [.malformed]

def scan (mode : Mode) : List Char → List Token
  | [] => finish mode
  | character :: rest =>
      let step := step mode character
      match step.next with
      | some next => step.completed ++ scan next rest
      | none => step.completed ++ [.malformed]

end Lexer

def tokens (text : String) : List Token :=
  Lexer.scan .blank text.toList

end QueryForest.Json
