import QueryForest.Number.Single

/-!
# Numerals

A numeral is a number as it is written: a sign, digits before and after a
point, and a power of ten.  What it stands for depends on how it is written:
without point and power it is an integer as long as it fits 64 bits.
-/

namespace QueryForest.Number

/-- The parts of a written number; an exponent is a sign, true for a negative
one, and digits. -/
structure Numeral where
  negative : Bool := false
  whole : List Digit
  fraction : List Digit := []
  exponent : Option (Bool × List Digit) := none
  deriving DecidableEq, Repr

/-- What a numeral stands for: an integer from the ranges of the 64-bit words,
signed or not, or else a 64-bit floating-point number. -/
inductive Quantity where
  | integer (value : Int)
  | fraction (negative : Bool) (magnitude : Double)
  deriving DecidableEq, Repr

def Quantity.toSingle : Quantity → Single
  | .integer value => .ofInt value
  | .fraction negative magnitude => .ofDouble negative magnitude

namespace Numeral

def exponentOf (exponent : Int) : Bool × List Digit :=
  (exponent < 0, digitsOf exponent.natAbs)

/-- The power of ten that is written behind the digits. -/
def power (numeral : Numeral) : Int :=
  match numeral.exponent with
  | none => 0
  | some (true, digits) => -(ofDigits digits : Int)
  | some (false, digits) => ofDigits digits

/-- The integer that is written, if it is written as one and fits: up to
`2 ^ 64 - 1`, or down to `- 2 ^ 63` with a sign, where a signed zero is none. -/
def integer? (numeral : Numeral) : Option Int :=
  let magnitude := ofDigits numeral.whole
  if numeral.fraction != [] || numeral.exponent.isSome then
    none
  else if numeral.negative then
    if 0 < magnitude && magnitude ≤ 0x8000000000000000 then some (-(magnitude : Int)) else none
  else
    if magnitude < 0x10000000000000000 then some magnitude else none

/-- The quantity that is written, unless it is beyond all finite numbers. -/
def quantity? (numeral : Numeral) : Option Quantity :=
  match numeral.integer? with
  | some value => some (.integer value)
  | none => do
      let (significand, places) :=
        significandAndPlaces numeral.whole numeral.fraction
      let magnitude ← Double.ofScientific? significand (places + numeral.power)
      some (.fraction numeral.negative magnitude)

def ofInt (value : Int) : Numeral where
  negative := value < 0
  whole := digitsOf value.natAbs

/-- A written exponent always has a sign. -/
def exponentText : Option (Bool × List Digit) → List Char
  | none => []
  | some (negative, digits) =>
      'e' :: (if negative then '-' else '+') :: digitText digits

def text (numeral : Numeral) : List Char :=
  (if numeral.negative then ['-'] else [])
    ++ digitText numeral.whole
    ++ (if numeral.fraction.isEmpty then [] else '.' :: digitText numeral.fraction)
    ++ exponentText numeral.exponent

end Numeral

end QueryForest.Number
