import QueryForest.Number.Binary
import QueryForest.Number.Digit

/-!
# Reading decimal digits as 64-bit numbers

A decimal numeral is read in three roundings at most: its leading digits make
a 64-bit natural number, that number is rounded, and it is then multiplied or
divided by a rounded power of ten.  Digits that no longer fit the natural
number are left out; those before the decimal point still count as places.
-/

namespace QueryForest.Number

/-- A finite, non-negative 64-bit number, as a count of `2 ^ (-1074)`. -/
structure Double where
  units : Nat
  deriving DecidableEq, Repr

namespace Double

/-- The 64-bit number nearest to a quotient, if it is finite. -/
def ofQuotient? (numerator denominator : Nat) : Option Double :=
  (BinaryFormat.double.round numerator denominator).map Double.mk

def times? (left right : Double) : Option Double :=
  ofQuotient? (left.units * right.units)
    (BinaryFormat.double.one * BinaryFormat.double.one)

def dividedBy? (left right : Double) : Option Double :=
  ofQuotient? left.units right.units

def floor (double : Double) : Nat :=
  double.units / BinaryFormat.double.one

end Double

/-- Take digits into a 64-bit natural number as long as it does not overflow,
and return the number with the digits that were left out. -/
def absorb (significand : Nat) : List Digit → Nat × List Digit
  | [] => (significand, [])
  | head :: tail =>
      if 10 * significand + head < 0x10000000000000000 then
        absorb (10 * significand + head) tail
      else
        (significand, head :: tail)

/-- The significand and the power of ten that the digits around a decimal
point stand for. -/
def significandAndPlaces (whole fraction : List Digit) : Nat × Int :=
  let (significand, omittedWhole) := absorb 0 whole
  let (significand, omittedFraction) := absorb significand fraction
  let fractionPlaces := fraction.length - omittedFraction.length
  (significand, (omittedWhole.length : Int) - fractionPlaces)

namespace Double

def largestPower : Nat := 308

def powerOfTen? (exponent : Nat) : Option Double :=
  ofQuotient? (powerOfTen exponent) 1

/-- Divide by the largest power of ten a number of times, at most until
nothing is left. -/
def lowerBy (steps : Nat) (value : Double) : Option Double :=
  match steps with
  | 0 => some value
  | steps + 1 =>
      if value.units = 0 then
        some value
      else do
        lowerBy steps (← value.dividedBy? (← powerOfTen? largestPower))

/-- A significand times a power of ten, or nothing when that is too large for
a finite number. -/
def ofScientific? (significand : Nat) (exponent : Int) : Option Double := do
  let value ← ofQuotient? significand 1
  match exponent with
  | .ofNat places =>
      if places ≤ largestPower then
        value.times? (← powerOfTen? places)
      else if value.units = 0 then
        some value
      else
        none
  | .negSucc places =>
      let steps := places / largestPower
      let lowered ← lowerBy steps value
      if lowered.units = 0 then
        some lowered
      else
        lowered.dividedBy? (← powerOfTen? (places + 1 - steps * largestPower))

end Double

end QueryForest.Number
