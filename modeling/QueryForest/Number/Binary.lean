/-!
# Binary floating-point formats

Every finite value of a binary format is a whole number of its smallest
steps.  A magnitude is therefore kept as that count of *units*, and rounding a
quotient is integer arithmetic: the nearest multiple of the step that the
precision allows there, a tie going to the even multiple.
-/

namespace QueryForest.Number

/-- A format keeps `precision` leading bits; its unit is
`2 ^ (-fractionBits)`, and no step is larger than `2 ^ topScale` units. -/
structure BinaryFormat where
  precision : Nat
  fractionBits : Nat
  topScale : Nat
  deriving DecidableEq, Repr

namespace BinaryFormat

def single : BinaryFormat := ⟨24, 149, 253⟩

def double : BinaryFormat := ⟨53, 1074, 2045⟩

def one (format : BinaryFormat) : Nat :=
  1 <<< format.fractionBits

def largest (format : BinaryFormat) : Nat :=
  ((1 <<< format.precision) - 1) <<< format.topScale

/-- The distance from a magnitude to the next larger one, in units. -/
def stepAt (format : BinaryFormat) (units : Nat) : Nat :=
  1 <<< (units.log2 + 1 - format.precision)

end BinaryFormat

/-- The whole number nearest to a quotient; a tie goes to the even one. -/
def roundToEven (numerator denominator : Nat) : Nat :=
  let below := numerator / denominator
  let twice := 2 * (numerator % denominator)
  if twice < denominator || (twice = denominator && below % 2 = 0) then
    below
  else
    below + 1

/-- The magnitude nearest to a quotient, in units, or nothing when that lies
beyond the largest finite one. -/
def BinaryFormat.round
    (format : BinaryFormat) (numerator denominator : Nat) : Option Nat :=
  let scaled := numerator * format.one
  let step := format.stepAt (scaled / denominator)
  let units := roundToEven scaled (denominator * step) * step
  if units ≤ format.largest then some units else none

end QueryForest.Number
