import QueryForest.Number.Numeral
import QueryForest.Number.Shortest

/-!
# Laying out decimals

The digits of a 32-bit number are written in one of two layouts.  Plain text
never uses an exponent and writes whole numbers without a point.  Data keeps
`.0` on whole numbers and turns to an exponent for very small and very large
ones.
-/

namespace QueryForest.Number

/-- How the digits of a decimal are laid out: which of two equally near
decimals is written, between which exponents of the leading digit no exponent
is used, and how many digits follow the point at least. -/
structure Layout where
  tie : Tie
  positional : Int → Bool
  leastFraction : Nat

namespace Layout

/-- Plain text: always positional, and the larger of two equally near
decimals. -/
def plain : Layout where
  tie := .up
  positional := fun _ => true
  leastFraction := 0

/-- Data: positional from six places after the point to thirteen before it,
with one digit after the point at least, and the even one of two equally near
decimals. -/
def data : Layout where
  tie := .even
  positional := fun leading => -6 ≤ leading && leading ≤ 12
  leastFraction := 1

end Layout

def Layout.numeral
    (layout : Layout) (negative : Bool) (decimal : Decimal) : Numeral :=
  let digits := digitsOf decimal.digits
  let leading := (digits.length : Int) - 1 + decimal.exponent
  if layout.positional leading then
    let shifted := digits ++ List.replicate decimal.exponent.toNat .zero
    let places := (-decimal.exponent).toNat
    let padded := List.replicate (places + 1 - shifted.length) .zero ++ shifted
    let fraction := padded.drop (padded.length - places)
    { negative
      whole := padded.take (padded.length - places)
      fraction :=
        fraction ++ List.replicate (layout.leastFraction - fraction.length) .zero }
  else
    { negative
      whole := digits.take 1
      fraction := digits.drop 1
      exponent := some (Numeral.exponentOf leading) }

namespace Single

def numeral (layout : Layout) (single : Single) : Numeral :=
  layout.numeral single.isNegative
    (BinaryFormat.single.shortest layout.tie single.units)

/-- A number as plain text; a NaN has no sign. -/
def text (single : Single) : String :=
  if single.isFinite then
    String.ofList (single.numeral .plain).text
  else if single.isNaN then
    "NaN"
  else if single.isNegative then
    "-inf"
  else
    "inf"

end Single

end QueryForest.Number
