import QueryForest.Number.Single

/-!
# Shortest decimals

The shortest decimal of a binary number has the fewest digits among those that
read back to it; of several such decimals it is the nearest one.  On the grid
of decimals with a given number of digits only the two neighbours of the exact
value have to be tried: if any point of the grid reads back to the value, one
of its neighbours does.
-/

namespace QueryForest.Number

/-- The number `digits * 10 ^ exponent`. -/
structure Decimal where
  digits : Nat
  exponent : Int
  deriving DecidableEq, Repr

inductive Tie where
  | even
  | up
  deriving DecidableEq, Repr

/-- The multiples of `10 ^ exponent`, measured in units of a binary format:
point number `n` lies `n * spacing / scale` units above zero. -/
structure DecimalGrid where
  exponent : Int
  spacing : Nat
  scale : Nat

namespace BinaryFormat

def grid (format : BinaryFormat) (exponent : Int) : DecimalGrid where
  exponent := exponent
  spacing := format.one * powerOfTen exponent.toNat
  scale := powerOfTen (-exponent).toNat

def leadingExponent (format : BinaryFormat) (units : Nat) : Int :=
  let lifted := units * powerOfTen format.fractionBits / format.one
  ((Nat.toDigits 10 lifted).length : Int) - 1 - format.fractionBits

/-- Whether a grid point reads back to a magnitude: it has to lie within half
a step above it, and within half a step below it, which is a smaller step just
above a power of two.  The ends belong to an even significand.  Distances are
taken in quarters of a unit. -/
def readsBack (format : BinaryFormat) (units : Nat)
    (grid : DecimalGrid) (point : Nat) : Bool :=
  let step := format.stepAt units
  let significand := units / step
  let stepBelow :=
    if significand = 1 <<< (format.precision - 1) then format.stepAt (units - 1)
    else step
  let lowest := (4 * units - 2 * stepBelow) * grid.scale
  let highest := (4 * units + 2 * step) * grid.scale
  let place := 4 * point * grid.spacing
  if significand % 2 = 0 then
    lowest ≤ place && place ≤ highest
  else
    lowest < place && place < highest

/-- The nearer of the neighbours that read back, if any does. -/
def nearestOnGrid? (format : BinaryFormat) (tie : Tie) (units : Nat)
    (grid : DecimalGrid) : Option Nat :=
  let below := units * grid.scale / grid.spacing
  let twice := 2 * (units * grid.scale % grid.spacing)
  let belowIsNearer : Bool :=
    match compare twice grid.spacing with
    | .lt => true
    | .gt => false
    | .eq => tie = .even && below % 2 = 0
  match format.readsBack units grid below,
      format.readsBack units grid (below + 1) with
  | true, true => some (if belowIsNearer then below else below + 1)
  | true, false => some below
  | false, true => some (below + 1)
  | false, false => none

/-- Try ever finer grids, a given number of them. -/
def shortestFrom (format : BinaryFormat) (tie : Tie) (units : Nat)
    (exponent : Int) : Nat → Decimal
  | 0 =>
      let grid := format.grid exponent
      ⟨units * grid.scale / grid.spacing, exponent⟩
  | grids + 1 =>
      match format.nearestOnGrid? tie units (format.grid exponent) with
      | some digits => ⟨digits, exponent⟩
      | none => format.shortestFrom tie units (exponent - 1) grids

end BinaryFormat

/-- Leave out one trailing zero, which a single digit rounded up brings. -/
def Decimal.withoutTrailingZero (decimal : Decimal) : Decimal :=
  if decimal.digits = 10 then ⟨1, decimal.exponent + 1⟩ else decimal

def BinaryFormat.shortest
    (format : BinaryFormat) (tie : Tie) (units : Nat) : Decimal :=
  if units = 0 then
    ⟨0, 0⟩
  else
    (format.shortestFrom tie units (format.leadingExponent units)
      format.precision).withoutTrailingZero

end QueryForest.Number
