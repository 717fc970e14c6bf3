import QueryForest.Number.Scientific

/-!
# 32-bit numbers

A 32-bit number is its bit pattern: one bit of sign, eight of exponent and 23
of fraction.  Below the exponent of all ones, the exponent and fraction fields
together count the finite magnitudes in ascending order.
-/

namespace QueryForest.Number

/-- A 32-bit floating-point number, infinities and NaNs included. -/
structure Single where
  bits : UInt32
  deriving DecidableEq, Repr

namespace Single

/-- The sign is the highest bit. -/
def isNegative (single : Single) : Bool :=
  0x80000000 ≤ single.bits.toNat

/-- The exponent field has eight bits, above the fraction. -/
def exponentField (single : Single) : Nat :=
  single.bits.toNat / 0x800000 % 0x100

/-- The fraction field has the lowest 23 bits. -/
def fractionField (single : Single) : Nat :=
  single.bits.toNat % 0x800000

def isFinite (single : Single) : Bool :=
  single.exponentField != 255

def isNaN (single : Single) : Bool :=
  single.exponentField == 255 && single.fractionField != 0

/-- The magnitude of a finite number, as a count of `2 ^ (-149)`. -/
def units (single : Single) : Nat :=
  if single.exponentField = 0 then
    single.fractionField
  else
    (0x800000 + single.fractionField) <<< (single.exponentField - 1)

def withSign (negative : Bool) (pattern : Nat) : Single :=
  ⟨UInt32.ofNat (if negative then 0x80000000 + pattern else pattern)⟩

def infinity (negative : Bool) : Single :=
  withSign negative 0x7F800000

def nan : Single :=
  ⟨0x7FC00000⟩

/-- The number with a sign and a magnitude in units that the format has. -/
def ofUnits (negative : Bool) (units : Nat) : Single :=
  let scale := units.log2 - 23
  withSign negative (scale * 0x800000 + (units >>> scale))

/-- The number nearest to a quotient with a sign; one beyond the largest
finite magnitude becomes an infinity. -/
def ofQuotient (negative : Bool) (numerator denominator : Nat) : Single :=
  match BinaryFormat.single.round numerator denominator with
  | some units => ofUnits negative units
  | none => infinity negative

def ofInt (value : Int) : Single :=
  ofQuotient (value < 0) value.natAbs 1

def ofDouble (negative : Bool) (magnitude : Double) : Single :=
  ofQuotient negative magnitude.units BinaryFormat.double.one

def isWhole (single : Single) : Bool :=
  single.isFinite && single.units % BinaryFormat.single.one == 0

def isZero (single : Single) : Bool :=
  single.isFinite && single.units == 0

/-- A finite number from zero on, negative zero included. -/
def isNonNegative (single : Single) : Bool :=
  single.isFinite && (!single.isNegative || single.units == 0)

/-- A non-negative finite number below one. -/
def isProportion (single : Single) : Bool :=
  single.isNonNegative && single.units < BinaryFormat.single.one

end Single

end QueryForest.Number
