import Mathlib
import QueryForest.Number.Scientific
import QueryForest.Proofs.Number.Fractions
import QueryForest.Proofs.Number.Rounding

/-!
# The error of reading a decimal

Reading the digits of a decimal with a power of ten rounds twice at most.  The
error is at most three parts in `2 ^ 53`, and there is none for a number of
few bits as long as the power of ten is exact.
-/

namespace QueryForest.Number

namespace Double

def value (double : Double) : ℚ :=
  double.units / BinaryFormat.double.one

theorem unit_cast : (BinaryFormat.double.one : ℚ) = 2 ^ 1022 * 2 ^ 52 := by
  have bits : BinaryFormat.double.fractionBits = 1022 + 52 := rfl
  rw [BinaryFormat.one_eq, bits, Nat.cast_pow, pow_add, Nat.cast_ofNat]

theorem unit_pos : (0 : ℚ) < BinaryFormat.double.one := by
  rw [unit_cast]
  positivity

theorem largest_cast : (BinaryFormat.double.largest : ℚ) =
    (2 ^ 53 - 1) * (2 ^ 971 * BinaryFormat.double.one) := by
  have scale : BinaryFormat.double.topScale = 971 + 1074 := rfl
  have bits : BinaryFormat.double.fractionBits = 1074 := rfl
  have precision : BinaryFormat.double.precision = 53 := rfl
  rw [BinaryFormat.largest_eq, BinaryFormat.one_eq, scale, bits, precision, pow_add,
    Nat.cast_mul, Nat.cast_mul, Nat.cast_pow, Nat.cast_pow, Nat.cast_sub (by norm_num)]
  push_cast
  rfl

variable {numerator denominator : Nat}

/-- A quotient that is not too small has all bits of a double. -/
theorem two_pow_le_scaled (low : 1 / 2 ^ 200 ≤ (numerator : ℚ) / denominator) :
    2 ^ (BinaryFormat.double.precision - 1) ≤
      (numerator : ℚ) * BinaryFormat.double.one / denominator := by
  have room : (2 : ℚ) ^ 200 * 2 ^ 52 ≤ BinaryFormat.double.one := by
    rw [unit_cast]
    exact mul_le_mul_of_nonneg_right (pow_le_pow_right₀ (by norm_num) (by norm_num))
      (by positivity)
  have product := mul_le_mul low room (by positivity) (le_trans (by positivity) low)
  rw [mul_div_right_comm]
  refine le_trans (le_of_eq ?_) product
  rw [← mul_assoc, one_div, inv_mul_cancel₀ (by positivity), one_mul]
  rfl

/-- A quotient that is not too large is within all doubles. -/
theorem two_mul_scaled_le_largest (high : (numerator : ℚ) / denominator ≤ 2 ^ 200) :
    2 * ((numerator : ℚ) * BinaryFormat.double.one / denominator) ≤
      BinaryFormat.double.largest := by
  have more : (2 : ℚ) ^ 200 ≤ 2 ^ 971 := pow_le_pow_right₀ (by norm_num) (by norm_num)
  have room : (2 : ℚ) * 2 ^ 200 ≤ (2 ^ 53 - 1) * 2 ^ 971 :=
    mul_le_mul (by norm_num) more (by positivity) (by norm_num)
  have product := mul_le_mul_of_nonneg_right high unit_pos.le
  rw [mul_div_right_comm, largest_cast]
  calc 2 * ((numerator : ℚ) / denominator * BinaryFormat.double.one)
      ≤ 2 * (2 ^ 200 * BinaryFormat.double.one) :=
        mul_le_mul_of_nonneg_left product (by norm_num)
    _ = 2 * 2 ^ 200 * BinaryFormat.double.one := (mul_assoc ..).symm
    _ ≤ (2 ^ 53 - 1) * 2 ^ 971 * BinaryFormat.double.one :=
        mul_le_mul_of_nonneg_right room unit_pos.le
    _ = (2 ^ 53 - 1) * (2 ^ 971 * BinaryFormat.double.one) := mul_assoc ..

/-- Rounding a quotient to 64 bits. -/
theorem exists_ofQuotient? (numerator : Nat) (positive : 0 < denominator)
    (low : 1 / 2 ^ 200 ≤ (numerator : ℚ) / denominator)
    (high : (numerator : ℚ) / denominator ≤ 2 ^ 200) :
    ∃ double, ofQuotient? numerator denominator = some double ∧
      |double.value - (numerator : ℚ) / denominator| ≤
        (numerator : ℚ) / denominator / 2 ^ 53 := by
  have one := unit_pos
  have scaled : (numerator : ℚ) * BinaryFormat.double.one / denominator =
      numerator / denominator * BinaryFormat.double.one := by ring
  obtain ⟨units, rounded, error⟩ := BinaryFormat.exists_round numerator
    (by decide : 0 < BinaryFormat.double.precision) positive (two_pow_le_scaled low)
    (two_mul_scaled_le_largest high)
  refine ⟨⟨units⟩, by rw [ofQuotient?, rounded]; rfl, ?_⟩
  have distance : (units : ℚ) / BinaryFormat.double.one - numerator / denominator =
      (units - numerator * BinaryFormat.double.one / denominator) /
        BinaryFormat.double.one := by
    field_simp
  show |(units : ℚ) / BinaryFormat.double.one - _| ≤ _
  rw [distance, abs_div, abs_of_pos one, div_le_iff₀ one]
  refine error.trans (le_of_eq ?_)
  rw [scaled]
  show _ / (2 : ℚ) ^ 53 = _
  ring

/-- A quotient of few bits is not rounded. -/
theorem ofQuotient?_exactly (positive : 0 < denominator) {significand : Nat} {exponent : Int}
    (few : significand < 2 ^ 53) (low : -1074 ≤ exponent) (high : exponent ≤ 900)
    (exactly : (numerator : ℚ) / denominator = significand * 2 ^ exponent) :
    ∃ double, ofQuotient? numerator denominator = some double ∧
      double.value = (numerator : ℚ) / denominator := by
  obtain ⟨scale, lifted⟩ : ∃ scale : Nat, (scale : Int) = exponent + 1074 :=
    ⟨(exponent + 1074).toNat, by omega⟩
  have precise : 0 < BinaryFormat.double.precision := by decide
  obtain ⟨leading, place, parts⟩ :=
    BinaryFormat.exists_parts precise few scale
  have bits : BinaryFormat.double.fractionBits = 1074 := rfl
  have unit : (BinaryFormat.double.one : ℚ) = 2 ^ (1074 : Int) := by
    rw [BinaryFormat.one_eq, bits, Nat.cast_pow, Nat.cast_ofNat]
    rfl
  have units : (numerator : ℚ) / denominator * BinaryFormat.double.one =
      (significand * 2 ^ scale : Nat) := by
    rw [exactly, unit, mul_assoc, ← zpow_add₀ (by norm_num), ← lifted, zpow_natCast,
      Nat.cast_mul, Nat.cast_pow, Nat.cast_ofNat]
  have finite : significand * 2 ^ scale ≤ BinaryFormat.double.largest := by
    rw [BinaryFormat.largest_eq]
    exact Nat.mul_le_mul (Nat.le_sub_one_of_lt few)
      (Nat.pow_le_pow_right (by norm_num) (by show scale ≤ 2045; omega))
  refine ⟨⟨significand * 2 ^ scale⟩, ?_, ?_⟩
  · rw [ofQuotient?, BinaryFormat.round_eq_self precise positive parts finite]
    · rfl
    · rw [← units]
      ring
  · show ((significand * 2 ^ scale : Nat) : ℚ) / _ = _
    rw [← units, mul_div_cancel_right₀ _ (ne_of_gt unit_pos)]

theorem value_pos_iff {double : Double} : 0 < double.value ↔ double.units ≠ 0 := by
  unfold value
  rw [div_pos_iff_of_pos_right unit_pos, Nat.cast_pos, Nat.pos_iff_ne_zero]

theorem value_div_value (left right : Double) :
    left.value / right.value = (left.units : ℚ) / right.units := by
  unfold value
  rw [div_div_div_cancel_right₀ (ne_of_gt unit_pos)]

theorem value_mul_value (left right : Double) :
    left.value * right.value = ((left.units * right.units : Nat) : ℚ) /
      ((BinaryFormat.double.one * BinaryFormat.double.one : Nat) : ℚ) := by
  unfold value
  rw [div_mul_div_comm, Nat.cast_mul, Nat.cast_mul]

theorem exists_ofNat {natural : Nat} (few : natural < 2 ^ 53) :
    ∃ double, ofQuotient? natural 1 = some double ∧ double.value = natural := by
  have exactly : (natural : ℚ) / (1 : Nat) = natural * 2 ^ (0 : Int) := by norm_num
  obtain ⟨double, found, same⟩ := ofQuotient?_exactly Nat.one_pos few (by norm_num)
    (by norm_num) exactly
  exact ⟨double, found, by rw [same, Nat.cast_one, div_one]⟩

theorem exists_powerOfTen? {places : Nat} (few : places ≤ 53) :
    ∃ power, powerOfTen? places = some power ∧
      |power.value - 10 ^ places| ≤ 10 ^ places / 2 ^ 53 ∧
      (places ≤ 22 → power.value = 10 ^ places) := by
  have cast : ((Number.powerOfTen places : Nat) : ℚ) / (1 : Nat) = 10 ^ places := by
    show ((10 ^ places : Nat) : ℚ) / (1 : Nat) = 10 ^ places
    push_cast
    exact div_one _
  have low : (1 : ℚ) ≤ 10 ^ places := one_le_pow₀ (by norm_num)
  have high : (10 : ℚ) ^ places ≤ 10 ^ 53 := pow_le_pow_right₀ (by norm_num) few
  obtain ⟨power, found, error⟩ := exists_ofQuotient?
    (Number.powerOfTen places) Nat.one_pos
    (by rw [cast]; exact le_trans (by norm_num) low)
    (by rw [cast]; exact le_trans high (by norm_num))
  rw [cast] at error
  refine ⟨power, found, error, fun short => ?_⟩
  have factors : ((Number.powerOfTen places : Nat) : ℚ) / (1 : Nat) =
      (5 ^ places : Nat) * 2 ^ (places : Int) := by
    rw [cast, Nat.cast_pow, zpow_natCast, Nat.cast_ofNat, ← mul_pow]
    norm_num
  have bits : 5 ^ places < 2 ^ 53 :=
    lt_of_le_of_lt (Nat.pow_le_pow_right (by norm_num) short) (by norm_num)
  obtain ⟨same, sameFound, exactly⟩ :=
    ofQuotient?_exactly Nat.one_pos bits (by omega) (by omega) factors
  rw [sameFound] at found
  cases found
  rw [exactly, cast]

/-- How far reading may move a decimal: by little, and not at all if the power of
ten is exact and the number has few bits. -/
structure Reads (double : Double) (power : Int) (decimal : ℚ) : Prop where
  near : |double.value - decimal| ≤ 3 / 2 ^ 53 * decimal
  exactly : power.natAbs ≤ 22 → ∀ (significand : Nat) (exponent : Int),
    significand < 2 ^ 53 → -1074 ≤ exponent → exponent ≤ 900 →
      decimal = significand * 2 ^ exponent → double.value = decimal

/-- Rounding a quotient that is already rounded once. -/
theorem exists_reads {numerator denominator : Nat} (power : Int) (decimal : ℚ)
    (positive : 0 < denominator)
    (low : 1 / 2 ^ 190 ≤ decimal) (high : decimal ≤ 2 ^ 190)
    (less : (numerator : ℚ) / denominator * (1 - 3 / 2 ^ 54) ≤ decimal)
    (more : decimal ≤ (numerator : ℚ) / denominator * (1 + 3 / 2 ^ 54))
    (short : power.natAbs ≤ 22 → (numerator : ℚ) / denominator = decimal) :
    ∃ double, ofQuotient? numerator denominator = some double ∧
      double.Reads power decimal := by
  have twice : (1 : ℚ) / 2 ^ 190 = 2 * (1 / 2 ^ 191) := by norm_num
  have half : (2 : ℚ) ^ 200 = 2 * (2 ^ 199) := by norm_num
  obtain ⟨double, found, error⟩ := exists_ofQuotient? numerator positive
    (by norm_num at *; linarith) (by norm_num at *; linarith)
  refine ⟨double, found, ?_, fun few significand exponent bits above below same => ?_⟩
  · rw [abs_le] at error ⊢
    constructor <;> norm_num at * <;> linarith
  · have quotient := short few
    obtain ⟨other, otherFound, exactly⟩ :=
      ofQuotient?_exactly positive bits above below (quotient.trans same)
    rw [found] at otherFound
    cases otherFound
    rw [exactly, quotient]

section

variable {digits ten power : ℚ}

theorem ten_bounds (tenPositive : 0 < ten) (error : |power - ten| ≤ ten / 2 ^ 53) :
    power * (1 - 3 / 2 ^ 54) ≤ ten ∧ ten ≤ power * (1 + 3 / 2 ^ 54) ∧
      ten * (1 - 3 / 2 ^ 54) ≤ power ∧ power ≤ ten * (1 + 3 / 2 ^ 54) := by
  rw [abs_le] at error
  norm_num at error ⊢
  refine ⟨?_, ?_, ?_, ?_⟩ <;> linarith

theorem div_bounds (digitsPositive : 0 < digits) (tenPositive : 0 < ten)
    (error : |power - ten| ≤ ten / 2 ^ 53) :
    0 < power ∧ digits / power * (1 - 3 / 2 ^ 54) ≤ digits / ten ∧
      digits / ten ≤ digits / power * (1 + 3 / 2 ^ 54) := by
  obtain ⟨_, _, low, high⟩ := ten_bounds tenPositive error
  have positive : 0 < power := lt_of_lt_of_le (by positivity) low
  refine ⟨positive, ?_, ?_⟩
  · rw [div_mul_eq_mul_div, div_le_div_iff₀ positive tenPositive, mul_assoc]
    rw [mul_comm ten] at low
    exact mul_le_mul_of_nonneg_left low digitsPositive.le
  · rw [div_mul_eq_mul_div, div_le_div_iff₀ tenPositive positive, mul_assoc]
    rw [mul_comm ten] at high
    exact mul_le_mul_of_nonneg_left high digitsPositive.le

end

theorem ofScientific?_ofNat {digits places : Nat} {left power : Double}
    (leftFound : ofQuotient? digits 1 = some left) (few : places ≤ largestPower)
    (found : powerOfTen? places = some power) :
    ofScientific? digits (.ofNat places) = left.times? power := by
  unfold ofScientific?
  rw [leftFound]
  dsimp only [Option.bind_eq_bind, Option.bind_some]
  rw [if_pos few, found]
  exact Option.bind_some ..

theorem ofScientific?_negSucc {digits places : Nat} {left power : Double}
    (leftFound : ofQuotient? digits 1 = some left) (nonzero : left.units ≠ 0)
    (few : places < largestPower) (found : powerOfTen? (places + 1) = some power) :
    ofScientific? digits (.negSucc places) = left.dividedBy? power := by
  have none : places / largestPower = 0 := Nat.div_eq_of_lt few
  unfold ofScientific?
  rw [leftFound]
  dsimp only [Option.bind_eq_bind, Option.bind_some]
  rw [none, lowerBy]
  dsimp only [Option.bind_eq_bind, Option.bind_some]
  rw [if_neg nonzero, Nat.zero_mul, Nat.sub_zero, found]
  exact Option.bind_some ..
theorem exists_reads_ofNat {digits places : Nat} (positive : 0 < digits)
    (small : digits < 2 ^ 53) (few : places ≤ 38) :
    ∃ double, ofScientific? digits (.ofNat places) = some double ∧
      double.Reads (.ofNat places) (digits * 10 ^ places) := by
  obtain ⟨left, leftFound, leftValue⟩ := exists_ofNat small
  obtain ⟨power, found, error, short⟩ := exists_powerOfTen? (by omega : places ≤ 53)
  have positiveOne : 0 < BinaryFormat.double.one * BinaryFormat.double.one := by
    rw [BinaryFormat.one_eq]
    positivity
  have product := value_mul_value left power
  rw [leftValue] at product
  have digitsLow : (1 : ℚ) ≤ digits := by exact_mod_cast positive
  have digitsHigh : (digits : ℚ) ≤ 2 ^ 53 := by exact_mod_cast small.le
  have powerLow : (1 : ℚ) ≤ 10 ^ places := one_le_pow₀ (by norm_num)
  have powerHigh : (10 : ℚ) ^ places ≤ 10 ^ 38 := pow_le_pow_right₀ (by norm_num) few
  obtain ⟨less, more, _, _⟩ := ten_bounds (by positivity) error
  obtain ⟨double, rounded, reads⟩ := exists_reads (.ofNat places) (digits * 10 ^ places)
    positiveOne
    (le_trans (by norm_num) (mul_le_mul digitsLow powerLow (by norm_num) (by positivity)))
    (le_trans (mul_le_mul digitsHigh powerHigh (by positivity) (by positivity)) (by norm_num))
    (by
      rw [← product, mul_assoc]
      exact mul_le_mul_of_nonneg_left less (by positivity))
    (by
      rw [← product, mul_assoc]
      exact mul_le_mul_of_nonneg_left more (by positivity))
    (by
      intro exactly
      rw [← product, short exactly])
  refine ⟨double, ?_, reads⟩
  have within : places ≤ largestPower := by
    rw [largestPower]
    omega
  rw [ofScientific?_ofNat leftFound within found, times?]
  exact rounded

theorem exists_reads_negSucc {digits places : Nat} (positive : 0 < digits)
    (small : digits < 2 ^ 53) (few : places < 53) :
    ∃ double, ofScientific? digits (.negSucc places) = some double ∧
      double.Reads (.negSucc places) (digits / 10 ^ (places + 1)) := by
  obtain ⟨left, leftFound, leftValue⟩ := exists_ofNat small
  obtain ⟨power, found, error, short⟩ := exists_powerOfTen? (by omega : places + 1 ≤ 53)
  have quotient := value_div_value left power
  rw [leftValue] at quotient
  have digitsLow : (1 : ℚ) ≤ digits := by exact_mod_cast positive
  have digitsHigh : (digits : ℚ) ≤ 2 ^ 53 := by exact_mod_cast small.le
  have powerLow : (1 : ℚ) ≤ 10 ^ (places + 1) := one_le_pow₀ (by norm_num)
  have powerHigh : (10 : ℚ) ^ (places + 1) ≤ 10 ^ 53 := pow_le_pow_right₀ (by norm_num) few
  have powerPositive : (0 : ℚ) < 10 ^ (places + 1) := by positivity
  obtain ⟨valuePositive, less, more⟩ :=
    div_bounds (lt_of_lt_of_le one_pos digitsLow) powerPositive error
  obtain ⟨double, rounded, reads⟩ := exists_reads (.negSucc places)
    (digits / 10 ^ (places + 1))
    (Nat.pos_of_ne_zero (value_pos_iff.mp valuePositive))
    (le_trans (by norm_num) (div_le_div₀ (by positivity) digitsLow powerPositive powerHigh))
    (le_trans (div_le_div₀ (by positivity) digitsHigh one_pos powerLow) (by norm_num))
    (by
      rw [← quotient]
      exact less)
    (by
      rw [← quotient]
      exact more)
    (by
      intro exactly
      rw [← quotient, short exactly])
  refine ⟨double, ?_, reads⟩
  have within : places < largestPower := by
    rw [largestPower]
    omega
  have nonzero : left.units ≠ 0 := value_pos_iff.mp (by rw [leftValue]; linarith)
  rw [ofScientific?_negSucc leftFound nonzero within found, dividedBy?]
  exact rounded

/-- A decimal is read with a small error. -/
theorem exists_reads_ofScientific? {digits : Nat} {power : Int} (positive : 0 < digits)
    (small : digits < 2 ^ 53) (low : -53 ≤ power) (high : power ≤ 38) :
    ∃ double, ofScientific? digits power = some double ∧
      double.Reads power (digits * 10 ^ power) := by
  cases power with
  | ofNat places =>
      rw [Int.ofNat_eq_natCast] at high
      rw [Int.ofNat_eq_natCast, zpow_natCast]
      exact exists_reads_ofNat positive small (by omega)
  | negSucc places =>
      rw [zpow_negSucc, ← div_eq_mul_inv]
      exact exists_reads_negSucc positive small (by omega)

end Double

end QueryForest.Number
