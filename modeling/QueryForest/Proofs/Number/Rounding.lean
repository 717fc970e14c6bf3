import Mathlib
import QueryForest.Number.Single

/-!
# Rounding

Rounding a quotient to a binary format gives the magnitude around it: the one
within half a step, an even significand at the ends.  The error is at most half
a step, and nothing for a magnitude of the format.
-/

namespace QueryForest.Number

/-- What is left of a whole number is at most one half of the divisor, exactly if the
quotient of the two is at most one half. -/
theorem cast_div_le_half_iff {rest denominator : Nat} (positive : 0 < denominator) :
    (rest : ℚ) / denominator ≤ 1 / 2 ↔ 2 * rest ≤ denominator := by
  rw [div_le_div_iff₀ (by exact_mod_cast positive) (by norm_num), one_mul, mul_comm]
  exact_mod_cast Iff.rfl

theorem half_le_cast_div_iff {rest denominator : Nat} (positive : 0 < denominator) :
    1 / 2 ≤ (rest : ℚ) / denominator ↔ denominator ≤ 2 * rest := by
  rw [div_le_div_iff₀ (by norm_num) (by exact_mod_cast positive), one_mul, mul_comm (rest : ℚ)]
  exact_mod_cast Iff.rfl

theorem cast_div_eq_half_iff {rest denominator : Nat} (positive : 0 < denominator) :
    (rest : ℚ) / denominator = 1 / 2 ↔ 2 * rest = denominator := by
  rw [le_antisymm_iff, cast_div_le_half_iff positive, half_le_cast_div_iff positive,
    ← le_antisymm_iff]

theorem cast_div_eq_add (numerator : Nat) {denominator : Nat} (positive : 0 < denominator) :
    (numerator : ℚ) / denominator =
      (numerator / denominator : Nat) + ((numerator % denominator : Nat) : ℚ) / denominator := by
  have nonzero : (denominator : ℚ) ≠ 0 := by exact_mod_cast positive.ne'
  rw [div_eq_iff nonzero, add_mul, div_mul_cancel₀ _ nonzero]
  exact_mod_cast (Nat.div_add_mod' numerator denominator).symm

/-- A quotient is rounded down or up, to the nearer whole number, and to the even one
from the middle. -/
theorem roundToEven_cases (numerator denominator : Nat) :
    (roundToEven numerator denominator = numerator / denominator ∧
      2 * (numerator % denominator) ≤ denominator ∧
      (2 * (numerator % denominator) = denominator → numerator / denominator % 2 = 0)) ∨
    (roundToEven numerator denominator = numerator / denominator + 1 ∧
      denominator ≤ 2 * (numerator % denominator) ∧
      (2 * (numerator % denominator) = denominator →
        (numerator / denominator + 1) % 2 = 0)) := by
  simp only [roundToEven, Bool.or_eq_true, decide_eq_true_eq, Bool.and_eq_true]
  split
  · exact .inl ⟨rfl, by omega, by omega⟩
  · exact .inr ⟨rfl, by omega, by omega⟩

theorem roundToEven_near (numerator : Nat) {denominator : Nat} (positive : 0 < denominator) :
    |(roundToEven numerator denominator : ℚ) - numerator / denominator| ≤ 1 / 2 ∧
      (|(roundToEven numerator denominator : ℚ) - numerator / denominator| = 1 / 2 →
        roundToEven numerator denominator % 2 = 0) := by
  rw [cast_div_eq_add numerator positive]
  rcases roundToEven_cases numerator denominator with ⟨down, half, even⟩ | ⟨up, half, even⟩
  · have nonneg : (0 : ℚ) ≤ ((numerator % denominator : Nat) : ℚ) / denominator := by positivity
    rw [down, sub_add_cancel_left, abs_neg, abs_of_nonneg nonneg,
      cast_div_le_half_iff positive, cast_div_eq_half_iff positive]
    exact ⟨half, even⟩
  · have below : ((numerator % denominator : Nat) : ℚ) / denominator ≤ 1 := by
      rw [div_le_one (by exact_mod_cast positive)]
      exact_mod_cast (Nat.mod_lt numerator positive).le
    rw [up, Nat.cast_add, Nat.cast_one, add_sub_add_left_eq_sub, abs_of_nonneg (by linarith)]
    refine ⟨?_, fun tie => even ((cast_div_eq_half_iff positive).mp (by linarith))⟩
    have large := (half_le_cast_div_iff positive).mpr half
    linarith

/-- The only whole number within one half is what is rounded to; of two at the
same distance it is the even one. -/
theorem roundToEven_eq {numerator denominator whole : Nat} (positive : 0 < denominator)
    (near : |(whole : ℚ) - numerator / denominator| ≤ 1 / 2)
    (tie : |(whole : ℚ) - numerator / denominator| = 1 / 2 → whole % 2 = 0) :
    roundToEven numerator denominator = whole := by
  obtain ⟨roundedNear, roundedTie⟩ := roundToEven_near numerator positive
  generalize roundToEven numerator denominator = rounded at *
  generalize (numerator : ℚ) / denominator = quotient at *
  rcases Nat.lt_trichotomy rounded whole with less | same | more
  · have apart : (rounded : ℚ) + 1 ≤ whole := by exact_mod_cast less
    rw [abs_le] at near roundedNear
    have far : (rounded : ℚ) + 1 = whole := by linarith
    have even := roundedTie (by rw [abs_of_nonpos (by linarith)]; linarith)
    have evenToo := tie (by rw [abs_of_nonneg (by linarith)]; linarith)
    have next : rounded + 1 = whole := by exact_mod_cast far
    omega
  · exact same
  · have apart : (whole : ℚ) + 1 ≤ rounded := by exact_mod_cast more
    rw [abs_le] at near roundedNear
    have far : (whole : ℚ) + 1 = rounded := by linarith
    have even := roundedTie (by rw [abs_of_nonneg (by linarith)]; linarith)
    have evenToo := tie (by rw [abs_of_nonpos (by linarith)]; linarith)
    have next : whole + 1 = rounded := by exact_mod_cast far
    omega

namespace BinaryFormat

theorem one_eq (format : BinaryFormat) : format.one = 2 ^ format.fractionBits := by
  rw [one, Nat.one_shiftLeft]

theorem one_pos (format : BinaryFormat) : 0 < format.one := by
  rw [one_eq]
  positivity

theorem largest_eq (format : BinaryFormat) :
    format.largest = (2 ^ format.precision - 1) * 2 ^ format.topScale := by
  rw [largest, Nat.shiftLeft_eq, Nat.one_shiftLeft]

/-- A magnitude in units as a significand of the format and a power of two, the
significand with all its bits unless there is no power. -/
structure Parts (format : BinaryFormat) (units significand scale : Nat) : Prop where
  units_eq : units = significand * 2 ^ scale
  small : significand < 2 ^ format.precision
  leads : scale = 0 ∨ 2 ^ (format.precision - 1) ≤ significand

/-- The distance from a magnitude to the next smaller one, in units. -/
def stepBelow (format : BinaryFormat) (units : Nat) : Nat :=
  if units / format.stepAt units = 1 <<< (format.precision - 1) then
    format.stepAt (units - 1)
  else
    format.stepAt units

variable {format : BinaryFormat} {units significand scale : Nat}

theorem stepAt_pos (format : BinaryFormat) (units : Nat) : 0 < format.stepAt units := by
  rw [stepAt, Nat.one_shiftLeft]
  positivity

theorem stepBelow_pos (format : BinaryFormat) (units : Nat) : 0 < format.stepBelow units := by
  unfold stepBelow
  split
  · exact format.stepAt_pos (units - 1)
  · exact format.stepAt_pos units

theorem stepAt_mul_le (precise : 0 < format.precision)
    (enough : 2 ^ (format.precision - 1) ≤ units) :
    format.stepAt units * 2 ^ format.precision ≤ 2 * units := by
  have nonzero : units ≠ 0 := (Nat.lt_of_lt_of_le (by positivity) enough).ne'
  have places : format.precision - 1 ≤ units.log2 := (Nat.le_log2 nonzero).mpr enough
  have bits : units.log2 + 1 - format.precision + format.precision = units.log2 + 1 := by omega
  rw [stepAt, Nat.one_shiftLeft, ← Nat.pow_add, bits, Nat.pow_succ']
  exact Nat.mul_le_mul_left 2 (Nat.log2_self_le nonzero)

theorem stepAt_of_bounds (precise : 0 < format.precision)
    (low : scale = 0 ∨ 2 ^ (format.precision - 1) * 2 ^ scale ≤ units)
    (high : units < 2 ^ format.precision * 2 ^ scale) :
    format.stepAt units = 2 ^ scale := by
  have places : units.log2 + 1 - format.precision = scale := by
    by_cases zero : units = 0
    · subst zero
      have none : scale = 0 := low.resolve_right (Nat.not_le.mpr (by positivity))
      rw [none, Nat.log2_zero]
      omega
    · rw [← Nat.pow_add] at low high
      have above := (Nat.log2_lt zero).mpr high
      rcases low with none | low
      · omega
      · have below := (Nat.le_log2 zero).mpr low
        omega
  rw [stepAt, places, Nat.one_shiftLeft]

namespace Parts

theorem stepAt_eq (precise : 0 < format.precision)
    (parts : format.Parts units significand scale) :
    format.stepAt units = 2 ^ scale := by
  apply stepAt_of_bounds precise
  · rw [parts.units_eq]
    exact parts.leads.imp_right (Nat.mul_le_mul_right _)
  · rw [parts.units_eq]
    exact Nat.mul_lt_mul_of_pos_right parts.small (by positivity)

theorem cast_stepAt (precise : 0 < format.precision)
    (parts : format.Parts units significand scale) :
    (format.stepAt units : ℚ) = 2 ^ scale := by
  rw [parts.stepAt_eq precise, Nat.cast_pow, Nat.cast_ofNat]

theorem significand_eq (precise : 0 < format.precision)
    (parts : format.Parts units significand scale) :
    units / format.stepAt units = significand := by
  rw [parts.stepAt_eq precise, parts.units_eq]
  exact Nat.mul_div_cancel _ (by positivity)

theorem stepBelow_eq (precise : 0 < format.precision)
    (parts : format.Parts units significand scale)
    (within : scale = 0 ∨ significand ≠ 2 ^ (format.precision - 1)) :
    format.stepBelow units = 2 ^ scale := by
  rw [stepBelow, parts.significand_eq precise, Nat.one_shiftLeft]
  split
  · next least =>
      have none := within.resolve_right (not_not_intro least)
      subst none
      apply stepAt_of_bounds precise (.inl rfl)
      have small := parts.small
      have same := parts.units_eq
      omega
  · exact parts.stepAt_eq precise

/-- Just above a power of two the next smaller magnitude is half a step away. -/
theorem stepBelow_of_least (precise : 0 < format.precision)
    (parts : format.Parts units (2 ^ (format.precision - 1)) (scale + 1)) :
    format.stepBelow units = 2 ^ scale := by
  rw [stepBelow, parts.significand_eq precise, Nat.one_shiftLeft, if_pos rfl]
  have least : 2 ^ (format.precision - 1) * 2 = 2 ^ format.precision := by
    rw [← Nat.pow_succ, Nat.succ_eq_add_one, Nat.sub_add_cancel precise]
  have same : units = 2 ^ format.precision * 2 ^ scale := by
    rw [parts.units_eq, Nat.pow_succ, Nat.mul_comm (2 ^ scale), ← Nat.mul_assoc, least]
  have half : 2 ^ (format.precision - 1) * 2 ^ scale * 2 = units := by
    rw [same, ← least]
    ring
  have positive : 0 < 2 ^ (format.precision - 1) * 2 ^ scale := by positivity
  apply stepAt_of_bounds precise <;> omega

end Parts

/-- A magnitude of few enough bits has parts. -/
theorem exists_parts (precise : 0 < format.precision) {bits : Nat}
    (small : bits < 2 ^ format.precision) (exponent : Nat) :
    ∃ significand scale, format.Parts (bits * 2 ^ exponent) significand scale := by
  induction exponent generalizing bits with
  | zero => exact ⟨bits, 0, rfl, small, .inl rfl⟩
  | succ exponent inductionHypothesis =>
      by_cases leads : 2 ^ (format.precision - 1) ≤ bits
      · exact ⟨bits, exponent + 1, rfl, small, .inr leads⟩
      · have twice : bits * 2 < 2 ^ format.precision := by
          have half : 2 ^ (format.precision - 1) * 2 = 2 ^ format.precision := by
            rw [← Nat.pow_succ, Nat.succ_eq_add_one, Nat.sub_add_cancel precise]
          omega
        have found := inductionHypothesis twice
        rwa [Nat.mul_assoc, ← Nat.pow_succ'] at found

/-- A quotient lies around a magnitude: within half a step, not at the ends if the
significand is odd. -/
structure Surrounds (format : BinaryFormat) (units : Nat) (quotient : ℚ) : Prop where
  low : (units : ℚ) - format.stepBelow units / 2 ≤ quotient
  high : quotient ≤ units + (format.stepAt units : ℚ) / 2
  low_ne : units / format.stepAt units % 2 = 1 →
    (units : ℚ) - format.stepBelow units / 2 ≠ quotient
  high_ne : units / format.stepAt units % 2 = 1 →
    quotient ≠ units + (format.stepAt units : ℚ) / 2

section

variable {numerator denominator : Nat}

theorem le_scaled_iff (positive : 0 < denominator) (whole : Nat) :
    whole ≤ numerator * format.one / denominator ↔
      (whole : ℚ) ≤ numerator * format.one / denominator := by
  have rational : (0 : ℚ) < denominator := by exact_mod_cast positive
  rw [Nat.le_div_iff_mul_le positive, le_div_iff₀ rational]
  exact_mod_cast Iff.rfl

theorem error_mul_step {step : Nat} (positive : 0 < denominator) (stepPositive : 0 < step) :
    ((significand : ℚ) -
      ((numerator * format.one : Nat) : ℚ) / (denominator * step : Nat)) * step =
      ((significand * step : Nat) : ℚ) - numerator * format.one / denominator := by
  push_cast
  field_simp

/-- A quotient is rounded to a magnitude if that is near in terms of the step
where the quotient is. -/
theorem round_eq_of_step {step : Nat} (positive : 0 < denominator)
    (finite : significand * step ≤ format.largest)
    (stepped : format.stepAt (numerator * format.one / denominator) = step)
    (near : |((significand * step : Nat) : ℚ) -
      (numerator : ℚ) * format.one / denominator| ≤ (step : ℚ) / 2)
    (tie : |((significand * step : Nat) : ℚ) -
      (numerator : ℚ) * format.one / denominator| = (step : ℚ) / 2 →
        significand % 2 = 0) :
    format.round numerator denominator = some (significand * step) := by
  have stepPositive : 0 < step := stepped ▸ format.stepAt_pos _
  have rational : (0 : ℚ) < step := by exact_mod_cast stepPositive
  rw [← error_mul_step positive stepPositive, abs_mul, abs_of_pos rational] at near tie
  have rounded : roundToEven (numerator * format.one) (denominator * step) = significand := by
    apply roundToEven_eq (Nat.mul_pos positive stepPositive)
    · rw [← mul_le_mul_iff_left₀ rational]
      linarith
    · intro half
      apply tie
      rw [half]
      ring
  unfold round
  dsimp only
  rw [stepped, rounded, if_pos finite]

/-! From a magnitude on, and from the middle of the step below it, the step where the
quotient is stays that of the magnitude; only below a power of two it is halved. -/

theorem round_eq_of_above (precise : 0 < format.precision) (positive : 0 < denominator)
    (parts : format.Parts units significand scale) (finite : units ≤ format.largest)
    (above : (units : ℚ) ≤ (numerator : ℚ) * format.one / denominator)
    (high : (numerator : ℚ) * format.one / denominator ≤ units + (2 : ℚ) ^ scale / 2)
    (high_ne : significand % 2 = 1 →
      (numerator : ℚ) * format.one / denominator ≠ units + (2 : ℚ) ^ scale / 2) :
    format.round numerator denominator = some units := by
  have stepPositive : (0 : ℚ) < 2 ^ scale := by positivity
  have same := parts.units_eq
  have below : numerator * format.one / denominator < 2 ^ format.precision * 2 ^ scale := by
    have next : units + 2 ^ scale ≤ 2 ^ format.precision * 2 ^ scale := by
      rw [same, ← Nat.succ_mul]
      exact Nat.mul_le_mul_right _ parts.small
    have nextCast : (units : ℚ) + 2 ^ scale ≤ 2 ^ format.precision * 2 ^ scale := by
      exact_mod_cast next
    rw [← Nat.not_le, le_scaled_iff positive]
    push_cast
    linarith
  have stepped : format.stepAt (numerator * format.one / denominator) = 2 ^ scale := by
    apply stepAt_of_bounds precise _ below
    refine parts.leads.imp_right fun leads => ?_
    refine le_trans ?_ ((le_scaled_iff positive units).mpr above)
    rw [same]
    exact Nat.mul_le_mul_right _ leads
  rw [same] at above high high_ne finite ⊢
  apply round_eq_of_step positive finite stepped
  · rw [abs_of_nonpos (by linarith)]
    push_cast at *
    linarith
  · intro tie
    rw [abs_of_nonpos (by linarith)] at tie
    by_contra odd
    apply high_ne (by omega)
    push_cast at *
    linarith

theorem round_eq_of_below (precise : 0 < format.precision) (positive : 0 < denominator)
    (parts : format.Parts units significand scale)
    (inside : scale = 0 ∨ significand ≠ 2 ^ (format.precision - 1))
    (finite : units ≤ format.largest)
    (under : (numerator : ℚ) * format.one / denominator < units)
    (low : (units : ℚ) - (2 : ℚ) ^ scale / 2 ≤ (numerator : ℚ) * format.one / denominator)
    (low_ne : significand % 2 = 1 →
      (units : ℚ) - (2 : ℚ) ^ scale / 2 ≠ (numerator : ℚ) * format.one / denominator) :
    format.round numerator denominator = some units := by
  have stepPositive : (0 : ℚ) < 2 ^ scale := by positivity
  have same := parts.units_eq
  have stepped : format.stepAt (numerator * format.one / denominator) = 2 ^ scale := by
    apply stepAt_of_bounds precise
    · rcases parts.leads with none | leads
      · exact .inl none
      · refine inside.imp_right fun further => ?_
        rw [le_scaled_iff positive]
        -- The significand is not the least one, so what is just below still has all its bits.
        have next : 2 ^ (format.precision - 1) * 2 ^ scale + 2 ^ scale ≤ units := by
          rw [same, ← Nat.succ_mul]
          exact Nat.mul_le_mul_right _ (by omega)
        have nextCast : ((2 ^ (format.precision - 1) * 2 ^ scale : Nat) : ℚ) + 2 ^ scale ≤
            units := by exact_mod_cast next
        linarith
    · have less : numerator * format.one / denominator < units := by
        rw [← Nat.not_le, le_scaled_iff positive, not_le]
        exact under
      refine less.trans ?_
      rw [same]
      exact Nat.mul_lt_mul_of_pos_right parts.small (by positivity)
  rw [same] at under low low_ne finite ⊢
  apply round_eq_of_step positive finite stepped
  · rw [abs_of_nonneg (by linarith)]
    push_cast at *
    linarith
  · intro tie
    rw [abs_of_nonneg (by linarith)] at tie
    by_contra odd
    apply low_ne (by omega)
    push_cast at *
    linarith

theorem round_eq_of_below_least (precise : 0 < format.precision) (positive : 0 < denominator)
    (parts : format.Parts units (2 ^ (format.precision - 1)) (scale + 1))
    (finite : units ≤ format.largest)
    (under : (numerator : ℚ) * format.one / denominator < units)
    (low : (units : ℚ) - (2 : ℚ) ^ scale / 2 ≤ (numerator : ℚ) * format.one / denominator) :
    format.round numerator denominator = some units := by
  have leads : 2 ^ (format.precision - 1) * 2 = 2 ^ format.precision := by
    rw [← Nat.pow_succ, Nat.succ_eq_add_one, Nat.sub_add_cancel precise]
  have same : units = 2 ^ format.precision * 2 ^ scale := by
    rw [parts.units_eq, ← leads, Nat.pow_succ]
    ring
  have stepped : format.stepAt (numerator * format.one / denominator) = 2 ^ scale := by
    apply stepAt_of_bounds precise (.inr _)
    · rw [← Nat.not_le, le_scaled_iff positive, ← same, not_le]
      exact under
    · have half : (units : ℚ) = 2 * ((2 ^ (format.precision - 1) * 2 ^ scale : Nat) : ℚ) := by
        rw [same, ← leads]
        push_cast
        ring
      have room : (2 : ℚ) ^ scale ≤ ((2 ^ (format.precision - 1) * 2 ^ scale : Nat) : ℚ) := by
        exact_mod_cast Nat.le_mul_of_pos_left _ Nat.one_le_two_pow
      have stepPositive : (0 : ℚ) < 2 ^ scale := by positivity
      rw [le_scaled_iff positive]
      linarith
  rw [same] at under low finite ⊢
  apply round_eq_of_step positive finite stepped
  · rw [abs_of_nonneg (by linarith)]
    push_cast at *
    linarith
  · intro _
    rw [← leads]
    exact Nat.mul_mod_left _ _

/-- The magnitude around a quotient is what the quotient is rounded to. -/
theorem round_eq_of_surrounds (precise : 0 < format.precision) (positive : 0 < denominator)
    (parts : format.Parts units significand scale) (finite : units ≤ format.largest)
    (around : format.Surrounds units
      ((numerator : ℚ) * format.one / denominator)) :
    format.round numerator denominator = some units := by
  obtain ⟨low, high, low_ne, high_ne⟩ := around
  rw [parts.significand_eq precise] at low_ne high_ne
  rw [parts.cast_stepAt precise] at high high_ne
  by_cases above : (units : ℚ) ≤ (numerator : ℚ) * format.one / denominator
  · exact round_eq_of_above precise positive parts finite above high high_ne
  rw [not_le] at above
  by_cases inside : scale = 0 ∨ significand ≠ 2 ^ (format.precision - 1)
  · rw [parts.stepBelow_eq precise inside, Nat.cast_pow, Nat.cast_ofNat] at low low_ne
    exact round_eq_of_below precise positive parts inside finite above low low_ne
  · rw [not_or, not_not] at inside
    obtain ⟨nonzero, rfl⟩ := inside
    obtain ⟨scale, rfl⟩ := Nat.exists_eq_succ_of_ne_zero nonzero
    rw [parts.stepBelow_of_least precise, Nat.cast_pow, Nat.cast_ofNat] at low
    exact round_eq_of_below_least precise positive parts finite above low

/-- A magnitude of the format is rounded to itself. -/
theorem round_eq_self (precise : 0 < format.precision) (positive : 0 < denominator)
    (parts : format.Parts units significand scale) (finite : units ≤ format.largest)
    (exactly : (numerator : ℚ) * format.one / denominator = units) :
    format.round numerator denominator = some units := by
  have step : (0 : ℚ) < format.stepAt units := by exact_mod_cast format.stepAt_pos units
  have below : (0 : ℚ) < format.stepBelow units := by exact_mod_cast format.stepBelow_pos units
  apply round_eq_of_surrounds precise positive parts finite
  rw [exactly]
  constructor
  · linarith
  · linarith
  · intro _ same
    linarith
  · intro _ same
    linarith

/-- Rounding moves a quotient by at most one half of the step where it is. -/
theorem abs_roundToEven_sub_le (format : BinaryFormat) {step : Nat} (numerator : Nat)
    (positive : 0 < denominator) (stepPositive : 0 < step) :
    |((roundToEven (numerator * format.one) (denominator * step) * step : Nat) : ℚ) -
      (numerator : ℚ) * format.one / denominator| ≤ step / 2 := by
  have rational : (0 : ℚ) < step := by exact_mod_cast stepPositive
  obtain ⟨near, -⟩ :=
    roundToEven_near (numerator * format.one) (Nat.mul_pos positive stepPositive)
  rw [← error_mul_step positive stepPositive, abs_mul, abs_of_pos rational]
  calc _ ≤ 1 / 2 * (step : ℚ) := mul_le_mul_of_nonneg_right near rational.le
    _ = step / 2 := by ring

/-- The error of rounding, for quotients that are not too small to have all the
bits of the format and not too large for it. -/
theorem exists_round (numerator : Nat) (precise : 0 < format.precision) (positive : 0 < denominator)
    (low : 2 ^ (format.precision - 1) ≤ (numerator : ℚ) * format.one / denominator)
    (high : 2 * ((numerator : ℚ) * format.one / denominator) ≤ format.largest) :
    ∃ units, format.round numerator denominator = some units ∧
      |(units : ℚ) - (numerator : ℚ) * format.one / denominator| ≤
        (numerator : ℚ) * format.one / denominator / 2 ^ format.precision := by
  have enough : 2 ^ (format.precision - 1) ≤ numerator * format.one / denominator := by
    rw [le_scaled_iff positive, Nat.cast_pow, Nat.cast_ofNat]
    exact low
  have near := format.abs_roundToEven_sub_le numerator positive
    (format.stepAt_pos (numerator * format.one / denominator))
  have room : (format.stepAt (numerator * format.one / denominator) : ℚ) * 2 ^ format.precision ≤
      2 * ((numerator : ℚ) * format.one / denominator) := by
    have floor := (le_scaled_iff positive _).mp (le_refl (numerator * format.one / denominator))
    have bits : (format.stepAt (numerator * format.one / denominator) : ℚ) *
        2 ^ format.precision ≤ 2 * (numerator * format.one / denominator : Nat) := by
      exact_mod_cast stepAt_mul_le precise enough
    linarith
  set quotient := (numerator : ℚ) * format.one / denominator with quotient_eq
  set step := format.stepAt (numerator * format.one / denominator) with step_eq
  set rounded := roundToEven (numerator * format.one) (denominator * step) with rounded_eq
  have error : |((rounded * step : Nat) : ℚ) - quotient| ≤ quotient / 2 ^ format.precision := by
    rw [le_div_iff₀ (by positivity)]
    have power : (0 : ℚ) ≤ 2 ^ format.precision := by positivity
    have product := mul_le_mul_of_nonneg_right near power
    linarith
  have finite : rounded * step ≤ format.largest := by
    have nonneg : 0 ≤ quotient := by positivity
    have less : quotient / 2 ^ format.precision ≤ quotient :=
      div_le_self nonneg (one_le_pow₀ (by norm_num))
    have above := (abs_le.mp error).2
    have cast : ((rounded * step : Nat) : ℚ) ≤ format.largest := by linarith
    exact_mod_cast cast
  refine ⟨rounded * step, ?_, error⟩
  unfold round
  dsimp only
  rw [← step_eq, ← rounded_eq, if_pos finite]

end

end BinaryFormat

end QueryForest.Number
