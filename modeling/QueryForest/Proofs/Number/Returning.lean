import QueryForest.Number.Layout
import QueryForest.Proofs.Number.Scientific
import QueryForest.Proofs.Number.Shortest

/-!
# Finite numbers come back

The shortest decimal of a finite 32-bit number is read as the number, although it
is rounded to 64 bits first.  A decimal of few digits lies farther from the ends
of the interval that is rounded to the number than reading moves it, apart from
one, whose reading is computed.  A decimal of more digits lies near the middle of
the interval.
-/

namespace QueryForest.Number

namespace BinaryFormat

/-- Reading does not move a point of a fine grid out of the interval that is
rounded to a magnitude, if the neighbours of the point are not nearer to the
magnitude. -/
theorem between_of_nearest {units point spacing step below moved : ℚ}
    (spacingPositive : 0 < spacing)
    (fine : 2 ^ 24 * spacing ≤ point) (bound : units ≤ (2 ^ 24 - 1) * step)
    (steps : below = step ∨ 2 * below = step ∧ units = 2 ^ 23 * step)
    (low : units - below / 2 ≤ point) (high : point ≤ units + step / 2)
    (error : |moved - point| ≤ 3 / 2 ^ 53 * point)
    (previous : units - below / 2 < point - spacing → point - spacing < units + step / 2 →
      |point - units| ≤ |point - spacing - units|)
    (next : units - below / 2 < point + spacing → point + spacing < units + step / 2 →
      |point - units| ≤ |point + spacing - units|) :
    units - below / 2 < moved ∧ moved < units + step / 2 := by
  obtain ⟨less, more⟩ := abs_le.mp error
  norm_num at less more fine bound steps
  constructor
  · by_contra out
    rw [not_lt] at out
    have beyond : point + spacing < units + step / 2 ∧ spacing < 2 * (units - point) := by
      rcases steps with same | ⟨half, exactly⟩ <;> constructor <;> linarith
    have beside := next (by linarith) beyond.1
    rw [abs_of_nonpos (by linarith : point - units ≤ 0)] at beside
    rcases abs_cases (point + spacing - units) with ⟨same, _⟩ | ⟨same, _⟩ <;>
      rw [same] at beside <;> linarith
  · by_contra out
    rw [not_lt] at out
    have beyond : units - below / 2 < point - spacing ∧ spacing < 2 * (point - units) := by
      rcases steps with same | ⟨half, exactly⟩ <;> constructor <;> linarith
    have beside := previous beyond.1 (by linarith)
    rw [abs_of_nonneg (by linarith : 0 ≤ point - units)] at beside
    rcases abs_cases (point - spacing - units) with ⟨same, _⟩ | ⟨same, _⟩ <;>
      rw [same] at beside <;> linarith

theorem surrounds_of_nearest {units significand scale digits : Nat} {exponent : Int} {moved : ℚ}
    (parts : single.Parts units significand scale)
    (many : 0x1000000 ≤ digits) (nearest : single.Nearest units exponent digits)
    (error : |moved - digits * single.spacing exponent| ≤
      3 / 2 ^ 53 * (digits * single.spacing exponent)) :
    single.Surrounds units moved := by
  have precise : 0 < single.precision := by decide
  have spacing := single.spacing_pos exponent
  have manyCast : (2 : ℚ) ^ 24 ≤ digits := by exact_mod_cast many
  have bound : (units : ℚ) ≤ (2 ^ 24 - 1) * single.stepAt units := by
    have most : units ≤ (2 ^ 24 - 1) * single.stepAt units := by
      rw [parts.stepAt_eq precise]
      calc units = significand * 2 ^ scale := parts.units_eq
        _ ≤ (2 ^ 24 - 1) * 2 ^ scale :=
            Nat.mul_le_mul_right _ (Nat.le_sub_one_of_lt parts.small)
    have whole : ((2 ^ 24 - 1 : Nat) : ℚ) = 2 ^ 24 - 1 := by norm_num
    rw [← whole]
    exact_mod_cast most
  have steps : (single.stepBelow units : ℚ) = single.stepAt units ∨
      2 * (single.stepBelow units : ℚ) = single.stepAt units ∧
        (units : ℚ) = 2 ^ 23 * single.stepAt units := by
    rcases parts.stepBelow_cases precise with same | ⟨half, exactly⟩
    · exact .inl (by exact_mod_cast same)
    · exact .inr ⟨by exact_mod_cast half, by exact_mod_cast exactly⟩
  obtain ⟨low, high⟩ := between_of_nearest spacing
    (mul_le_mul_of_nonneg_right manyCast spacing.le) bound steps nearest.around.low
    nearest.around.high error
    (by
      intro above below
      have previous : ((digits - 1 : Nat) : ℚ) * single.spacing exponent =
          digits * single.spacing exponent - single.spacing exponent := by
        rw [Nat.cast_sub (by omega), Nat.cast_one]
        ring
      rw [← previous] at above below ⊢
      exact nearest.nearest (digits - 1) (.inr (by omega)) (surrounds_of_near above below))
    (by
      intro above below
      have next : ((digits + 1 : Nat) : ℚ) * single.spacing exponent =
          digits * single.spacing exponent + single.spacing exponent := by
        push_cast
        ring
      rw [← next] at above below ⊢
      exact nearest.nearest (digits + 1) (.inl rfl) (surrounds_of_near above below))
  exact surrounds_of_near low high

/-- The one decimal, and its double, that is nearer to the end of an interval than
reading may move it. -/
def IsKnown (digits : Nat) (power : Int) : Prop :=
  power = -32 ∧ (digits = 7038531 ∨ digits = 14077062)

/-- A number of at most 25 bits, and not of an extreme size. -/
def IsShort (number : ℚ) : Prop :=
  ∃ (significand : Nat) (exponent : Int), 0 < significand ∧ significand < 0x2000000 ∧
    -1074 ≤ exponent ∧ exponent ≤ 900 ∧ number = significand * 2 ^ exponent

/-- Reading a decimal does not move it to the other side of a short number. -/
theorem same_side {digits : Nat} {power : Int} {double : Double} {number : ℚ}
    (reads : double.Reads power (digits * 10 ^ power)) (unknown : ¬ IsKnown digits power)
    (low : -53 ≤ power) (high : power ≤ 38) (digits_pos : 0 < digits)
    (digits_lt : digits < 0x1000000) (short : IsShort number) :
    (number < digits * 10 ^ power → number < double.value) ∧
      (digits * 10 ^ power < number → double.value < number) ∧
      (number = digits * 10 ^ power → double.value = number) := by
  obtain ⟨significand, exponent, positive, bits, exponent_low, exponent_high, rfl⟩ := short
  have met (close : |(significand : ℚ) * 2 ^ exponent - digits * 10 ^ power| ≤
      3 / 2 ^ 53 * (digits * 10 ^ power)) :=
    Ratio.encounter low high digits_pos digits_lt positive bits close
  obtain ⟨less, more⟩ := abs_le.mp reads.near
  refine ⟨fun below => ?_, fun above => ?_, fun same => ?_⟩
  · by_contra crossed
    rw [not_lt] at crossed
    rcases met (by rw [abs_le]; constructor <;> linarith) with ⟨same, _⟩ | ⟨power_eq, digits_eq⟩
    · exact absurd same (ne_of_lt below)
    · exact unknown ⟨power_eq, digits_eq⟩
  · by_contra crossed
    rw [not_lt] at crossed
    rcases met (by rw [abs_le]; constructor <;> linarith) with ⟨same, _⟩ | ⟨power_eq, digits_eq⟩
    · exact absurd same.symm (ne_of_lt above)
    · exact unknown ⟨power_eq, digits_eq⟩
  · rcases met (by rw [same, sub_self, abs_zero]; positivity) with
      ⟨_, few⟩ | ⟨power_eq, digits_eq⟩
    · rw [same]
      exact reads.exactly few significand exponent (by omega) exponent_low exponent_high
        same.symm
    · exact absurd ⟨power_eq, digits_eq⟩ unknown

variable {units significand scale : Nat}

theorem scale_le_of_parts (parts : single.Parts units significand scale)
    (finite : units ≤ single.largest) : scale ≤ 253 := by
  rcases parts.leads with none | leads
  · omega
  · have bound : single.largest < 2 ^ 23 * 2 ^ 254 := by decide +kernel
    have product : 2 ^ 23 * 2 ^ scale ≤ units := by
      rw [parts.units_eq]
      exact Nat.mul_le_mul_right _ leads
    have less : 2 ^ scale < 2 ^ 254 :=
      Nat.lt_of_mul_lt_mul_left (Nat.lt_of_le_of_lt product (Nat.lt_of_le_of_lt finite bound))
    exact Nat.le_of_lt_succ ((Nat.pow_lt_pow_iff_right (by norm_num)).mp less)

theorem stepAt_cast (parts : single.Parts units significand scale) (below : Nat) :
    (single.stepAt units : ℚ) =
      2 ^ below * 2 ^ ((scale : Int) - (149 + below)) * 2 ^ 149 := by
  rw [parts.cast_stepAt (by decide), ← zpow_natCast (2 : ℚ) below, ← zpow_natCast (2 : ℚ) 149,
    ← zpow_add₀ (by norm_num), ← zpow_add₀ (by norm_num), ← zpow_natCast]
  congr 1
  push_cast
  ring

/-- The ends of the interval that is rounded to a magnitude are short. -/
theorem exists_short_ends (parts : single.Parts units significand scale)
    (finite : units ≤ single.largest) (positive : 0 < units) :
    (∃ low, IsShort low ∧ (units : ℚ) - single.stepBelow units / 2 = low * 2 ^ 149) ∧
      ∃ high, IsShort high ∧ (units : ℚ) + single.stepAt units / 2 = high * 2 ^ 149 := by
  have most := scale_le_of_parts parts finite
  have small := parts.small
  have whole : (units : ℚ) = significand * single.stepAt units := by
    rw [parts.stepAt_eq (by decide)]
    exact_mod_cast parts.units_eq
  have some : 0 < significand := by
    apply Nat.pos_of_ne_zero
    rintro rfl
    have none := parts.units_eq
    omega
  have bits : significand < 2 ^ 24 := small
  constructor
  · rcases parts.stepBelow_cases (by decide) with same | ⟨half, exactly⟩
    · refine ⟨_, ⟨2 * significand - 1, (scale : Int) - (149 + 1 : Nat), by omega, by omega,
        by omega, by omega, rfl⟩, ?_⟩
      rw [same, whole, stepAt_cast parts 1, Nat.cast_sub (by omega)]
      push_cast
      ring
    · refine ⟨_, ⟨2 ^ 25 - 1, (scale : Int) - (149 + 2 : Nat), by norm_num, by norm_num,
        by omega, by omega, rfl⟩, ?_⟩
      have halfCast : (single.stepBelow units : ℚ) = single.stepAt units / 2 := by
        rw [← half]
        push_cast
        ring
      have wholeCast : (units : ℚ) = 2 ^ 23 * single.stepAt units := by exact_mod_cast exactly
      rw [halfCast, wholeCast, stepAt_cast parts 2]
      push_cast
      ring
  · refine ⟨_, ⟨2 * significand + 1, (scale : Int) - (149 + 1 : Nat), by omega, by omega,
      by omega, by omega, rfl⟩, ?_⟩
    rw [whole, stepAt_cast parts 1]
    push_cast
    ring

theorem spacing_single (power : Int) : single.spacing power = 10 ^ power * 2 ^ 149 := by
  rw [spacing, one_single, mul_comm]

theorem surrounds_of_few {digits : Nat} {power : Int} {double : Double}
    (parts : single.Parts units significand scale) (finite : units ≤ single.largest)
    (positive : 0 < units) (reads : double.Reads power (digits * 10 ^ power))
    (unknown : ¬ IsKnown digits power) (low : -53 ≤ power) (high : power ≤ 38)
    (digits_pos : 0 < digits) (digits_lt : digits < 0x1000000)
    (around : single.Surrounds units (digits * single.spacing power)) :
    single.Surrounds units (double.value * 2 ^ 149) := by
  obtain ⟨⟨bottom, bottomShort, bottomEq⟩, top, topShort, topEq⟩ :=
    exists_short_ends parts finite positive
  obtain ⟨bottom_lt, _, bottom_eq⟩ :=
    same_side reads unknown low high digits_pos digits_lt bottomShort
  obtain ⟨_, lt_top, eq_top⟩ :=
    same_side reads unknown low high digits_pos digits_lt topShort
  obtain ⟨less, more, less_ne, more_ne⟩ := around
  have factor : (0 : ℚ) < 2 ^ 149 := by positivity
  rw [spacing_single, ← mul_assoc] at less more less_ne more_ne
  rw [bottomEq, mul_le_mul_iff_left₀ factor] at less
  rw [topEq, mul_le_mul_iff_left₀ factor] at more
  rw [bottomEq, Ne, mul_left_inj' (ne_of_gt factor)] at less_ne
  rw [topEq, Ne, mul_left_inj' (ne_of_gt factor)] at more_ne
  constructor
  · rw [bottomEq, mul_le_mul_iff_left₀ factor]
    rcases lt_or_eq_of_le less with inside | same
    · exact (bottom_lt inside).le
    · exact (bottom_eq same).ge
  · rw [topEq, mul_le_mul_iff_left₀ factor]
    rcases lt_or_eq_of_le more with inside | same
    · exact (lt_top inside).le
    · exact (eq_top same.symm).le
  · intro odd
    rw [bottomEq, Ne, mul_left_inj' (ne_of_gt factor)]
    exact ne_of_lt (bottom_lt (lt_of_le_of_ne less (less_ne odd)))
  · intro odd
    rw [topEq, Ne, mul_left_inj' (ne_of_gt factor)]
    exact ne_of_lt (lt_top (lt_of_le_of_ne more (more_ne odd)))

/-! ## Reading shortest decimals -/

theorem round_double {double : Double} (parts : single.Parts units significand scale)
    (finite : units ≤ single.largest)
    (around : single.Surrounds units (double.value * 2 ^ 149)) :
    single.round double.units BinaryFormat.double.one = some units := by
  apply round_eq_of_surrounds (by decide) _ parts finite
  · rw [one_single, mul_div_right_comm]
    exact around
  · exact_mod_cast Double.unit_pos

theorem round_known {digits : Nat} {power : Int} (known : IsKnown digits power) :
    ∃ double, Double.ofScientific? digits power = some double ∧
      single.round double.units BinaryFormat.double.one = single.round digits (10 ^ 32) := by
  obtain ⟨rfl, digits_eq⟩ := known
  apply Option.map_eq_some_iff.mp
  rcases digits_eq with rfl | rfl
  · decide +kernel
  · decide +kernel

/-- Reading the shortest decimal of a magnitude, and rounding what is read, gives
the magnitude. -/
theorem exists_round_ofScientific? {decimal : Decimal}
    (parts : single.Parts units significand scale) (finite : units ≤ single.largest)
    (positive : 0 < units) (shortens : Shortens units decimal) :
    ∃ double, Double.ofScientific? decimal.digits decimal.exponent = some double ∧
      single.round double.units BinaryFormat.double.one = some units := by
  by_cases known : IsKnown decimal.digits decimal.exponent
  · obtain ⟨double, found, same⟩ := round_known known
    refine ⟨double, found, same.trans ?_⟩
    apply round_eq_of_surrounds (by decide) (by positivity) parts finite
    have around := shortens.around
    rw [known.1, spacing_single] at around
    rw [one_single]
    convert around using 1
    push_cast
    rw [zpow_neg]
    ring
  · have small : decimal.digits < 2 ^ 53 :=
      lt_trans shortens.digits_lt (by norm_num)
    obtain ⟨double, found, reads⟩ := Double.exists_reads_ofScientific?
      shortens.digits_pos small shortens.low shortens.high
    refine ⟨double, found, round_double parts finite ?_⟩
    by_cases few : decimal.digits < 0x1000000
    · exact surrounds_of_few parts finite positive reads known shortens.low shortens.high
        shortens.digits_pos few shortens.around
    · apply surrounds_of_nearest parts (Nat.not_lt.mp few)
        (shortens.nearest (Nat.not_lt.mp few))
      have factor : (0 : ℚ) < 2 ^ 149 := by positivity
      have scaled := mul_le_mul_of_nonneg_right reads.near factor.le
      rw [← abs_of_pos factor, ← abs_mul, abs_of_pos factor, sub_mul, mul_assoc (3 / 2 ^ 53)]
        at scaled
      rw [spacing_single, ← mul_assoc]
      exact scaled

end BinaryFormat

end QueryForest.Number
