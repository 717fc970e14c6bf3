import QueryForest.Proofs.Number.Rounding
import QueryForest.Proofs.Number.Written

/-!
# Shortest decimals

The shortest decimal of a magnitude reads back to it, has few digits, and no
neighbour of it on its grid that reads back is nearer.
-/

namespace QueryForest.Number.BinaryFormat

variable {format : BinaryFormat} {units significand scale : Nat}

/-! ## Grids -/

def spacing (format : BinaryFormat) (exponent : Int) : ℚ :=
  format.one * 10 ^ exponent

theorem spacing_pos (format : BinaryFormat) (exponent : Int) : 0 < format.spacing exponent := by
  have rational : (0 : ℚ) < format.one := by exact_mod_cast format.one_pos
  unfold spacing
  positivity

theorem spacing_mul_scale (format : BinaryFormat) (exponent : Int) :
    format.spacing exponent * (format.grid exponent).scale = (format.grid exponent).spacing := by
  have power : (10 : ℚ) ^ exponent * 10 ^ (-exponent).toNat = 10 ^ exponent.toNat := by
    rw [← zpow_natCast, ← zpow_natCast, ← zpow_add₀ (by norm_num)]
    congr 1
    omega
  show (format.one : ℚ) * 10 ^ exponent * ((10 ^ (-exponent).toNat : Nat) : ℚ) =
    ((format.one * 10 ^ exponent.toNat : Nat) : ℚ)
  rw [Nat.cast_mul, Nat.cast_pow, Nat.cast_pow, Nat.cast_ofNat, mul_assoc, power]

theorem stepBelow_le (precise : 1 ≤ format.precision) (positive : 0 < units) :
    format.stepBelow units ≤ units := by
  unfold stepBelow
  split
  · by_cases one : units = 1
    · subst one
      have least : 0 + 1 - format.precision = 0 := by omega
      simp [stepAt, Nat.log2, least]
    · exact Nat.le_trans (stepAt_le precise (by omega)) (Nat.sub_le ..)
  · exact stepAt_le precise positive

theorem quarters_le_iff {left right : Nat} {first second scale : ℚ} (positive : 0 < scale)
    (leftEq : (left : ℚ) = 4 * first * scale) (rightEq : (right : ℚ) = 4 * second * scale) :
    left ≤ right ↔ first ≤ second := by
  rw [← Nat.cast_le (α := ℚ), leftEq, rightEq, mul_le_mul_iff_left₀ positive,
    mul_le_mul_iff_right₀ (by norm_num)]

theorem quarters_lt_iff {left right : Nat} {first second scale : ℚ} (positive : 0 < scale)
    (leftEq : (left : ℚ) = 4 * first * scale) (rightEq : (right : ℚ) = 4 * second * scale) :
    left < right ↔ first < second :=
  lt_iff_lt_of_le_iff_le (quarters_le_iff positive rightEq leftEq)

/-- Both ends are around a magnitude with an even significand. -/
theorem surrounds_iff_of_even {quotient : ℚ} (even : units / format.stepAt units % 2 = 0) :
    format.Surrounds units quotient ↔
      (units : ℚ) - format.stepBelow units / 2 ≤ quotient ∧
        quotient ≤ units + (format.stepAt units : ℚ) / 2 := by
  constructor
  · intro around
    exact ⟨around.low, around.high⟩
  · rintro ⟨low, high⟩
    exact ⟨low, high, fun odd => by omega, fun odd => by omega⟩

/-- Neither end is around a magnitude with an odd significand. -/
theorem surrounds_iff_of_odd {quotient : ℚ} (odd : units / format.stepAt units % 2 = 1) :
    format.Surrounds units quotient ↔
      (units : ℚ) - format.stepBelow units / 2 < quotient ∧
        quotient < units + (format.stepAt units : ℚ) / 2 := by
  constructor
  · intro around
    exact ⟨lt_of_le_of_ne around.low (around.low_ne odd),
      lt_of_le_of_ne around.high (around.high_ne odd)⟩
  · rintro ⟨low, high⟩
    exact ⟨low.le, high.le, fun _ => ne_of_lt low, fun _ => ne_of_lt high⟩

/-- A point of a grid reads back if it lies around the magnitude. -/
theorem readsBack_iff (precise : 1 ≤ format.precision) (positive : 0 < units)
    {exponent : Int} {point : Nat} :
    format.readsBack units (format.grid exponent) point = true ↔
      format.Surrounds units (point * format.spacing exponent) := by
  have scale : (0 : ℚ) < (format.grid exponent).scale := by
    exact_mod_cast format.grid_scale_pos exponent
  have place : ((4 * point * (format.grid exponent).spacing : Nat) : ℚ) =
      4 * (point * format.spacing exponent) * (format.grid exponent).scale := by
    push_cast
    rw [← spacing_mul_scale]
    ring
  have lowest : (((4 * units - 2 * format.stepBelow units) *
      (format.grid exponent).scale : Nat) : ℚ) =
      4 * ((units : ℚ) - format.stepBelow units / 2) * (format.grid exponent).scale := by
    have within := stepBelow_le precise positive
    rw [Nat.cast_mul, Nat.cast_sub (by omega)]
    push_cast
    ring
  have highest : (((4 * units + 2 * format.stepAt units) *
      (format.grid exponent).scale : Nat) : ℚ) =
      4 * ((units : ℚ) + format.stepAt units / 2) * (format.grid exponent).scale := by
    push_cast
    ring
  unfold readsBack
  dsimp only
  rw [← stepBelow]
  rcases Nat.mod_two_eq_zero_or_one (units / format.stepAt units) with even | odd
  · rw [if_pos even, Bool.and_eq_true, decide_eq_true_iff, decide_eq_true_iff,
      quarters_le_iff scale lowest place, quarters_le_iff scale place highest,
      surrounds_iff_of_even even]
  · rw [if_neg (by omega), Bool.and_eq_true, decide_eq_true_iff, decide_eq_true_iff,
      quarters_lt_iff scale lowest place, quarters_lt_iff scale place highest,
      surrounds_iff_of_odd odd]

theorem surrounds_of_near {quotient : ℚ}
    (low : (units : ℚ) - format.stepBelow units / 2 < quotient)
    (high : quotient < units + (format.stepAt units : ℚ) / 2) :
    format.Surrounds units quotient where
  low := low.le
  high := high.le
  low_ne _ := ne_of_lt low
  high_ne _ := ne_of_lt high

/-- The last point of a grid that is not above a magnitude. -/
def pointBelow (format : BinaryFormat) (units : Nat) (exponent : Int) : Nat :=
  units * (format.grid exponent).scale / (format.grid exponent).spacing

/-- How far a magnitude is above the last point of a grid that is not above it. -/
def rest (format : BinaryFormat) (units : Nat) (exponent : Int) : ℚ :=
  (units * (format.grid exponent).scale % (format.grid exponent).spacing : Nat) /
    (format.grid exponent).scale

theorem scale_cast_pos (format : BinaryFormat) (exponent : Int) :
    (0 : ℚ) < (format.grid exponent).scale := by
  exact_mod_cast format.grid_scale_pos exponent

theorem pointBelow_add_rest (format : BinaryFormat) (units : Nat) (exponent : Int) :
    format.pointBelow units exponent * format.spacing exponent +
      format.rest units exponent = units := by
  have scale := format.scale_cast_pos exponent
  rw [← mul_left_inj' (ne_of_gt scale), add_mul, rest, div_mul_cancel₀ _ (ne_of_gt scale),
    mul_assoc, spacing_mul_scale, pointBelow]
  exact_mod_cast Nat.div_add_mod' _ _

theorem rest_nonneg (format : BinaryFormat) (units : Nat) (exponent : Int) :
    0 ≤ format.rest units exponent :=
  div_nonneg (Nat.cast_nonneg _) (format.scale_cast_pos exponent).le

theorem rest_lt (format : BinaryFormat) (units : Nat) (exponent : Int) :
    format.rest units exponent < format.spacing exponent := by
  have scale := format.scale_cast_pos exponent
  have positive := format.spacing_pos exponent
  rw [rest, div_lt_iff₀ scale, spacing_mul_scale]
  have whole : 0 < (format.grid exponent).spacing := by
    have product := mul_pos positive scale
    rw [spacing_mul_scale] at product
    exact_mod_cast product
  exact_mod_cast Nat.mod_lt _ whole

/-- A point of a grid that is around a magnitude, with no neighbour around it that
is nearer. -/
structure Nearest (format : BinaryFormat) (units : Nat) (exponent : Int) (point : Nat) :
    Prop where
  around : format.Surrounds units (point * format.spacing exponent)
  nearest : ∀ other : Nat, other = point + 1 ∨ point = other + 1 →
    format.Surrounds units (other * format.spacing exponent) →
      |point * format.spacing exponent - units| ≤ |other * format.spacing exponent - units|

variable {exponent : Int}

/-- The point below is nearest if the one above it is not nearer. -/
theorem nearest_pointBelow
    (around : format.Surrounds units
      (format.pointBelow units exponent * format.spacing exponent))
    (half : format.Surrounds units
      ((format.pointBelow units exponent + 1 : Nat) * format.spacing exponent) →
        2 * format.rest units exponent ≤ format.spacing exponent) :
    format.Nearest units exponent (format.pointBelow units exponent) := by
  have sum := format.pointBelow_add_rest units exponent
  have nonneg := format.rest_nonneg units exponent
  have positive := format.spacing_pos exponent
  refine ⟨around, fun other neighbour otherAround => ?_⟩
  rcases neighbour with rfl | previous
  · have near := half otherAround
    push_cast
    rw [abs_of_nonpos (by linarith), abs_of_nonneg (by linarith)]
    linarith
  · rw [previous] at sum ⊢
    push_cast at sum ⊢
    rw [abs_of_nonpos (by linarith), abs_of_nonpos (by linarith)]
    linarith

/-- The point above is nearest if the one below it is not nearer. -/
theorem nearest_pointAbove
    (around : format.Surrounds units
      ((format.pointBelow units exponent + 1 : Nat) * format.spacing exponent))
    (half : format.Surrounds units
      (format.pointBelow units exponent * format.spacing exponent) →
        format.spacing exponent ≤ 2 * format.rest units exponent) :
    format.Nearest units exponent (format.pointBelow units exponent + 1) := by
  have sum := format.pointBelow_add_rest units exponent
  have less := format.rest_lt units exponent
  have positive := format.spacing_pos exponent
  refine ⟨around, fun other neighbour otherAround => ?_⟩
  rcases neighbour with rfl | previous
  · push_cast
    rw [abs_of_nonneg (by linarith), abs_of_nonneg (by linarith)]
    linarith
  · have same : format.pointBelow units exponent = other := Nat.succ.inj previous
    rw [← same] at otherAround ⊢
    have near := half otherAround
    push_cast
    rw [abs_of_nonneg (by linarith), abs_of_nonpos (by linarith)]
    linarith

theorem two_mul_rest (format : BinaryFormat) (units : Nat) (exponent : Int) :
    2 * format.rest units exponent * (format.grid exponent).scale =
      (2 * (units * (format.grid exponent).scale % (format.grid exponent).spacing) : Nat) := by
  rw [rest, mul_assoc, div_mul_cancel₀ _ (ne_of_gt (format.scale_cast_pos exponent))]
  push_cast
  rfl

theorem two_mul_rest_le_iff (format : BinaryFormat) (units : Nat) (exponent : Int) :
    2 * format.rest units exponent ≤ format.spacing exponent ↔
      2 * (units * (format.grid exponent).scale % (format.grid exponent).spacing) ≤
        (format.grid exponent).spacing := by
  rw [← mul_le_mul_iff_left₀ (format.scale_cast_pos exponent), two_mul_rest, spacing_mul_scale]
  exact Nat.cast_le

theorem le_two_mul_rest_iff (format : BinaryFormat) (units : Nat) (exponent : Int) :
    format.spacing exponent ≤ 2 * format.rest units exponent ↔
      (format.grid exponent).spacing ≤
        2 * (units * (format.grid exponent).scale % (format.grid exponent).spacing) := by
  rw [← mul_le_mul_iff_left₀ (format.scale_cast_pos exponent), two_mul_rest, spacing_mul_scale]
  exact Nat.cast_le

/-- What is found on a grid is one of the two points around a magnitude, and one that
reads back.  If the other one does as well, the one that is found is not farther. -/
theorem nearestOnGrid?_cases {tie : Tie} {point : Nat}
    (found : format.nearestOnGrid? tie units (format.grid exponent) = some point) :
    (point = format.pointBelow units exponent ∧
      format.readsBack units (format.grid exponent) point = true ∧
      (format.readsBack units (format.grid exponent) (point + 1) = true →
        2 * format.rest units exponent ≤ format.spacing exponent)) ∨
    (point = format.pointBelow units exponent + 1 ∧
      format.readsBack units (format.grid exponent) point = true ∧
      (format.readsBack units (format.grid exponent) (format.pointBelow units exponent) = true →
        format.spacing exponent ≤ 2 * format.rest units exponent)) := by
  rw [two_mul_rest_le_iff, le_two_mul_rest_iff]
  unfold nearestOnGrid? at found
  dsimp only at found
  rw [← pointBelow] at found
  split at found
  · next belowReads aboveReads =>
      cases order : compare (2 * (units * (format.grid exponent).scale %
          (format.grid exponent).spacing)) (format.grid exponent).spacing with
      | lt =>
          rw [order] at found
          cases found
          exact .inl ⟨rfl, belowReads, fun _ => (Nat.compare_eq_lt.mp order).le⟩
      | gt =>
          rw [order] at found
          cases found
          exact .inr ⟨rfl, aboveReads, fun _ => (Nat.compare_eq_gt.mp order).le⟩
      | eq =>
          -- Of two points at the same distance neither is farther, whichever the tie goes to.
          have half := Nat.compare_eq_eq.mp order
          rw [order] at found
          dsimp only at found
          split at found
          · cases found
            exact .inl ⟨rfl, belowReads, fun _ => half.le⟩
          · cases found
            exact .inr ⟨rfl, aboveReads, fun _ => half.ge⟩
  · next belowReads aboveReads =>
      cases found
      exact .inl ⟨rfl, belowReads, fun above => absurd (aboveReads.symm.trans above) (by decide)⟩
  · next belowReads aboveReads =>
      cases found
      exact .inr ⟨rfl, aboveReads, fun below => absurd (belowReads.symm.trans below) (by decide)⟩
  · cases found

theorem nearest_of_nearestOnGrid? (precise : 1 ≤ format.precision) (positive : 0 < units)
    {tie : Tie} {point : Nat}
    (found : format.nearestOnGrid? tie units (format.grid exponent) = some point) :
    format.Nearest units exponent point := by
  rcases nearestOnGrid?_cases found with ⟨rfl, reads, half⟩ | ⟨rfl, reads, half⟩
  · rw [readsBack_iff precise positive] at reads half
    exact nearest_pointBelow reads half
  · rw [readsBack_iff precise positive] at reads half
    exact nearest_pointAbove reads half

/-! ## The leading digit -/

theorem spacing_sub_mul (format : BinaryFormat) (shift : Nat) :
    format.spacing ((shift : Int) - format.fractionBits) * 10 ^ format.fractionBits =
      (format.one * 10 ^ shift : Nat) := by
  rw [spacing, mul_assoc, ← zpow_natCast, ← zpow_add₀ (by norm_num), sub_add_cancel,
    zpow_natCast]
  push_cast
  rfl

/-- The leading exponent counts the digits of a magnitude that is brought to a whole
number. -/
theorem exists_leadingExponent_eq (format : BinaryFormat) (positive : 0 < units) :
    ∃ places : Nat, format.leadingExponent units = (places : Int) - format.fractionBits ∧
      format.one * 10 ^ places ≤ units * 10 ^ format.fractionBits ∧
      units * 10 ^ format.fractionBits < format.one * 10 ^ (places + 1) := by
  obtain ⟨lifted, liftedEq⟩ :
      ∃ lifted, lifted = units * 10 ^ format.fractionBits / format.one := ⟨_, rfl⟩
  have fewer (places : Nat) (some : 0 < places) :
      (Nat.toDigits 10 lifted).length ≤ places ↔ lifted < 10 ^ places :=
    Nat.length_toDigits_le_iff (by norm_num) some
  have large : 1 ≤ lifted := by
    rw [liftedEq, Nat.le_div_iff_mul_le format.one_pos, Nat.one_mul, one_eq]
    calc 2 ^ format.fractionBits ≤ 10 ^ format.fractionBits :=
          Nat.pow_le_pow_left (by norm_num) _
      _ ≤ units * 10 ^ format.fractionBits := Nat.le_mul_of_pos_left _ positive
  have leading : format.leadingExponent units =
      ((Nat.toDigits 10 lifted).length : Int) - 1 - format.fractionBits := by
    rw [liftedEq]
    rfl
  obtain ⟨places, length⟩ : ∃ places, (Nat.toDigits 10 lifted).length = places + 1 :=
    Nat.exists_eq_succ_of_ne_zero Nat.length_toDigits_pos.ne'
  rw [length] at fewer leading
  refine ⟨places, by omega, ?_, ?_⟩
  · rw [Nat.mul_comm, ← Nat.le_div_iff_mul_le format.one_pos, ← liftedEq]
    rcases Nat.eq_zero_or_pos places with rfl | more
    · exact large
    · rw [← Nat.not_lt, ← fewer places more]
      omega
  · rw [Nat.mul_comm format.one, ← Nat.div_lt_iff_lt_mul format.one_pos, ← liftedEq]
    exact (fewer _ (Nat.succ_pos places)).mp le_rfl

/-- The leading digit of a magnitude stands for a power of ten within it, and the
next power of ten is beyond it. -/
theorem leadingExponent_bounds (format : BinaryFormat) (positive : 0 < units) :
    format.spacing (format.leadingExponent units) ≤ units ∧
      units < format.spacing (format.leadingExponent units + 1) := by
  obtain ⟨places, first, low, high⟩ := format.exists_leadingExponent_eq positive
  have second : format.leadingExponent units + 1 =
      ((places + 1 : Nat) : Int) - format.fractionBits := by omega
  have ten : (0 : ℚ) < 10 ^ format.fractionBits := by positivity
  constructor
  · rw [first, ← mul_le_mul_iff_left₀ ten, spacing_sub_mul]
    exact_mod_cast low
  · rw [second, ← mul_lt_mul_iff_left₀ ten, spacing_sub_mul]
    exact_mod_cast high

theorem Parts.stepBelow_cases (precise : 0 < format.precision)
    (parts : format.Parts units significand scale) :
    format.stepBelow units = format.stepAt units ∨
      2 * format.stepBelow units = format.stepAt units ∧
        units = 2 ^ (format.precision - 1) * format.stepAt units := by
  by_cases least : scale ≠ 0 ∧ significand = 2 ^ (format.precision - 1)
  · obtain ⟨nonzero, rfl⟩ := least
    obtain ⟨scale, rfl⟩ := Nat.exists_eq_succ_of_ne_zero nonzero
    right
    rw [parts.stepBelow_of_least precise, parts.stepAt_eq precise]
    exact ⟨(Nat.pow_succ' ..).symm, parts.units_eq⟩
  · have inside : scale = 0 ∨ significand ≠ 2 ^ (format.precision - 1) := by
      by_contra neither
      rw [not_or, not_not] at neither
      exact least neither
    left
    rw [parts.stepBelow_eq precise inside, parts.stepAt_eq precise]

theorem Parts.stepBelow_bounds (precise : 0 < format.precision)
    (parts : format.Parts units significand scale) :
    format.stepBelow units ≤ format.stepAt units ∧
      format.stepAt units ≤ 2 * format.stepBelow units := by
  rcases parts.stepBelow_cases precise with same | ⟨half, _⟩ <;> omega

/-- On a grid that is finer than the step, some point reads back. -/
theorem exists_nearestOnGrid? (precise : 1 ≤ format.precision) (positive : 0 < units)
    (parts : format.Parts units significand scale)
    (fine : format.spacing exponent < format.stepBelow units) (tie : Tie) :
    ∃ point, format.nearestOnGrid? tie units (format.grid exponent) = some point := by
  have sum := format.pointBelow_add_rest units exponent
  have nonneg := format.rest_nonneg units exponent
  have less := format.rest_lt units exponent
  have steps : (format.stepBelow units : ℚ) ≤ format.stepAt units := by
    exact_mod_cast (parts.stepBelow_bounds precise).1
  have either : format.readsBack units (format.grid exponent)
        (format.pointBelow units exponent) = true ∨
      format.readsBack units (format.grid exponent)
        (format.pointBelow units exponent + 1) = true := by
    rw [readsBack_iff precise positive, readsBack_iff precise positive]
    rcases le_total (2 * format.rest units exponent) (format.spacing exponent) with near | far
    · left
      apply surrounds_of_near <;> linarith
    · right
      apply surrounds_of_near <;> push_cast <;> linarith
  unfold nearestOnGrid?
  dsimp only
  rw [← pointBelow]
  split
  · exact ⟨_, rfl⟩
  · exact ⟨_, rfl⟩
  · exact ⟨_, rfl⟩
  · next belowFails aboveFails =>
      rw [belowFails, aboveFails] at either
      simp at either

/-- The search stops on the first grid with a point, at the latest where there is
known to be one. -/
theorem exists_shortestFrom {tie : Tie} {grids finer : Nat} (enough : finer < grids)
    (found : ∃ point,
      format.nearestOnGrid? tie units (format.grid (exponent - finer)) = some point) :
    ∃ decimal, format.shortestFrom tie units exponent grids = decimal ∧
      exponent - finer ≤ decimal.exponent ∧
      format.nearestOnGrid? tie units (format.grid decimal.exponent) =
        some decimal.digits := by
  induction grids generalizing exponent finer with
  | zero => exact absurd enough (Nat.not_lt_zero finer)
  | succ grids inductionHypothesis =>
      rw [shortestFrom]
      cases here : format.nearestOnGrid? tie units (format.grid exponent) with
      | some point => exact ⟨⟨point, exponent⟩, rfl, by simp, here⟩
      | none =>
          cases finer with
          | zero =>
              obtain ⟨point, there⟩ := found
              rw [Nat.cast_zero, Int.sub_zero, here] at there
              cases there
          | succ finer =>
              have next : exponent - (finer + 1 : Nat) = exponent - 1 - finer := by
                push_cast
                ring
              rw [next] at found ⊢
              exact inductionHypothesis (Nat.lt_of_succ_lt_succ enough) found

/-! ## Shortest decimals of 32-bit magnitudes -/

theorem spacing_add (format : BinaryFormat) (exponent : Int) (places : Nat) :
    format.spacing (exponent + places) = format.spacing exponent * 10 ^ places := by
  rw [spacing, spacing, zpow_add₀ (by norm_num), zpow_natCast, mul_assoc]

theorem spacing_mono (format : BinaryFormat) {small large : Int} (le : small ≤ large) :
    format.spacing small ≤ format.spacing large := by
  have one : (0 : ℚ) ≤ format.one := Nat.cast_nonneg _
  exact mul_le_mul_of_nonneg_left (zpow_le_zpow_right₀ (by norm_num) le) one

theorem one_single : (single.one : ℚ) = 2 ^ 149 := by
  have bits : single.fractionBits = 149 := rfl
  rw [one_eq, bits, Nat.cast_pow, Nat.cast_ofNat]

theorem le_leadingExponent (positive : 0 < units) : -45 ≤ single.leadingExponent units := by
  have above := (single.leadingExponent_bounds positive).2
  have whole : (1 : ℚ) ≤ units := by exact_mod_cast positive
  by_contra less
  have tiny : single.spacing (single.leadingExponent units + 1) ≤ single.spacing (-45) :=
    spacing_mono _ (by omega)
  have small : single.spacing (-45) < 1 := by
    rw [spacing, one_single]
    norm_num
  linarith

/-- What the shortest decimal of a magnitude is: it reads back, has few digits and a
moderate exponent, and if it needs more than 24 bits, then no neighbour that reads
back is nearer. -/
structure Shortens (units : Nat) (decimal : Decimal) : Prop where
  digits_pos : 0 < decimal.digits
  digits_lt : decimal.digits < 2 ^ 31
  low : -53 ≤ decimal.exponent
  high : decimal.exponent ≤ 38
  around : single.Surrounds units (decimal.digits * single.spacing decimal.exponent)
  nearest : 0x1000000 ≤ decimal.digits → single.Nearest units decimal.exponent decimal.digits

theorem exists_nearest_shortestFrom (positive : 0 < units)
    (parts : single.Parts units significand scale) (tie : Tie) :
    ∃ decimal, single.shortestFrom tie units (single.leadingExponent units)
        single.precision = decimal ∧
      single.leadingExponent units - 8 ≤ decimal.exponent ∧ 0 < decimal.digits ∧
      single.Nearest units decimal.exponent decimal.digits := by
  have precise : 0 < single.precision := by decide
  have fine : single.spacing (single.leadingExponent units - (8 : Nat)) <
      single.stepBelow units := by
    have coarse := (single.leadingExponent_bounds positive).1
    have split := spacing_add single (single.leadingExponent units - (8 : Nat)) 8
    rw [sub_add_cancel] at split
    rw [split] at coarse
    have few : units < 2 ^ 24 * (2 * single.stepBelow units) := by
      calc units = significand * 2 ^ scale := parts.units_eq
        _ < 2 ^ 24 * 2 ^ scale := Nat.mul_lt_mul_of_pos_right parts.small (by positivity)
        _ = 2 ^ 24 * single.stepAt units := by rw [parts.stepAt_eq precise]
        _ ≤ 2 ^ 24 * (2 * single.stepBelow units) :=
            Nat.mul_le_mul_left _ (parts.stepBelow_bounds precise).2
    have cast : (units : ℚ) < 2 ^ 24 * (2 * single.stepBelow units) := by exact_mod_cast few
    linarith
  obtain ⟨decimal, stopped, fineness, found⟩ :=
    exists_shortestFrom (by decide : 8 < single.precision)
      (exists_nearestOnGrid? precise positive parts fine tie)
  exact ⟨decimal, stopped, fineness, nearestOnGrid?_pos precise positive found,
    nearest_of_nearestOnGrid? precise positive found⟩

theorem digits_lt_of_surrounds (positive : 0 < units) {digits : Nat} {exponent : Int}
    (fineness : single.leadingExponent units - 8 ≤ exponent)
    (around : single.Surrounds units (digits * single.spacing exponent)) :
    digits < 2 ^ 31 := by
  have above := (single.leadingExponent_bounds positive).2
  have step : (single.stepAt units : ℚ) ≤ units := by
    exact_mod_cast stepAt_le (by decide) positive
  have coarse : single.spacing (single.leadingExponent units + 1) ≤
      single.spacing exponent * 10 ^ 9 := by
    rw [← spacing_add]
    exact spacing_mono _ (by push_cast; omega)
  have high := around.high
  have spacing := single.spacing_pos exponent
  have cast : (digits : ℚ) < 2 ^ 31 := by
    apply lt_of_mul_lt_mul_right _ spacing.le
    linarith
  exact_mod_cast cast

theorem exponent_le_of_surrounds (finite : units ≤ single.largest) (positive : 0 < units)
    {digits : Nat} {exponent : Int} (digits_pos : 0 < digits)
    (around : single.Surrounds units (digits * single.spacing exponent)) : exponent ≤ 38 := by
  have step : (single.stepAt units : ℚ) ≤ units := by
    exact_mod_cast stepAt_le (by decide) positive
  have digitsCast : (1 : ℚ) ≤ digits := by exact_mod_cast digits_pos
  have spacing := single.spacing_pos exponent
  have high := around.high
  have product := mul_le_mul_of_nonneg_right digitsCast spacing.le
  have bound : (units : ℚ) ≤ 2 ^ 24 * 2 ^ 253 := by
    have scale : single.topScale = 253 := rfl
    have precision : single.precision = 24 := rfl
    rw [largest_eq, scale, precision] at finite
    have wider := finite.trans (Nat.mul_le_mul_right (2 ^ 253) (Nat.sub_le (2 ^ 24) 1))
    exact_mod_cast wider
  by_contra more
  have large : single.spacing 39 ≤ single.spacing exponent := spacing_mono _ (by omega)
  rw [BinaryFormat.spacing, one_single] at large
  norm_num at large
  linarith

theorem shortens_shortest (finite : units ≤ single.largest) (positive : 0 < units)
    (parts : single.Parts units significand scale) (tie : Tie) :
    Shortens units (single.shortest tie units) := by
  obtain ⟨decimal, stopped, fineness, digits_pos, nearest⟩ :=
    exists_nearest_shortestFrom positive parts tie
  have low := le_leadingExponent positive
  rw [shortest, if_neg (Nat.ne_of_gt positive), stopped]
  unfold Decimal.withoutTrailingZero
  split
  · next ten =>
      have same : (decimal.digits : ℚ) * single.spacing decimal.exponent =
          (1 : Nat) * single.spacing (decimal.exponent + 1) := by
        have split := spacing_add single decimal.exponent 1
        rw [Nat.cast_one] at split
        rw [ten, split]
        push_cast
        ring
      have around := nearest.around
      rw [same] at around
      exact ⟨Nat.one_pos, by norm_num, by show -53 ≤ decimal.exponent + 1; omega,
        exponent_le_of_surrounds finite positive Nat.one_pos around, around,
        fun large => absurd large (by norm_num)⟩
  · exact ⟨digits_pos, digits_lt_of_surrounds positive fineness nearest.around, by omega,
      exponent_le_of_surrounds finite positive digits_pos nearest.around, nearest.around,
      fun _ => nearest⟩

end QueryForest.Number.BinaryFormat
