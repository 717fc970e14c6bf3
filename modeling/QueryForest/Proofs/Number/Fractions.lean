import Mathlib

/-!
# Fractions close to a ratio

Two steps of rounding to 53 bits move a ratio by at most three parts in
`2 ^ 53`.  Fractions that are as close to the ratio as that and have
denominators below `2 ^ 24` are equal, and mediants find them.
-/

namespace QueryForest.Number

/-- A quotient of natural numbers from two to four. -/
structure Ratio where
  numerator : Nat
  denominator : Nat
  denominator_pos : 0 < denominator
  le_numerator : 2 * denominator ≤ numerator
  numerator_le : numerator ≤ 4 * denominator

namespace Ratio

variable {ratio : Ratio}

/-- The fraction is more than three parts in `2 ^ 53` below the ratio. -/
def IsBelow (ratio : Ratio) (top bottom : Nat) : Prop :=
  2 ^ 53 * (top * ratio.denominator) < (2 ^ 53 - 3) * (ratio.numerator * bottom)

/-- The fraction is more than three parts in `2 ^ 53` above the ratio. -/
def IsAbove (ratio : Ratio) (top bottom : Nat) : Prop :=
  (2 ^ 53 + 3) * (ratio.numerator * bottom) < 2 ^ 53 * (top * ratio.denominator)

instance (ratio : Ratio) (top bottom : Nat) : Decidable (ratio.IsBelow top bottom) :=
  inferInstanceAs (Decidable (_ < _))

instance (ratio : Ratio) (top bottom : Nat) : Decidable (ratio.IsAbove top bottom) :=
  inferInstanceAs (Decidable (_ < _))

/-- The fraction is within three parts in `2 ^ 53` of the ratio. -/
structure Meets (ratio : Ratio) (top bottom : Nat) : Prop where
  not_below : ¬ ratio.IsBelow top bottom
  not_above : ¬ ratio.IsAbove top bottom

/-- Search by mediants between two fractions, a limited number of times, for the
close fraction with a small denominator, and whether it passes a test if there
is one. -/
def passes (ratio : Ratio) (test : Nat → Nat → Bool) :
    Nat → Nat → Nat → Nat → Nat → Bool
  | 0, _, _, _, _ => false
  | steps + 1, leftTop, leftBottom, rightTop, rightBottom =>
      let top := leftTop + rightTop
      let bottom := leftBottom + rightBottom
      if 0x1000000 ≤ bottom then
        true
      else if ratio.IsBelow top bottom then
        ratio.passes test steps top bottom rightTop rightBottom
      else if ratio.IsAbove top bottom then
        ratio.passes test steps leftTop leftBottom top bottom
      else
        test top bottom

/-- A fraction between neighbours has a denominator from that of the mediant on. -/
theorem add_le_of_between {a b c d x y : Nat} (neighbours : b * c = a * d + 1)
    (left : a * y < x * b) (right : x * d < c * y) : b + d ≤ y := by
  have first : d * (a * y + 1) ≤ d * (x * b) := Nat.mul_le_mul_left d left
  have second : b * (x * d + 1) ≤ b * (c * y) := Nat.mul_le_mul_left b right
  have sum : b * (c * y) = d * (a * y) + y := by
    rw [← Nat.mul_assoc, neighbours]
    ring
  have same : b * (x * d) = d * (x * b) := by ring
  rw [Nat.mul_add] at first second
  omega

theorem coprime_mediant {a b c d : Nat} (neighbours : b * c = a * d + 1) :
    (a + c).Coprime (b + d) := by
  have next : b * (a + c) = a * (b + d) + 1 := by
    rw [Nat.mul_add, Nat.mul_add, neighbours]
    ring
  have left := (Nat.gcd_dvd_left (a + c) (b + d)).mul_left b
  have right := (Nat.gcd_dvd_right (a + c) (b + d)).mul_left a
  rw [next] at left
  exact Nat.dvd_one.mp ((Nat.dvd_add_right right).mp left)

/-- A fraction that is close is above one that is not close from below. -/
theorem Meets.above {top bottom x y : Nat} (meets : ratio.Meets x y) (positive : 0 < y)
    (below : ratio.IsBelow top bottom) : top * y < x * bottom := by
  have notBelow := Nat.not_lt.mp meets.not_below
  have scaled : 2 ^ 53 * (top * ratio.denominator) * y <
      (2 ^ 53 - 3) * (ratio.numerator * bottom) * y :=
    Nat.mul_lt_mul_of_pos_right below positive
  have other := Nat.mul_le_mul_right bottom notBelow
  apply Nat.lt_of_mul_lt_mul_left (a := 2 ^ 53 * ratio.denominator)
  calc 2 ^ 53 * ratio.denominator * (top * y)
      = 2 ^ 53 * (top * ratio.denominator) * y := by ring
    _ < (2 ^ 53 - 3) * (ratio.numerator * bottom) * y := scaled
    _ = (2 ^ 53 - 3) * (ratio.numerator * y) * bottom := by ring
    _ ≤ 2 ^ 53 * (x * ratio.denominator) * bottom := other
    _ = 2 ^ 53 * ratio.denominator * (x * bottom) := by ring

/-- A fraction that is close is below one that is not close from above. -/
theorem Meets.below {top bottom x y : Nat} (meets : ratio.Meets x y) (positive : 0 < y)
    (above : ratio.IsAbove top bottom) : x * bottom < top * y := by
  have notAbove := Nat.not_lt.mp meets.not_above
  have scaled : (2 ^ 53 + 3) * (ratio.numerator * bottom) * y <
      2 ^ 53 * (top * ratio.denominator) * y :=
    Nat.mul_lt_mul_of_pos_right above positive
  have other := Nat.mul_le_mul_right bottom notAbove
  apply Nat.lt_of_mul_lt_mul_left (a := 2 ^ 53 * ratio.denominator)
  calc 2 ^ 53 * ratio.denominator * (x * bottom)
      = 2 ^ 53 * (x * ratio.denominator) * bottom := by ring
    _ ≤ (2 ^ 53 + 3) * (ratio.numerator * y) * bottom := other
    _ = (2 ^ 53 + 3) * (ratio.numerator * bottom) * y := by ring
    _ < 2 ^ 53 * (top * ratio.denominator) * y := scaled
    _ = 2 ^ 53 * ratio.denominator * (top * y) := by ring

/-- Of two close fractions with small denominators none is the larger one. -/
theorem Meets.not_lt {a b x y : Nat} (meets : ratio.Meets a b) (other : ratio.Meets x y)
    (small : b < 0x1000000) (otherSmall : y < 0x1000000) : ¬ a * y < x * b := by
  intro less
  have low := Nat.mul_le_mul_right y (Nat.not_lt.mp meets.not_below)
  have high := Nat.mul_le_mul_right b (Nat.not_lt.mp other.not_above)
  have apart : 2 ^ 53 * ratio.denominator * (a * y + 1) ≤
      2 ^ 53 * ratio.denominator * (x * b) := Nat.mul_le_mul_left _ less
  have bound : ratio.numerator * (b * y) ≤ 4 * ratio.denominator * (0xFFFFFF * 0xFFFFFF) :=
    Nat.mul_le_mul ratio.numerator_le
      (Nat.mul_le_mul (Nat.le_of_lt_succ small) (Nat.le_of_lt_succ otherSmall))
  have positive := ratio.denominator_pos
  have lowSame : (2 ^ 53 - 3) * (ratio.numerator * b) * y =
      (2 ^ 53 - 3) * (ratio.numerator * (b * y)) := by ring
  have highSame : (2 ^ 53 + 3) * (ratio.numerator * y) * b =
      (2 ^ 53 + 3) * (ratio.numerator * (b * y)) := by ring
  have leftSame : 2 ^ 53 * (a * ratio.denominator) * y =
      2 ^ 53 * (ratio.denominator * (a * y)) := by ring
  have rightSame : 2 ^ 53 * (x * ratio.denominator) * b =
      2 ^ 53 * (ratio.denominator * (x * b)) := by ring
  rw [lowSame, leftSame] at low
  rw [highSame, rightSame] at high
  rw [Nat.mul_assoc, Nat.mul_assoc, Nat.mul_add] at apart
  omega

theorem exists_of_passes {test : Nat → Nat → Bool} {steps a b c d x y : Nat}
    (passed : ratio.passes test steps a b c d = true) (neighbours : b * c = a * d + 1)
    (left : a * y < x * b) (right : x * d < c * y) (meets : ratio.Meets x y)
    (small : y < 0x1000000) :
    ∃ top bottom, test top bottom = true ∧ top.Coprime bottom ∧ x * bottom = top * y := by
  have positive : 0 < y := Nat.pos_of_ne_zero fun none => by
    rw [none, Nat.mul_zero] at right
    exact Nat.not_lt_zero _ right
  induction steps generalizing a b c d with
  | zero => cases passed
  | succ steps inductionHypothesis =>
      rw [passes] at passed
      split at passed
      · next large =>
          -- Strictly between neighbours no denominator is smaller than that of the mediant.
          have least := add_le_of_between neighbours left right
          omega
      · next smallMediant =>
          split at passed
          · next below =>
              refine inductionHypothesis passed ?_ (meets.above positive below) right
              rw [Nat.add_mul, Nat.add_mul, neighbours]
              ring
          · next notBelow =>
              split at passed
              · next above =>
                  refine inductionHypothesis passed ?_ left (meets.below positive above)
                  rw [Nat.mul_add, Nat.mul_add, neighbours]
                  ring
              · next notAbove =>
                  -- Two close fractions with small denominators are equal, so this is the one.
                  have mediant : ratio.Meets (a + c) (b + d) := ⟨notBelow, notAbove⟩
                  have smaller := Nat.not_le.mp smallMediant
                  refine ⟨a + c, b + d, passed, ?_, ?_⟩
                  · exact coprime_mediant neighbours
                  · exact Nat.le_antisymm
                      (Nat.not_lt.mp (mediant.not_lt meets smaller small))
                      (Nat.not_lt.mp (meets.not_lt mediant small smaller))

/-! ## Powers of ten -/

theorem lt_two_mul_two_pow_log2 (value : Nat) : value < 2 * 2 ^ value.log2 := by
  rw [← Nat.pow_succ']
  exact Nat.lt_log2_self

theorem ten_pow_pos (places : Nat) : 0 < 10 ^ places := by
  positivity

theorem two_pow_log2_le (places : Nat) : 2 ^ (10 ^ places).log2 ≤ 10 ^ places :=
  Nat.log2_self_le (ten_pow_pos places).ne'

theorem two_mul_ten_pow_le (places : Nat) : 2 * 10 ^ places ≤ 4 * 2 ^ (10 ^ places).log2 := by
  have above := lt_two_mul_two_pow_log2 (10 ^ places)
  omega

/-- A power of ten, divided by the power of two that brings it between two and
four. -/
def ofPower : Int → Ratio
  | .ofNat places =>
      { numerator := 2 * 10 ^ places
        denominator := 2 ^ (10 ^ places).log2
        denominator_pos := Nat.two_pow_pos _
        le_numerator := Nat.mul_le_mul_left 2 (two_pow_log2_le places)
        numerator_le := two_mul_ten_pow_le places }
  | .negSucc places =>
      { numerator := 4 * 2 ^ (10 ^ (places + 1)).log2
        denominator := 10 ^ (places + 1)
        denominator_pos := ten_pow_pos (places + 1)
        le_numerator := two_mul_ten_pow_le (places + 1)
        numerator_le := Nat.mul_le_mul_left 4 (two_pow_log2_le (places + 1)) }

def shift : Int → Int
  | .ofNat places => (10 ^ places).log2 - 1
  | .negSucc places => -((10 ^ (places + 1)).log2 + 2)

theorem ofPower_eq (power : Int) :
    ((ofPower power).numerator : ℚ) / (ofPower power).denominator * 2 ^ shift power =
      10 ^ power := by
  cases power with
  | ofNat places =>
      show ((2 * 10 ^ places : Nat) : ℚ) / (2 ^ (10 ^ places).log2 : Nat) *
        2 ^ (((10 ^ places).log2 : Int) - 1) = 10 ^ (places : Int)
      rw [zpow_sub₀ (by norm_num), zpow_natCast, zpow_natCast]
      push_cast
      field_simp
  | negSucc places =>
      show ((4 * 2 ^ (10 ^ (places + 1)).log2 : Nat) : ℚ) / (10 ^ (places + 1) : Nat) *
        2 ^ (-(((10 ^ (places + 1)).log2 : Int) + 2)) = 10 ^ (Int.negSucc places)
      rw [zpow_neg, zpow_negSucc, zpow_add₀ (by norm_num), zpow_natCast]
      push_cast
      field_simp

/-- The fractions that may be close to a power of ten: the power itself, as long
as it is rounded to itself, odd numerators that are too large, and one fraction
that is known. -/
def mayMeet (power : Int) (top bottom : Nat) : Bool :=
  power.natAbs ≤ 22 && top * (ofPower power).denominator = (ofPower power).numerator * bottom
    || 0x2000000 ≤ top && top % 2 = 1
    || power = -32 && top = 22841339 && bottom = 7038531

theorem passes_ofNat : ∀ places < 39,
    (ofPower (.ofNat places)).passes (mayMeet (.ofNat places)) 1500 0 1 1 0 = true := by
  decide +kernel

theorem passes_negSucc : ∀ places < 53,
    (ofPower (.negSucc places)).passes (mayMeet (.negSucc places)) 1500 0 1 1 0 = true := by
  decide +kernel

theorem passes_ofPower {power : Int} (low : -53 ≤ power) (high : power ≤ 38) :
    (ofPower power).passes (mayMeet power) 1500 0 1 1 0 = true := by
  cases power with
  | ofNat places => exact passes_ofNat places (by rw [Int.ofNat_eq_natCast] at high; omega)
  | negSucc places => exact passes_negSucc places (by omega)

theorem meets_of_close {top bottom : Nat}
    (close : |(top : ℚ) - bottom * (ratio.numerator / ratio.denominator)| ≤
      3 / 2 ^ 53 * (bottom * (ratio.numerator / ratio.denominator))) :
    ratio.Meets top bottom := by
  have positive : (0 : ℚ) < ratio.denominator := by exact_mod_cast ratio.denominator_pos
  obtain ⟨low, high⟩ := abs_le.mp close
  have product : (bottom * ratio.numerator : ℚ) =
      bottom * (ratio.numerator / ratio.denominator) * ratio.denominator := by
    field_simp
  constructor
  · apply Nat.not_lt.mpr
    have cast : ((2 : ℚ) ^ 53 - 3) * (ratio.numerator * bottom) ≤
        2 ^ 53 * (top * ratio.denominator) := by
      rw [mul_comm (ratio.numerator : ℚ), product]
      have scaled := mul_le_mul_of_nonneg_right low positive.le
      linarith
    have whole : (((2 ^ 53 - 3 : Nat) : ℚ)) = 2 ^ 53 - 3 := by norm_num
    rw [← whole] at cast
    exact_mod_cast cast
  · apply Nat.not_lt.mpr
    have cast : (2 : ℚ) ^ 53 * (top * ratio.denominator) ≤
        (2 ^ 53 + 3) * (ratio.numerator * bottom) := by
      rw [mul_comm (ratio.numerator : ℚ), product]
      have scaled := mul_le_mul_of_nonneg_right high positive.le
      linarith
    exact_mod_cast cast

/-- A number of 25 bits that is close to a ratio times a whole number bounds that
number. -/
theorem Meets.bottom_lt {top bottom : Nat} (meets : ratio.Meets top bottom)
    (small : top < 0x2000000) : bottom < 0x1000000 := by
  by_contra large
  have notBelow := Nat.not_lt.mp meets.not_below
  have product : 2 * ratio.denominator * 0x1000000 ≤ ratio.numerator * bottom :=
    Nat.mul_le_mul ratio.le_numerator (Nat.not_lt.mp large)
  have few : top * ratio.denominator ≤ 0x1FFFFFF * ratio.denominator :=
    Nat.mul_le_mul_right _ (Nat.le_of_lt_succ small)
  have positive := ratio.denominator_pos
  omega

/-- How a short number can be close to a multiple of a power of ten: as the same
number, or in the one place that is known. -/
inductive Encounter (digits : Nat) (power : Int) (short : ℚ) : Prop
  | same (exactly : short = digits * 10 ^ power) (few : power.natAbs ≤ 22)
  | known (power_eq : power = -32) (digits_eq : digits = 7038531 ∨ digits = 14077062)

variable {digits significand : Nat} {power exponent : Int}

/-- Powers of two bring a short number and a multiple of a power of ten that are
close to each other to a fraction that is close to the ratio of the power. -/
theorem exists_meets
    (close : |(significand : ℚ) * 2 ^ exponent - digits * 10 ^ power| ≤
      3 / 2 ^ 53 * (digits * 10 ^ power)) :
    ∃ up down : Nat, (up = 0 ∨ down = 0) ∧ exponent + down = shift power + up ∧
      (ofPower power).Meets (significand * 2 ^ up) (digits * 2 ^ down) := by
  refine ⟨(exponent - shift power).toNat, (shift power - exponent).toNat, by omega,
    by omega, meets_of_close ?_⟩
  generalize upEq : (exponent - shift power).toNat = up
  generalize downEq : (shift power - exponent).toNat = down
  rw [← ofPower_eq power] at close
  generalize (ofPower power).numerator / ((ofPower power).denominator : ℚ) = value at *
  have balance : (2 : ℚ) ^ exponent * 2 ^ down = 2 ^ shift power * 2 ^ up := by
    rw [← zpow_natCast, ← zpow_natCast, ← zpow_add₀ (by norm_num), ← zpow_add₀ (by norm_num)]
    congr 1
    omega
  have positive : (0 : ℚ) < 2 ^ shift power := by positivity
  have factor : (0 : ℚ) < 2 ^ down / 2 ^ shift power := by positivity
  have brought : (2 : ℚ) ^ exponent * (2 ^ down / 2 ^ shift power) = 2 ^ up := by
    rw [← mul_div_assoc, balance]
    field_simp
  have scaled := mul_le_mul_of_nonneg_right close factor.le
  rw [← abs_of_pos factor, ← abs_mul, abs_of_pos factor, sub_mul, mul_assoc, brought] at scaled
  push_cast
  have ground : digits * (value * 2 ^ shift power) * (2 ^ down / 2 ^ shift power) =
      digits * 2 ^ down * value := by
    field_simp
  rw [ground, mul_assoc (3 / 2 ^ 53), ground] at scaled
  exact scaled

/-- A fraction that equals the ratio of a power of ten gives the power. -/
theorem eq_of_fraction_eq {up down : Nat} (balance : exponent + down = shift power + up)
    (fraction : significand * 2 ^ up * (ofPower power).denominator =
      (ofPower power).numerator * (digits * 2 ^ down)) :
    (significand : ℚ) * 2 ^ exponent = digits * 10 ^ power := by
  have positive : (0 : ℚ) < (ofPower power).denominator := by
    exact_mod_cast (ofPower power).denominator_pos
  have powers : (2 : ℚ) ^ exponent * 2 ^ down = 2 ^ shift power * 2 ^ up := by
    rw [← zpow_natCast, ← zpow_natCast, ← zpow_add₀ (by norm_num), balance,
      zpow_add₀ (by norm_num)]
  have cast : (significand : ℚ) * 2 ^ up * (ofPower power).denominator =
      (ofPower power).numerator * (digits * 2 ^ down) := by exact_mod_cast fraction
  have nonzero : (2 : ℚ) ^ down ≠ 0 := by positivity
  rw [← ofPower_eq power]
  apply mul_right_cancel₀ nonzero
  rw [mul_assoc, powers]
  field_simp
  linear_combination cast

theorem le_of_odd_dvd {odd up : Nat} (isOdd : odd % 2 = 1) (positive : 0 < significand)
    (divides : odd ∣ significand * 2 ^ up) : odd ≤ significand := by
  have coprime : odd.Coprime (2 ^ up) :=
    Nat.Coprime.pow_right up (Nat.coprime_two_right.mpr (Nat.odd_iff.mpr isOdd))
  exact Nat.le_of_dvd positive (coprime.dvd_of_dvd_mul_right divides)

/-- The multiples of the known fraction that are short enough. -/
theorem digits_eq_of_known {up down : Nat} (oneSided : up = 0 ∨ down = 0)
    (small : digits * 2 ^ down < 0x1000000) (positive : 0 < digits * 2 ^ down)
    (significand_lt : significand < 0x2000000)
    (fraction : significand * 2 ^ up * 7038531 = 22841339 * (digits * 2 ^ down)) :
    digits = 7038531 ∨ digits = 14077062 := by
  obtain ⟨factor, bottom⟩ : 7038531 ∣ digits * 2 ^ down :=
    (by norm_num : Nat.Coprime 7038531 22841339).dvd_of_dvd_mul_left
      ⟨significand * 2 ^ up, by rw [← fraction, Nat.mul_comm]⟩
  have top : significand * 2 ^ up = 22841339 * factor := by
    rw [bottom] at fraction
    apply Nat.eq_of_mul_eq_mul_right (by norm_num : 0 < 7038531)
    rw [fraction]
    ring
  clear fraction
  rcases oneSided with none | none
  · rw [none, Nat.pow_zero, Nat.mul_one] at top
    cases down with
    | zero =>
        rw [Nat.pow_zero, Nat.mul_one] at bottom small positive
        omega
    | succ down =>
        rw [Nat.pow_succ, ← Nat.mul_assoc] at bottom small positive
        omega
  · rw [none, Nat.pow_zero, Nat.mul_one] at bottom small positive
    omega

theorem encounter (low : -53 ≤ power) (high : power ≤ 38)
    (digits_pos : 0 < digits) (digits_lt : digits < 0x1000000)
    (significand_pos : 0 < significand) (significand_lt : significand < 0x2000000)
    (close : |(significand : ℚ) * 2 ^ exponent - digits * 10 ^ power| ≤
      3 / 2 ^ 53 * (digits * 10 ^ power)) :
    Encounter digits power (significand * 2 ^ exponent) := by
  obtain ⟨up, down, oneSided, balance, meets⟩ := exists_meets close
  have small : digits * 2 ^ down < 0x1000000 := by
    rcases oneSided with none | none
    · subst none
      exact meets.bottom_lt (by omega)
    · subst none
      omega
  obtain ⟨top, bottom, allowed, coprime, fraction⟩ :=
    exists_of_passes (passes_ofPower low high) rfl
      (by rw [Nat.zero_mul, Nat.mul_one]; positivity)
      (by rw [Nat.mul_zero, Nat.one_mul]; positivity) meets small
  simp only [mayMeet, Bool.or_eq_true, Bool.and_eq_true, decide_eq_true_eq] at allowed
  rcases allowed with (⟨few, equal⟩ | ⟨large, odd⟩) | ⟨⟨power_eq, rfl⟩, rfl⟩
  · have positive : 0 < bottom := by
      apply Nat.pos_of_ne_zero
      rintro rfl
      rw [Nat.mul_zero] at equal
      have none := Nat.mul_eq_zero.mp equal
      have denominator := (ofPower power).denominator_pos
      rw [Nat.coprime_zero_right] at coprime
      omega
    -- The fraction equals the ratio, so the two numbers are the same.
    refine .same (eq_of_fraction_eq balance ?_) few
    apply Nat.eq_of_mul_eq_mul_right positive
    calc significand * 2 ^ up * (ofPower power).denominator * bottom
        = significand * 2 ^ up * bottom * (ofPower power).denominator := by ring
      _ = top * (digits * 2 ^ down) * (ofPower power).denominator := by rw [fraction]
      _ = top * (ofPower power).denominator * (digits * 2 ^ down) := by ring
      _ = (ofPower power).numerator * bottom * (digits * 2 ^ down) := by rw [equal]
      _ = (ofPower power).numerator * (digits * 2 ^ down) * bottom := by ring
  · have divides : top ∣ significand * 2 ^ up :=
      coprime.dvd_of_dvd_mul_right ⟨_, fraction⟩
    have short := le_of_odd_dvd odd significand_pos divides
    omega
  · exact .known power_eq
      (digits_eq_of_known oneSided small (by positivity) significand_lt fraction)

end Ratio

end QueryForest.Number
