import QueryForest.Proofs.Document.Rereading
import QueryForest.Proofs.Number.Plain
import QueryForest.Proofs.Number.Reading
import QueryForest.Proofs.Number.Returning

/-!
# Numbers in documents

A number in a document is written as its shortest decimal, and every finite one is
read as itself.  A whole number is written with a zero behind its point: then its
digits are divided by ten, which is exact.
-/

namespace QueryForest.Number

namespace BinaryFormat

variable {units significand scale : Nat}

/-- A number that is written without a power of ten is not large. -/
theorem shifted_lt {decimal : Decimal} (above : 0 ≤ decimal.exponent)
    (near : Layout.data.positional ((digitsOf decimal.digits).length - 1 + decimal.exponent) =
      true) :
    decimal.digits * 10 ^ decimal.exponent.toNat < 10 ^ 13 := by
  have leading : ((digitsOf decimal.digits).length : Int) - 1 + decimal.exponent ≤ 12 := by
    have within : (decide (-6 ≤ ((digitsOf decimal.digits).length : Int) - 1 + decimal.exponent) &&
      decide (((digitsOf decimal.digits).length : Int) - 1 + decimal.exponent ≤ 12)) = true := near
    exact of_decide_eq_true (Bool.and_eq_true_iff.mp within).2
  calc decimal.digits * 10 ^ decimal.exponent.toNat
      < 10 ^ (digitsOf decimal.digits).length * 10 ^ decimal.exponent.toNat :=
        Nat.mul_lt_mul_of_pos_right (ofDigits_digitsOf_lt decimal.digits) (by positivity)
    _ = 10 ^ ((digitsOf decimal.digits).length + decimal.exponent.toNat) := (Nat.pow_add ..).symm
    _ ≤ 10 ^ 13 := Nat.pow_le_pow_right (by decide) (by omega)

/-- The digits of a whole number and a zero behind the point are read exactly. -/
theorem exists_round_tenfold {decimal : Decimal} (parts : single.Parts units significand scale)
    (finite : units ≤ single.largest) (shortens : Shortens units decimal)
    (above : 0 ≤ decimal.exponent)
    (small : decimal.digits * 10 ^ decimal.exponent.toNat < 10 ^ 13) :
    ∃ double, Double.ofScientific? (10 * (decimal.digits * 10 ^ decimal.exponent.toNat)) (-1) =
        some double ∧
      single.round double.units BinaryFormat.double.one = some units := by
  obtain ⟨whole, wholeEq⟩ :
      ∃ whole, whole = decimal.digits * 10 ^ decimal.exponent.toNat := ⟨_, rfl⟩
  rw [← wholeEq] at small ⊢
  have positive : 0 < whole := by
    rw [wholeEq]
    exact Nat.mul_pos shortens.digits_pos (by positivity)
  obtain ⟨double, found, reads⟩ := Double.exists_reads_ofScientific?
    (by omega : 0 < 10 * whole) (by omega) (by decide : (-53 : Int) ≤ -1) (by decide)
  have tenth : ((10 * whole : Nat) : ℚ) * 10 ^ (-1 : Int) = whole * 2 ^ (0 : Int) := by
    push_cast
    rw [zpow_neg_one]
    ring
  have exactly := reads.exactly (by decide) whole 0 (by omega) (by decide) (by decide) tenth
  refine ⟨double, found, round_double parts finite ?_⟩
  have same : double.value * 2 ^ 149 = decimal.digits * single.spacing decimal.exponent := by
    have exponent : (10 : ℚ) ^ decimal.exponent = 10 ^ decimal.exponent.toNat := by
      rw [← zpow_natCast, Int.toNat_of_nonneg above]
    rw [exactly, tenth, spacing_single, exponent, wholeEq]
    push_cast
    ring
  rw [same]
  exact shortens.around

end BinaryFormat

namespace Single

open BinaryFormat (Shortens)

/-- What the numeral of a positive magnitude stands for is rounded to it. -/
theorem exists_quantity?_of_pos {single : Single} (finite : single.isFinite = true)
    (positive : 0 < single.units) :
    ∃ magnitude, (single.numeral .data).quantity? =
        some (.fraction single.isNegative magnitude) ∧
      BinaryFormat.single.round magnitude.units BinaryFormat.double.one = some single.units := by
  obtain ⟨significand, scale, parts⟩ := single.exists_parts_units
  have inside := units_le_largest finite
  have shortens := BinaryFormat.shortens_shortest inside positive parts Layout.data.tie
  unfold numeral
  generalize BinaryFormat.single.shortest Layout.data.tie single.units = decimal at shortens
  have small : decimal.digits < 0x10000000000000000 :=
    lt_trans shortens.digits_lt (by norm_num)
  obtain ⟨magnitude, found, rounded⟩ :=
    BinaryFormat.exists_round_ofScientific? parts inside positive shortens
  by_cases near : Layout.data.positional
      ((digitsOf decimal.digits).length - 1 + decimal.exponent) = true
  · by_cases below : decimal.exponent < 0
    · exact ⟨magnitude, Layout.quantity?_pointed _ small below near found, rounded⟩
    · have above : 0 ≤ decimal.exponent := Int.not_lt.mp below
      have bound := BinaryFormat.shifted_lt above near
      obtain ⟨tenfold, tenfoldFound, tenfoldRounded⟩ :=
        BinaryFormat.exists_round_tenfold parts inside shortens above bound
      exact ⟨tenfold, Layout.quantity?_whole _ (by omega) above near tenfoldFound,
        tenfoldRounded⟩
  · exact ⟨magnitude, Layout.quantity?_scientific _ small (Bool.eq_false_iff.mpr near) found,
      rounded⟩

/-- What the numeral of a finite number stands for is rounded to its magnitude. -/
theorem exists_quantity? {single : Single} (finite : single.isFinite = true) :
    ∃ magnitude, (single.numeral .data).quantity? =
        some (.fraction single.isNegative magnitude) ∧
      BinaryFormat.single.round magnitude.units BinaryFormat.double.one = some single.units := by
  by_cases zero : single.units = 0
  · have shortest : BinaryFormat.single.shortest Layout.data.tie single.units = ⟨0, 0⟩ := by
      rw [BinaryFormat.shortest, if_pos zero]
    unfold numeral
    rw [shortest, zero]
    obtain ⟨magnitude, found, rounded⟩ : ∃ magnitude, Double.ofScientific? 0 (-1) = some magnitude ∧
        BinaryFormat.single.round magnitude.units BinaryFormat.double.one = some 0 :=
      Option.map_eq_some_iff.mp (by decide +kernel)
    exact ⟨magnitude, Layout.quantity?_whole _ (by decide) (by decide) (by decide) found, rounded⟩
  · exact exists_quantity?_of_pos finite (Nat.pos_of_ne_zero zero)

/-- Rounding to 32 bits, with the outcome taken apart without a match: that one would
be evaluated as soon as the rounding is unfolded. -/
theorem ofQuotient_eq : ofQuotient = fun negative numerator denominator =>
    (BinaryFormat.single.round numerator denominator).elim (infinity negative)
      (ofUnits negative) := by
  delta ofQuotient
  funext negative numerator denominator
  generalize BinaryFormat.single.round numerator denominator = rounded
  cases rounded <;> rfl

theorem ofDouble_of_round {negative : Bool} {magnitude : Double} {units : Nat}
    (rounded : BinaryFormat.single.round magnitude.units BinaryFormat.double.one = some units) :
    ofDouble negative magnitude = ofUnits negative units := by
  rw [ofDouble, ofQuotient_eq]
  beta_reduce
  rw [rounded, Option.elim_some]

/-- The numbers that are read as themselves from their written form are the finite
ones. -/
theorem readsBack_iff_isFinite (single : Single) : single.ReadsBack ↔ single.isFinite = true := by
  refine ⟨ReadsBack.isFinite, fun finite => ?_⟩
  obtain ⟨magnitude, quantity, rounded⟩ := exists_quantity? finite
  unfold ReadsBack Document.ofSingle
  rw [if_pos finite, Json.asSingle, quantity]
  show Except.ok (ofDouble single.isNegative magnitude) = _
  rw [ofDouble_of_round rounded, single.ofUnits_units]

end Single

end QueryForest.Number
