import Mathlib.Tactic.Ring
import Mathlib.Tactic.Positivity
import QueryForest.Number.Layout
import QueryForest.Proofs.Number.Written

/-!
# What laid out decimals stand for

A decimal that is laid out for data has a point or a power of ten, so it is read as
a fraction.  Its digits are the digits of the decimal, or those of ten times a whole
number, and its places and its power make the exponent of the decimal.
-/

namespace QueryForest.Number

theorem ofDigits_append (left right : List Digit) :
    ofDigits (left ++ right) = ofDigits left * 10 ^ right.length + ofDigits right := by
  induction right using List.reverseRecOn with
  | nil => simp [ofDigits]
  | append_singleton initial last inductionHypothesis =>
      rw [← List.append_assoc, ofDigits_append_singleton, inductionHypothesis,
        ofDigits_append_singleton, List.length_append, List.length_singleton, Nat.pow_succ]
      ring

theorem ofDigits_replicate (count : Nat) : ofDigits (List.replicate count .zero) = 0 := by
  induction count with
  | zero => rfl
  | succ count inductionHypothesis =>
      rw [List.replicate_succ', ofDigits_append_singleton, inductionHypothesis]
      rfl

theorem ofDigits_zeros_append (count : Nat) (digits : List Digit) :
    ofDigits (List.replicate count .zero ++ digits) = ofDigits digits := by
  rw [ofDigits_append, ofDigits_replicate, Nat.zero_mul, Nat.zero_add]

theorem ofDigits_append_zeros (digits : List Digit) (count : Nat) :
    ofDigits (digits ++ List.replicate count .zero) = ofDigits digits * 10 ^ count := by
  rw [ofDigits_append, ofDigits_replicate, List.length_replicate, Nat.add_zero]

theorem ofDigits_lt (digits : List Digit) : ofDigits digits < 10 ^ digits.length := by
  induction digits using List.reverseRecOn with
  | nil => exact Nat.one_pos
  | append_singleton initial last inductionHypothesis =>
      rw [ofDigits_append_singleton, List.length_append, List.length_singleton, Nat.pow_succ]
      have small := last.isLt
      omega

theorem absorb_eq {significand : Nat} {digits : List Digit}
    (fits : significand * 10 ^ digits.length + ofDigits digits < 0x10000000000000000) :
    absorb significand digits = (significand * 10 ^ digits.length + ofDigits digits, []) := by
  induction digits generalizing significand with
  | nil => simp [absorb, ofDigits]
  | cons head tail inductionHypothesis =>
      have split : ofDigits (head :: tail) = head.val * 10 ^ tail.length + ofDigits tail := by
        have parts := ofDigits_append [head] tail
        rw [List.singleton_append] at parts
        rw [parts]
        simp [ofDigits]
      have same : significand * 10 ^ (head :: tail).length + ofDigits (head :: tail) =
          (10 * significand + head) * 10 ^ tail.length + ofDigits tail := by
        rw [split, List.length_cons, Nat.pow_succ]
        ring
      rw [same] at fits ⊢
      have room : 10 * significand + head < 0x10000000000000000 := by
        refine Nat.lt_of_le_of_lt ?_ fits
        exact (Nat.le_mul_of_pos_right _ (by positivity)).trans (Nat.le_add_right _ _)
      rw [absorb, if_pos room]
      exact inductionHypothesis fits

theorem significandAndPlaces_eq {whole fraction : List Digit}
    (fits : ofDigits (whole ++ fraction) < 0x10000000000000000) :
    significandAndPlaces whole fraction =
      (ofDigits (whole ++ fraction), -(fraction.length : Int)) := by
  rw [ofDigits_append] at fits ⊢
  have wholeFits : ofDigits whole < 0x10000000000000000 := by
    refine Nat.lt_of_le_of_lt ?_ fits
    exact (Nat.le_mul_of_pos_right _ (by positivity)).trans (Nat.le_add_right _ _)
  have first : absorb 0 whole = (ofDigits whole, []) := by
    rw [absorb_eq (by rwa [Nat.zero_mul, Nat.zero_add]), Nat.zero_mul, Nat.zero_add]
  unfold significandAndPlaces
  rw [first]
  dsimp only
  rw [absorb_eq fits]
  simp

namespace Numeral

/-- A numeral with a point or a power is read from its significand. -/
theorem quantity?_eq {numeral : Numeral}
    (fractional : numeral.fraction ≠ [] ∨ numeral.exponent.isSome = true)
    (fits : ofDigits (numeral.whole ++ numeral.fraction) < 0x10000000000000000)
    {magnitude : Double}
    (found : Double.ofScientific? (ofDigits (numeral.whole ++ numeral.fraction))
      (numeral.power - numeral.fraction.length) = some magnitude) :
    numeral.quantity? = some (.fraction numeral.negative magnitude) := by
  have none : numeral.integer? = none := by
    unfold integer?
    rcases fractional with point | power
    · simp [point]
    · simp [power]
  unfold quantity?
  rw [none, significandAndPlaces_eq fits]
  have sum : -(numeral.fraction.length : Int) + numeral.power =
      numeral.power - numeral.fraction.length := by ring
  simp only [sum, found]
  rfl

theorem power_exponentOf (negative : Bool) (whole fraction : List Digit) (exponent : Int) :
    power { negative, whole, fraction, exponent := some (exponentOf exponent) } = exponent := by
  unfold power exponentOf
  by_cases below : exponent < 0
  · simp only [below, decide_true, ofDigits_digitsOf]
    omega
  · simp only [below, decide_false, ofDigits_digitsOf]
    omega

end Numeral

/-! ## Laying out for data -/

theorem ofDigits_digitsOf_lt (value : Nat) : value < 10 ^ (digitsOf value).length := by
  have bound := ofDigits_lt (digitsOf value)
  rwa [ofDigits_digitsOf] at bound

theorem digitsOf_length_pos (value : Nat) : 0 < (digitsOf value).length :=
  List.length_pos_iff.mpr (digitsOf_ne_nil value)

namespace Layout

variable (negative : Bool) {decimal : Decimal}

/-- With a power of ten, the digits follow each other around the point. -/
theorem quantity?_scientific {magnitude : Double}
    (small : decimal.digits < 0x10000000000000000)
    (far : data.positional ((digitsOf decimal.digits).length - 1 + decimal.exponent) = false)
    (found : Double.ofScientific? decimal.digits decimal.exponent = some magnitude) :
    (data.numeral negative decimal).quantity? = some (.fraction negative magnitude) := by
  have laid : data.numeral negative decimal =
      { negative
        whole := (digitsOf decimal.digits).take 1
        fraction := (digitsOf decimal.digits).drop 1
        exponent := some
          (Numeral.exponentOf ((digitsOf decimal.digits).length - 1 + decimal.exponent)) } := by
    unfold numeral
    dsimp only
    rw [far]
    rfl
  have joined : ofDigits ((digitsOf decimal.digits).take 1 ++ (digitsOf decimal.digits).drop 1) =
      decimal.digits := by
    rw [List.take_append_drop, ofDigits_digitsOf]
  rw [laid]
  apply Numeral.quantity?_eq (.inr rfl)
  · dsimp only
    rw [joined]
    exact small
  · dsimp only
    rw [Numeral.power_exponentOf, joined, List.length_drop]
    have length := digitsOf_length_pos decimal.digits
    have exponent : ((digitsOf decimal.digits).length : Int) - 1 + decimal.exponent -
        (((digitsOf decimal.digits).length - 1 : Nat) : Int) = decimal.exponent := by omega
    rw [exponent]
    exact found

/-- With digits behind the point, those are as many as the exponent says. -/
theorem quantity?_pointed {magnitude : Double}
    (small : decimal.digits < 0x10000000000000000) (below : decimal.exponent < 0)
    (near : data.positional ((digitsOf decimal.digits).length - 1 + decimal.exponent) = true)
    (found : Double.ofScientific? decimal.digits decimal.exponent = some magnitude) :
    (data.numeral negative decimal).quantity? = some (.fraction negative magnitude) := by
  obtain ⟨places, exponent⟩ : ∃ places : Nat, decimal.exponent = -((places + 1 : Nat) : Int) :=
    ⟨(-decimal.exponent).toNat - 1, by omega⟩
  have shift : decimal.exponent.toNat = 0 := by omega
  have count : (-decimal.exponent).toNat = places + 1 := by omega
  obtain ⟨padded, paddedEq⟩ : ∃ padded, padded =
      List.replicate (places + 1 + 1 - (digitsOf decimal.digits).length) Digit.zero ++
        digitsOf decimal.digits := ⟨_, rfl⟩
  have long : places + 1 ≤ padded.length := by
    rw [paddedEq, List.length_append, List.length_replicate]
    omega
  have length : (padded.drop (padded.length - (places + 1))).length = places + 1 := by
    rw [List.length_drop]
    omega
  -- The zeros in front make up the digit before the point and do not change the number.
  have laid : data.numeral negative decimal =
      { negative
        whole := padded.take (padded.length - (places + 1))
        fraction := padded.drop (padded.length - (places + 1)) } := by
    have complete : data.leastFraction - (places + 1) = 0 := by
      show 1 - (places + 1) = 0
      omega
    unfold numeral
    dsimp only
    rw [near, if_pos rfl, shift, count, List.replicate_zero, List.append_nil, ← paddedEq,
      length, complete, List.replicate_zero, List.append_nil]
  have joined : ofDigits (padded.take (padded.length - (places + 1)) ++
      padded.drop (padded.length - (places + 1))) = decimal.digits := by
    rw [List.take_append_drop, paddedEq, ofDigits_zeros_append, ofDigits_digitsOf]
  rw [laid]
  apply Numeral.quantity?_eq
  · left
    intro empty
    dsimp only at empty
    rw [empty] at length
    cases length
  · dsimp only
    rw [joined]
    exact small
  · show Double.ofScientific? (ofDigits _) (0 - _) = _
    dsimp only
    rw [joined, length, Int.zero_sub, ← exponent]
    exact found

/-- A whole number is written with a zero behind the point. -/
theorem quantity?_whole {magnitude : Double}
    (small : 10 * (decimal.digits * 10 ^ decimal.exponent.toNat) < 0x10000000000000000)
    (above : 0 ≤ decimal.exponent)
    (near : data.positional ((digitsOf decimal.digits).length - 1 + decimal.exponent) = true)
    (found : Double.ofScientific? (10 * (decimal.digits * 10 ^ decimal.exponent.toNat)) (-1) =
      some magnitude) :
    (data.numeral negative decimal).quantity? = some (.fraction negative magnitude) := by
  obtain ⟨shifted, shiftedEq⟩ : ∃ shifted, shifted =
      digitsOf decimal.digits ++ List.replicate decimal.exponent.toNat Digit.zero := ⟨_, rfl⟩
  have long : 1 ≤ shifted.length := by
    have length := digitsOf_length_pos decimal.digits
    rw [shiftedEq, List.length_append]
    omega
  have laid : data.numeral negative decimal =
      { negative, whole := shifted, fraction := [.zero] } := by
    have none : (-decimal.exponent).toNat = 0 := by omega
    have padding : 0 + 1 - shifted.length = 0 := by omega
    unfold numeral
    dsimp only
    rw [near, if_pos rfl, none, ← shiftedEq, padding, List.replicate_zero, List.nil_append,
      Nat.sub_zero, List.take_length, List.drop_length]
    rfl
  have joined : ofDigits (shifted ++ [.zero]) =
      10 * (decimal.digits * 10 ^ decimal.exponent.toNat) := by
    rw [ofDigits_append_singleton, shiftedEq, ofDigits_append_zeros, ofDigits_digitsOf]
    rfl
  rw [laid]
  apply Numeral.quantity?_eq (.inl (List.cons_ne_nil _ _))
  · dsimp only
    rw [joined]
    exact small
  · show Double.ofScientific? (ofDigits _) (0 - _) = _
    dsimp only
    rw [joined]
    exact found

end Layout

end QueryForest.Number
