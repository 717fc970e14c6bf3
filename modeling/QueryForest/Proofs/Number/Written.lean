import QueryForest.Number.Layout
import QueryForest.Proofs.Json.Lexing

/-!
# Numerals as they are written

The digits of a natural number begin with zero for zero only, and the shortest
decimal of a magnitude that is not zero has a digit that is not zero.  So every
numeral that is laid out for data has the form that the lexer reads.
-/

namespace QueryForest.Number

/-- The digits of a number, the first of them zero for zero only. -/
theorem exists_digitsOf (value : Nat) :
    ∃ head tail, digitsOf value = head :: tail ∧ (head = .zero → value = 0) := by
  induction value using Nat.strongRecOn with
  | ind value inductionHypothesis =>
      by_cases small : value < 10
      · refine ⟨⟨value, small⟩, [], digitsOf_of_lt small, fun zero => ?_⟩
        exact congrArg Fin.val zero
      · have large : 10 ≤ value := Nat.not_lt.mp small
        obtain ⟨head, tail, digits, leads⟩ :=
          inductionHypothesis (value / 10) (by omega)
        refine ⟨head, _, by rw [digitsOf_of_le large, digits]; rfl, fun zero => ?_⟩
        have none := leads zero
        omega

theorem digitsOf_ne_nil (value : Nat) : digitsOf value ≠ [] := by
  obtain ⟨head, tail, digits, _⟩ := exists_digitsOf value
  rw [digits]
  exact List.cons_ne_nil head tail

theorem Numeral.isWritten_ofInt (value : Int) : (Numeral.ofInt value).IsWritten where
  whole := by
    obtain ⟨head, tail, digits, leads⟩ := exists_digitsOf value.natAbs
    refine ⟨head, tail, digits, fun zero => ?_⟩
    have none := leads zero
    have single : digitsOf value.natAbs = [⟨0, by decide⟩] := by
      rw [none]
      exact digitsOf_of_lt (by decide)
    rw [digits] at single
    exact (List.cons.inj single).2
  exponent _ _ none := nomatch none

/-- A decimal that is laid out has a digit that is not zero, or no zeros behind
its only digit. -/
def Decimal.IsPlain (decimal : Decimal) : Prop :=
  decimal.digits = 0 → decimal.exponent ≤ 0

/-- Padding with zeros up to one digit before the point puts a zero there only
if nothing else stands before the point. -/
theorem exists_take_padded (places : Nat) {head : Digit} {tail : List Digit}
    (leads : head = .zero → tail = []) :
    let padded := List.replicate (places + 1 - (head :: tail).length) .zero ++ head :: tail
    ∃ first rest, padded.take (padded.length - places) = first :: rest ∧
      (first = .zero → rest = []) := by
  dsimp only
  by_cases short : (head :: tail).length ≤ places
  · obtain ⟨fill, filled⟩ : ∃ fill, places + 1 - (head :: tail).length = fill + 1 :=
      ⟨places - (head :: tail).length, by omega⟩
    have one : (List.replicate (places + 1 - (head :: tail).length) Digit.zero
        ++ head :: tail).length - places = 1 := by
      rw [List.length_append, List.length_replicate]
      omega
    rw [one, filled]
    exact ⟨.zero, [], rfl, fun _ => rfl⟩
  · obtain ⟨more, longer⟩ : ∃ more, (head :: tail).length - places = more + 1 :=
      ⟨(head :: tail).length - places - 1, by omega⟩
    have none : places + 1 - (head :: tail).length = 0 := by omega
    rw [none, List.replicate_zero, List.nil_append, longer, List.take_succ_cons]
    refine ⟨head, tail.take more, rfl, fun zero => ?_⟩
    rw [leads zero, List.take_nil]

theorem Layout.isWritten_numeral (layout : Layout) (negative : Bool) {decimal : Decimal}
    (plain : decimal.IsPlain) : (layout.numeral negative decimal).IsWritten := by
  obtain ⟨head, tail, digits, leads⟩ := exists_digitsOf decimal.digits
  unfold Layout.numeral
  dsimp only
  split
  · refine ⟨?_, fun _ _ none => nomatch none⟩
    rw [digits, List.cons_append]
    apply exists_take_padded _
    intro zero
    have none := leads zero
    have single : digitsOf decimal.digits = [⟨0, by decide⟩] := by
      rw [none]
      exact digitsOf_of_lt (by decide)
    rw [digits] at single
    rw [(List.cons.inj single).2, Int.toNat_of_nonpos (plain none)]
    rfl
  · refine ⟨⟨head, [], by rw [digits]; rfl, fun _ => rfl⟩, fun negative other present => ?_⟩
    cases present
    exact digitsOf_ne_nil _

namespace BinaryFormat

theorem stepAt_le {format : BinaryFormat} (precise : 1 ≤ format.precision) {units : Nat}
    (positive : 0 < units) : format.stepAt units ≤ units := by
  unfold stepAt
  rw [Nat.one_shiftLeft]
  refine Nat.le_trans (Nat.pow_le_pow_right (by decide) ?_)
    (Nat.log2_self_le (Nat.ne_of_gt positive))
  omega

theorem grid_scale_pos (format : BinaryFormat) (exponent : Int) :
    0 < (format.grid exponent).scale :=
  Nat.pow_pos (by decide)

/-- Zero does not read back to a magnitude that is not zero. -/
theorem readsBack_zero {format : BinaryFormat} (precise : 1 ≤ format.precision)
    {units : Nat} (positive : 0 < units) (exponent : Int) :
    format.readsBack units (format.grid exponent) 0 = false := by
  have scale := format.grid_scale_pos exponent
  have below := stepAt_le precise positive
  have further : format.stepAt (units - 1) ≤ units := by
    by_cases one : units = 1
    · subst one
      have least : 0 + 1 - format.precision = 0 := by omega
      simp [stepAt, Nat.log2, least]
    · exact Nat.le_trans (stepAt_le precise (by omega)) (Nat.sub_le ..)
  have stepBelow : (if units / format.stepAt units = 1 <<< (format.precision - 1) then
      format.stepAt (units - 1) else format.stepAt units) ≤ units := by
    split
    · exact further
    · exact below
  have lowest := Nat.mul_pos (by omega : 0 < 4 * units - 2 * (if units /
      format.stepAt units = 1 <<< (format.precision - 1) then format.stepAt (units - 1)
      else format.stepAt units)) scale
  unfold readsBack
  simp only [Nat.mul_zero, Nat.zero_mul]
  split <;> simp only [Bool.and_eq_false_iff, decide_eq_false_iff_not] <;>
    exact .inl (by omega)

theorem nearestOnGrid?_pos {format : BinaryFormat} (precise : 1 ≤ format.precision)
    {tie : Tie} {units point : Nat} (positive : 0 < units) {exponent : Int}
    (found : format.nearestOnGrid? tie units (format.grid exponent) = some point) :
    0 < point := by
  have zero := readsBack_zero precise positive exponent
  have nonzero : ∀ other, format.readsBack units (format.grid exponent) other = true →
      0 < other := by
    intro other reads
    apply Nat.pos_of_ne_zero
    intro none
    rw [none, zero] at reads
    cases reads
  unfold nearestOnGrid? at found
  dsimp only at found
  split at found
  · next belowReads _ =>
      have either : ∀ (nearer : Bool) (below : Nat),
          format.readsBack units (format.grid exponent) below = true →
            0 < if nearer then below else below + 1 := by
        intro nearer below reads
        cases nearer with
        | true => exact nonzero below reads
        | false => exact Nat.succ_pos below
      cases found
      exact either _ _ belowReads
  · next belowReads _ =>
      cases found
      exact nonzero _ belowReads
  · cases found
    exact Nat.succ_pos _
  · cases found

/-- The leading digit of a magnitude from one on stands for a power of ten
within it. -/
theorem powerOfTen_le_of_leadingExponent {format : BinaryFormat} {units : Nat}
    {exponent : Int} (leads : exponent ≤ format.leadingExponent units)
    (whole : 0 < exponent) :
    format.one * powerOfTen exponent.toNat ≤ units := by
  have one : 0 < format.one := by
    unfold one
    rw [Nat.one_shiftLeft]
    exact Nat.pow_pos (by decide)
  have fraction : 0 < powerOfTen format.fractionBits := Nat.pow_pos (by decide)
  unfold leadingExponent at leads
  dsimp only at leads
  have lifted : powerOfTen (exponent.toNat + format.fractionBits) ≤
      units * powerOfTen format.fractionBits / format.one := by
    have few : ¬ (Nat.toDigits 10
        (units * powerOfTen format.fractionBits / format.one)).length ≤
          exponent.toNat + format.fractionBits := by omega
    rw [Nat.length_toDigits_le_iff (by decide) (by omega)] at few
    exact Nat.not_lt.mp few
  have scaled := (Nat.le_div_iff_mul_le one).mp lifted
  have split : powerOfTen (exponent.toNat + format.fractionBits) =
      powerOfTen exponent.toNat * powerOfTen format.fractionBits := Nat.pow_add ..
  rw [split, Nat.mul_right_comm] at scaled
  rw [Nat.mul_comm]
  exact Nat.le_of_mul_le_mul_right scaled fraction

theorem isPlain_shortestFrom {format : BinaryFormat} (precise : 1 ≤ format.precision)
    (tie : Tie) {units : Nat} (positive : 0 < units) (grids : Nat) {exponent : Int}
    (leads : exponent ≤ format.leadingExponent units) :
    (format.shortestFrom tie units exponent grids).IsPlain := by
  induction grids generalizing exponent with
  | zero =>
      intro none
      rw [shortestFrom] at none
      apply Int.not_lt.mp
      intro whole
      change 0 < exponent at whole
      have within := powerOfTen_le_of_leadingExponent leads whole
      have unscaled : (format.grid exponent).scale = 1 := by
        show powerOfTen (-exponent).toNat = 1
        rw [Int.toNat_of_nonpos (by omega)]
        rfl
      have spacing : 0 < (format.grid exponent).spacing := by
        show 0 < format.one * powerOfTen exponent.toNat
        unfold one
        rw [Nat.one_shiftLeft]
        exact Nat.mul_pos (Nat.pow_pos (by decide)) (Nat.pow_pos (by decide))
      have digits : 0 < units * (format.grid exponent).scale /
          (format.grid exponent).spacing := by
        refine Nat.div_pos ?_ spacing
        rw [unscaled, Nat.mul_one]
        exact within
      exact absurd none (Nat.ne_of_gt digits)
  | succ grids inductionHypothesis =>
      rw [shortestFrom]
      cases found : format.nearestOnGrid? tie units (format.grid exponent) with
      | none => exact inductionHypothesis (by omega)
      | some point =>
          intro none
          exact absurd none (Nat.ne_of_gt (nearestOnGrid?_pos precise positive found))

theorem isPlain_shortest {format : BinaryFormat} (precise : 1 ≤ format.precision)
    (tie : Tie) (units : Nat) : (format.shortest tie units).IsPlain := by
  unfold shortest
  split
  · exact fun _ => Int.le_refl 0
  · next nonzero =>
      have plain := isPlain_shortestFrom precise tie (Nat.pos_of_ne_zero nonzero)
        format.precision (Int.le_refl _)
      unfold Decimal.withoutTrailingZero
      split
      · exact fun none => absurd none Nat.one_ne_zero
      · exact plain

end BinaryFormat

theorem Single.isWritten_numeral (layout : Layout) (single : Single) :
    (single.numeral layout).IsWritten :=
  layout.isWritten_numeral _ (BinaryFormat.isPlain_shortest (by decide) _ _)

end QueryForest.Number
