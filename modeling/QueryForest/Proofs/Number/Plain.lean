import QueryForest.Proofs.Number.Reading
import QueryForest.Proofs.Number.Shortest

/-!
# Numbers in plain text

The digits of a finite 32-bit number in plain text stand for its shortest
decimal, which is rounded to the number again.  So the text of a number that is
not a NaN tells the number.
-/

namespace QueryForest.Number

namespace Single

/-- The pattern of a number is made of its sign and its two fields. -/
theorem toNat_bits (single : Single) :
    single.bits.toNat = (if single.isNegative then 0x80000000 else 0) +
      (single.exponentField * 0x800000 + single.fractionField) := by
  have small := single.bits.toNat_lt
  unfold isNegative exponentField fractionField
  by_cases negative : 0x80000000 ≤ single.bits.toNat
  · rw [if_pos (by simpa using negative)]
    omega
  · rw [if_neg (by simpa using negative)]
    omega

/-- A number is found by its sign and the pattern below the sign. -/
theorem withSign_fields (single : Single) :
    withSign single.isNegative (single.exponentField * 0x800000 + single.fractionField) =
      single := by
  have whole := single.toNat_bits
  have small := single.bits.toNat_lt
  have pattern : (if single.isNegative then
      0x80000000 + (single.exponentField * 0x800000 + single.fractionField)
      else single.exponentField * 0x800000 + single.fractionField) = single.bits.toNat := by
    rw [whole]
    split <;> omega
  rw [withSign, pattern, UInt32.ofNat_toNat]

/-- A number is found by its sign and its magnitude. -/
theorem ofUnits_units (single : Single) : ofUnits single.isNegative single.units = single := by
  have fraction : single.fractionField < 0x800000 := Nat.mod_lt _ (by decide)
  have counted : (single.units.log2 - 23) * 0x800000 +
      (single.units >>> (single.units.log2 - 23)) =
        single.exponentField * 0x800000 + single.fractionField := by
    unfold units
    by_cases least : single.exponentField = 0
    · rw [if_pos least, least]
      have low : single.fractionField.log2 - 23 = 0 := by
        by_cases zero : single.fractionField = 0
        · rw [zero]
          rfl
        · have short := (Nat.log2_lt zero).mpr (show single.fractionField < 2 ^ 23 from fraction)
          omega
      rw [low, Nat.shiftRight_zero]
    · obtain ⟨scale, exponent⟩ : ∃ scale, single.exponentField = scale + 1 :=
        Nat.exists_eq_succ_of_ne_zero least
      rw [if_neg least, exponent, Nat.add_sub_cancel]
      have length : ((0x800000 + single.fractionField) <<< scale).log2 = 23 + scale := by
        rw [Nat.shiftLeft_eq, Nat.log2_eq_iff (by positivity), Nat.pow_succ, Nat.pow_add,
          Nat.mul_right_comm]
        exact ⟨Nat.mul_le_mul_right _ (Nat.le_add_right _ _),
          Nat.mul_lt_mul_of_pos_right (by omega) (by positivity)⟩
      rw [length, Nat.add_sub_cancel_left, Nat.shiftLeft_shiftRight]
      omega
  rw [ofUnits, counted, withSign_fields]

/-- The magnitude of a finite number is one of the format. -/
theorem units_le_largest {single : Single} (finite : single.isFinite = true) :
    single.units ≤ BinaryFormat.single.largest := by
  have fraction : single.fractionField < 2 ^ 23 := Nat.mod_lt _ (by decide)
  have field : single.exponentField < 256 := Nat.mod_lt _ (by decide)
  have other : single.exponentField ≠ 255 := by
    simpa [isFinite] using finite
  rw [BinaryFormat.largest_eq]
  show single.units ≤ (2 ^ 24 - 1) * 2 ^ 253
  unfold units
  split
  · exact (Nat.le_of_lt_succ (Nat.lt_of_lt_of_le fraction (by decide))).trans
      (Nat.le_mul_of_pos_right _ (by positivity))
  · have significand : 0x800000 + single.fractionField ≤ 2 ^ 24 - 1 := by omega
    have scale : 2 ^ (single.exponentField - 1) ≤ 2 ^ 253 :=
      Nat.pow_le_pow_right Nat.two_pos (by omega)
    rw [Nat.shiftLeft_eq]
    exact Nat.mul_le_mul significand scale

/-- A finite magnitude has few bits. -/
theorem exists_parts_units (single : Single) :
    ∃ significand scale, BinaryFormat.single.Parts single.units significand scale := by
  have fraction : single.fractionField < 2 ^ 23 := Nat.mod_lt _ (by decide)
  unfold units
  by_cases least : single.exponentField = 0
  · rw [if_pos least]
    have few : single.fractionField < 2 ^ BinaryFormat.single.precision :=
      fraction.trans (by decide)
    have parts := BinaryFormat.exists_parts (by decide) few 0
    rwa [Nat.pow_zero, Nat.mul_one] at parts
  · rw [if_neg least, Nat.shiftLeft_eq]
    apply BinaryFormat.exists_parts (by decide)
    show 2 ^ 23 + single.fractionField < 2 ^ 24
    omega

theorem round_of_surrounds {single : Single} (finite : single.isFinite = true)
    {numerator denominator : Nat} (positive : 0 < denominator)
    (around : BinaryFormat.single.Surrounds single.units
      ((numerator : ℚ) * BinaryFormat.single.one / denominator)) :
    BinaryFormat.single.round numerator denominator = some single.units := by
  obtain ⟨significand, scale, parts⟩ := single.exists_parts_units
  exact BinaryFormat.round_eq_of_surrounds (by decide) positive parts
    (units_le_largest finite) around

/-- The shortest decimal of a finite number is rounded to it. -/
theorem round_shortest {tie : Tie} {single : Single} (finite : single.isFinite = true)
    {decimal : Decimal} (shortest : BinaryFormat.single.shortest tie single.units = decimal) :
    BinaryFormat.single.round (decimal.digits * 10 ^ decimal.exponent.toNat)
      (powerOfTen (-decimal.exponent).toNat) = some single.units := by
  by_cases zero : single.units = 0
  · rw [zero, BinaryFormat.shortest, if_pos rfl] at shortest
    rw [zero, ← shortest]
    decide
  · obtain ⟨significand, scale, parts⟩ := single.exists_parts_units
    have shortens := BinaryFormat.shortens_shortest (units_le_largest finite)
      (Nat.pos_of_ne_zero zero) parts tie
    rw [shortest] at shortens
    have scalePositive : (0 : ℚ) < powerOfTen (-decimal.exponent).toNat := by
      exact_mod_cast BinaryFormat.grid_scale_pos BinaryFormat.single decimal.exponent
    have same : ((decimal.digits * 10 ^ decimal.exponent.toNat : Nat) : ℚ) *
        BinaryFormat.single.one / powerOfTen (-decimal.exponent).toNat =
          decimal.digits * BinaryFormat.single.spacing decimal.exponent := by
      have grid := BinaryFormat.single.spacing_mul_scale decimal.exponent
      rw [show ((BinaryFormat.single.grid decimal.exponent).spacing : ℚ) =
        ((BinaryFormat.single.one * 10 ^ decimal.exponent.toNat : Nat) : ℚ) from rfl,
        show ((BinaryFormat.single.grid decimal.exponent).scale : ℚ) =
        (powerOfTen (-decimal.exponent).toNat : ℚ) from rfl] at grid
      rw [div_eq_iff scalePositive.ne', mul_assoc, grid]
      push_cast
      ring
    apply round_of_surrounds finite (by exact_mod_cast scalePositive)
    rw [same]
    exact shortens.around

end Single

/-- In plain text the digits stand for the decimal at the places behind the
point. -/
theorem Layout.plain_numeral (negative : Bool) (decimal : Decimal) :
    (plain.numeral negative decimal).negative = negative ∧
      (plain.numeral negative decimal).exponent = none ∧
      (plain.numeral negative decimal).fraction.length = (-decimal.exponent).toNat ∧
      ofDigits ((plain.numeral negative decimal).whole ++
        (plain.numeral negative decimal).fraction) =
          decimal.digits * 10 ^ decimal.exponent.toNat := by
  obtain ⟨places, placesEq⟩ : ∃ places, places = (-decimal.exponent).toNat := ⟨_, rfl⟩
  obtain ⟨shifted, shiftedEq⟩ : ∃ shifted, shifted =
      digitsOf decimal.digits ++ List.replicate decimal.exponent.toNat Digit.zero := ⟨_, rfl⟩
  obtain ⟨padded, paddedEq⟩ : ∃ padded, padded =
      List.replicate (places + 1 - shifted.length) Digit.zero ++ shifted := ⟨_, rfl⟩
  have long : places ≤ padded.length := by
    rw [paddedEq, List.length_append, List.length_replicate]
    omega
  have laid : Layout.plain.numeral negative decimal =
      { negative
        whole := padded.take (padded.length - places)
        fraction := padded.drop (padded.length - places) } := by
    unfold numeral
    dsimp only
    rw [show Layout.plain.positional _ = true from rfl, if_pos rfl, ← placesEq, ← shiftedEq,
      ← paddedEq, show Layout.plain.leastFraction = 0 from rfl, Nat.zero_sub,
      List.replicate_zero, List.append_nil]
  rw [laid]
  refine ⟨rfl, rfl, ?_, ?_⟩
  · rw [← placesEq, List.length_drop]
    omega
  · rw [List.take_append_drop, paddedEq, ofDigits_zeros_append, shiftedEq, ofDigits_append_zeros,
      ofDigits_digitsOf]

namespace Single

def ofNumeral (negative : Bool) (whole fraction : List Digit) : Single :=
  (BinaryFormat.single.round (ofDigits (whole ++ fraction)) (powerOfTen fraction.length)).elim
    (infinity negative) (ofUnits negative)

/-- A finite number is what its numeral is rounded to. -/
theorem ofNumeral_numeral {single : Single} (finite : single.isFinite = true) :
    ofNumeral single.isNegative (single.numeral .plain).whole (single.numeral .plain).fraction =
      single := by
  obtain ⟨decimal, shortest⟩ :
      ∃ decimal, BinaryFormat.single.shortest Layout.plain.tie single.units = decimal := ⟨_, rfl⟩
  obtain ⟨_, _, length, digits⟩ := Layout.plain_numeral single.isNegative decimal
  have rounded := round_shortest finite shortest
  rw [← length, ← digits] at rounded
  rw [ofNumeral, numeral, shortest, rounded]
  exact single.ofUnits_units

def ofText (text : List Char) : Single :=
  let negative := text.head? = some '-'
  let unsigned := if negative then text.tail else text
  if unsigned = ['i', 'n', 'f'] then
    infinity negative
  else
    ofNumeral negative ((unsigned.takeWhile (· != '.')).filterMap Digit.ofChar?)
      ((unsigned.dropWhile (· != '.')).filterMap Digit.ofChar?)

theorem toChar_ne (digit : Digit) :
    digit.toChar ≠ '-' ∧ digit.toChar ≠ '.' ∧ digit.toChar ≠ 'i' := by
  decide +revert

theorem filterMap_digitText (digits : List Digit) :
    (digitText digits).filterMap Digit.ofChar? = digits := by
  induction digits with
  | nil => rfl
  | cons head tail inductionHypothesis =>
      rw [digitText, List.map_cons, List.filterMap_cons_some (Digit.ofChar?_toChar head)]
      exact congrArg (head :: ·) inductionHypothesis

/-- Digits are taken up to the point. -/
theorem span_digitText (digits : List Digit) {rest : List Char}
    (stops : rest = [] ∨ ∃ tail, rest = '.' :: tail) :
    (digitText digits ++ rest).takeWhile (· != '.') = digitText digits ∧
      (digitText digits ++ rest).dropWhile (· != '.') = rest := by
  induction digits with
  | nil => rcases stops with rfl | ⟨tail, rfl⟩ <;> exact ⟨rfl, rfl⟩
  | cons head tail inductionHypothesis =>
      have other : (head.toChar != '.') = true := by simpa using (toChar_ne head).2.1
      rw [digitText, List.map_cons, List.cons_append,
        List.takeWhile_cons_of_pos (p := (· != '.')) other,
        List.dropWhile_cons_of_pos (p := (· != '.')) other]
      exact ⟨congrArg (head.toChar :: ·) inductionHypothesis.1, inductionHypothesis.2⟩

def unsignedText (whole fraction : List Digit) : List Char :=
  digitText whole ++ if fraction.isEmpty then [] else '.' :: digitText fraction

theorem head?_unsignedText (whole fraction : List Digit) :
    (unsignedText whole fraction).head? ≠ some '-' ∧
      (unsignedText whole fraction).head? ≠ some 'i' := by
  cases whole with
  | nil => cases fraction <;> simp [unsignedText, digitText]
  | cons head tail =>
      have other := toChar_ne head
      simp [unsignedText, digitText, other.1, other.2.2]

/-- A numeral in plain text is read as it is written. -/
theorem ofText_numeral (negative : Bool) (whole fraction : List Digit) :
    ofText ((if negative then ['-'] else []) ++ unsignedText whole fraction) =
      ofNumeral negative whole fraction := by
  have notInfinite : unsignedText whole fraction ≠ ['i', 'n', 'f'] := by
    intro same
    exact (head?_unsignedText whole fraction).2 (by rw [same]; rfl)
  have parts : ofNumeral negative
        (((unsignedText whole fraction).takeWhile (· != '.')).filterMap Digit.ofChar?)
        (((unsignedText whole fraction).dropWhile (· != '.')).filterMap Digit.ofChar?) =
      ofNumeral negative whole fraction := by
    unfold unsignedText
    cases fraction with
    | nil =>
        obtain ⟨taken, left⟩ := span_digitText whole (.inl rfl)
        rw [List.isEmpty_nil, if_pos rfl, taken, left, filterMap_digitText]
        rfl
    | cons head tail =>
        obtain ⟨taken, left⟩ := span_digitText whole
          (.inr ⟨digitText (head :: tail), rfl⟩)
        rw [List.isEmpty_cons, if_neg Bool.false_ne_true, taken, left, filterMap_digitText,
          List.filterMap_cons_none rfl, filterMap_digitText]
  cases negative with
  | true =>
      show (if unsignedText whole fraction = ['i', 'n', 'f'] then _ else _) = _
      rw [if_neg notInfinite]
      exact parts
  | false =>
      have unsigned : ¬ (unsignedText whole fraction).head? = some '-' :=
        (head?_unsignedText whole fraction).1
      rw [if_neg Bool.false_ne_true, List.nil_append]
      unfold ofText
      simp only [unsigned, if_false, notInfinite, decide_false]
      exact parts

theorem toList_text {single : Single} (finite : single.isFinite = true) :
    single.text.toList = (if single.isNegative then ['-'] else []) ++
      unsignedText (single.numeral .plain).whole (single.numeral .plain).fraction := by
  obtain ⟨sign, exponent, _, _⟩ := Layout.plain_numeral single.isNegative
    (BinaryFormat.single.shortest Layout.plain.tie single.units)
  rw [text, if_pos finite, String.toList_ofList, Numeral.text, numeral, sign, exponent,
    unsignedText, List.append_assoc, List.append_assoc, Numeral.exponentText, List.append_nil]

/-- The text of a number that is not a NaN tells the number. -/
theorem ofText_text {single : Single} (number : single.isNaN = false) :
    ofText single.text.toList = single := by
  by_cases finite : single.isFinite = true
  · rw [toList_text finite, ofText_numeral, ofNumeral_numeral finite]
  · have top : single.exponentField = 255 := by
      simpa [isFinite] using finite
    have empty : single.fractionField = 0 := by
      simpa [isNaN, top] using number
    have known := single.withSign_fields
    rw [top, empty] at known
    rw [text, if_neg finite, number, if_neg Bool.false_ne_true]
    cases negative : single.isNegative with
    | true =>
        rw [negative] at known
        rw [if_pos rfl, ← known]
        rfl
    | false =>
        rw [negative] at known
        rw [if_neg Bool.false_ne_true, ← known]
        rfl

end Single

end QueryForest.Number
