namespace QueryForest.Number

abbrev Digit := Fin 10

namespace Digit

/-- The digit that an ASCII character shows. -/
def ofChar? (character : Char) : Option Digit :=
  if '0' ≤ character ∧ character ≤ '9' then
    some (Fin.ofNat 10 (character.toNat - '0'.toNat))
  else
    none

def toChar (digit : Digit) : Char :=
  Nat.digitChar digit

def zero : Digit :=
  ⟨0, by decide⟩

@[simp]
theorem ofChar?_toChar (digit : Digit) : ofChar? digit.toChar = some digit := by
  decide +revert

end Digit

/-- The number that a run of digits stands for. -/
def ofDigits (digits : List Digit) : Nat :=
  digits.foldl (fun value digit => 10 * value + digit.val) 0

/-- The digits of a natural number, without leading zeros. -/
def digitsOf (value : Nat) : List Digit :=
  (Nat.toDigits 10 value).filterMap Digit.ofChar?

def powerOfTen (exponent : Nat) : Nat :=
  Nat.pow 10 exponent

def digitText (digits : List Digit) : List Char :=
  digits.map Digit.toChar

/-- The number in a non-empty run of digits, after at most one plus sign, if
it fits 64 bits. -/
def natural? (text : List Char) : Option Nat := do
  let run :=
    match text with
    | '+' :: tail => tail
    | _ => text
  let digits ← run.mapM Digit.ofChar?
  let value := ofDigits digits
  if digits.isEmpty || 0x10000000000000000 ≤ value then none else some value

theorem ofDigits_append_singleton (digits : List Digit) (last : Digit) :
    ofDigits (digits ++ [last]) = 10 * ofDigits digits + last.val := by
  simp [ofDigits, List.foldl_append]

theorem Digit.ofChar?_digitChar {value : Nat} (small : value < 10) :
    Digit.ofChar? (Nat.digitChar value) = some ⟨value, small⟩ :=
  Digit.ofChar?_toChar ⟨value, small⟩

theorem digitsOf_of_lt {value : Nat} (small : value < 10) :
    digitsOf value = [⟨value, small⟩] := by
  rw [digitsOf, Nat.toDigits_of_lt_base small]
  simp [Digit.ofChar?_digitChar small]

theorem digitsOf_of_le {value : Nat} (large : 10 ≤ value) :
    digitsOf value =
      digitsOf (value / 10) ++ [⟨value % 10, Nat.mod_lt value (by decide)⟩] := by
  rw [digitsOf, Nat.toDigits_of_base_le (by decide) large, List.filterMap_append, digitsOf]
  simp [Digit.ofChar?_digitChar (Nat.mod_lt value (by decide : 10 > 0))]

/-- The digits of a number stand for it. -/
@[simp]
theorem ofDigits_digitsOf (value : Nat) : ofDigits (digitsOf value) = value := by
  induction value using Nat.strongRecOn with
  | ind value inductionHypothesis =>
      by_cases small : value < 10
      · rw [digitsOf_of_lt small]
        simp [ofDigits]
      · have large : 10 ≤ value := by omega
        rw [digitsOf_of_le large, ofDigits_append_singleton,
          inductionHypothesis (value / 10) (by omega)]
        simp only
        omega

theorem mapM_ofChar?_digitText (digits : List Digit) :
    (digitText digits).mapM Digit.ofChar? = some digits := by
  induction digits with
  | nil => rfl
  | cons head tail inductionHypothesis =>
      rw [digitText, List.map_cons, List.mapM_cons, Digit.ofChar?_toChar, ← digitText,
        inductionHypothesis]
      rfl

/-- A number is written with its digits. -/
theorem digitText_digitsOf (value : Nat) : digitText (digitsOf value) = Nat.toDigits 10 value := by
  induction value using Nat.strongRecOn with
  | ind value inductionHypothesis =>
      by_cases small : value < 10
      · rw [digitsOf_of_lt small, Nat.toDigits_of_lt_base small]
        rfl
      · have large : 10 ≤ value := Nat.not_lt.mp small
        rw [digitsOf_of_le large, Nat.toDigits_of_base_le (by decide) large, digitText,
          List.map_append, ← digitText, inductionHypothesis (value / 10) (by omega)]
        rfl

theorem Digit.toChar_ne_plus (digit : Digit) : digit.toChar ≠ '+' := by
  decide +revert

/-- A number that fits 64 bits is read back. -/
theorem natural?_toDigits {value : Nat} (small : value < 0x10000000000000000) :
    natural? (Nat.toDigits 10 value) = some value := by
  have written : digitsOf value ≠ [] := fun none =>
    Nat.toDigits_ne_nil ((digitText_digitsOf value).symm.trans (congrArg digitText none))
  obtain ⟨head, tail, digits⟩ := List.exists_cons_of_ne_nil written
  rw [← digitText_digitsOf, digits, natural?, mapM_ofChar?_digitText, ← digits]
  · have fits : ¬ 0x10000000000000000 ≤ value := Nat.not_le.mpr small
    simp [ofDigits_digitsOf, written, fits]
  · exact fun _ same => head.toChar_ne_plus (List.cons.inj same).1

end QueryForest.Number
