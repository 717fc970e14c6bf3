import QueryForest.Proofs.Syntax.Fronts

/-!
# Nearness read back

Behind the clauses of a proximity group stands how far apart and in which order
they have to match.  A reach of some words ends where its digits end, and only
the keyword tells that the order matters.
-/

namespace QueryForest

open Branch (nearnessText orderText reachText)

namespace QueryReader

variable {rest : List Char}

theorem wordText_within : wordText "WITHIN" = "WITHIN".toList := by
  decide

theorem wordText_inorder : wordText "INORDER" = "INORDER".toList := by
  decide

/-- Digits do not begin with a letter. -/
theorem head?_toString_ne (value : Nat) {letter : Char} (letters : letter.isDigit = false)
    (rest : List Char) : ((toString value).toList ++ rest).head? ≠ some letter := by
  have written : (toString value).toList = Nat.toDigits 10 value := String.toList_ofList
  rw [written]
  intro first
  cases digits : Nat.toDigits 10 value with
  | nil => exact absurd digits Nat.toDigits_ne_nil
  | cons head tail =>
      rw [digits] at first
      cases first
      have digit := Nat.isDigit_of_mem_toDigits (by decide) (by decide)
        (digits ▸ List.mem_cons_self : letter ∈ Nat.toDigits 10 value)
      exact absurd digit (Bool.eq_false_iff.mp letters)

/-- The reach that is asked for is read. -/
theorem reach?_reachText (reach : Reach) (ends : EndsNumber rest) :
    reach? (reachText reach ++ rest) = some (Standard.nearnessOf reach, rest) := by
  unfold reach?
  cases reach with
  | paragraph =>
      have found : behind? " PARAGRAPH" (reachText .paragraph ++ rest) = some rest :=
        behind?_append _ rest
      rw [found]
      rfl
  | sentence =>
      have other : behind? " PARAGRAPH" (reachText .sentence ++ rest) = none := rfl
      have found : behind? " SENTENCE" (reachText .sentence ++ rest) = some rest :=
        behind?_append _ rest
      rw [other, found]
      rfl
  | words distance =>
      let digits := (toString distance.value.toNat).toList
      have paragraph : behind? "PARAGRAPH" (digits ++ rest) = none :=
        behind?_eq_none rfl (head?_toString_ne _ rfl rest)
      have sentence : behind? "SENTENCE" (digits ++ rest) = none :=
        behind?_eq_none rfl (head?_toString_ne _ rfl rest)
      have noParagraph : behind? " PARAGRAPH" (reachText (.words distance) ++ rest) = none :=
        paragraph
      have noSentence : behind? " SENTENCE" (reachText (.words distance) ++ rest) = none :=
        sentence
      have blank : behind? " " (reachText (.words distance) ++ rest) = some (digits ++ rest) :=
        behind?_append " " (digits ++ rest)
      obtain ⟨number, behind⟩ := span_number (endsNumber_natural distance.value.toNat) ends
      rw [noParagraph, noSentence, blank]
      show some (Nearness.words (UInt32.ofNat (natural ((digits ++ rest).takeWhile _))),
        (digits ++ rest).dropWhile _) = _
      rw [number, behind, natural_toString, UInt32.ofNat_toNat]
      rfl

/-- The order that is asked for is read. -/
theorem order_eq (inOrder : Bool) (ends : EndsAtom rest) :
    (behind? " " (orderText inOrder ++ rest) >>= keyword? "INORDER") =
      if inOrder then some rest else none := by
  cases inOrder with
  | true =>
      have blank : behind? " " (orderText true ++ rest) = some (wordText "INORDER" ++ rest) := by
        rw [wordText_inorder]
        exact behind?_append " " ("INORDER".toList ++ rest)
      rw [blank, Option.bind_eq_bind, Option.bind_some, keyword?, word_append _ ends.endsWord]
      exact if_pos ⟨rfl, ends.head?_ne_colon⟩
  | false =>
      show (behind? " " rest >>= keyword? "INORDER") = none
      cases ends with
      | clause ends =>
          cases ends with
          | nil | closed _ => rfl
          | @blank rest _ ordered =>
              have blank : behind? " " (' ' :: rest) = some rest := behind?_append " " rest
              rw [blank]
              exact ordered
      | boosted _ | slopped _ => rfl

/-- The nearness that a proximity node asks for is read. -/
theorem nearness?_nearnessText (near : Proximity) (ends : EndsAtom rest) :
    nearness? (nearnessText near ++ rest) =
      some ((Standard.nearnessOf near.reach, near.inOrder), rest) := by
  have later : EndsNumber (orderText near.inOrder ++ rest) := by
    cases near.inOrder with
    | true => exact fun character first => by cases first; decide
    | false => exact ends.endsNumber
  have shape : nearnessText near ++ rest =
      ' ' :: (wordText "WITHIN" ++ (reachText near.reach ++ (orderText near.inOrder ++ rest))) := by
    rw [wordText_within, nearnessText, List.cons_append, List.append_assoc, List.append_assoc]
  have reached : ∃ more, reachText near.reach = ' ' :: more := by
    cases near.reach <;> exact ⟨_, rfl⟩
  obtain ⟨more, reachShape⟩ := reached
  have blank : behind? " " (nearnessText near ++ rest) =
      some (wordText "WITHIN" ++ (reachText near.reach ++ (orderText near.inOrder ++ rest))) := by
    rw [shape]
    exact behind?_append " " _
  have within : keyword? "WITHIN"
      (wordText "WITHIN" ++ (reachText near.reach ++ (orderText near.inOrder ++ rest))) =
      some (reachText near.reach ++ (orderText near.inOrder ++ rest)) := by
    rw [keyword?, word_append _ (by rw [reachShape]; exact endsWord_cons _ (by decide))]
    exact if_pos ⟨rfl, by rw [reachShape]; simp⟩
  rw [nearness?, blank]
  show (keyword? "WITHIN" _ >>= _) = _
  rw [within]
  show (reach? _ >>= _) = _
  rw [reach?_reachText _ later]
  have order := order_eq near.inOrder ends
  rw [Option.bind_eq_bind] at order
  simp only [Option.bind_eq_bind, Option.bind_some, order]
  cases near.inOrder <;> rfl

end QueryReader

end QueryForest
