import QueryForest.Proofs.Syntax.Fronts

namespace QueryForest

open Number (Single)
open Text (escapeQuotedText isSpecial)

namespace Term

variable {term : Term} {around : Option String}

theorem namedField_of_isPlacedIn (placed : term.IsPlacedIn around) :
    namedField term.field = term.shownField.or around := by
  cases shown : term.shownField with
  | none => exact placed shown
  | some name =>
      unfold shownField at shown
      split at shown
      · exact nomatch shown
      · exact shown

end Term

theorem Similarity.isNaN_value (similarity : Similarity) : similarity.value.isNaN = false := by
  have finite : similarity.value.isFinite = true := by
    have accepted := similarity.accepted
    simp only [Single.isSimilarity, Single.isProportion, Single.isNonNegative, Bool.or_eq_true,
      Bool.and_eq_true] at accepted
    tauto
  have exponent : similarity.value.exponentField ≠ 255 := by simpa [Single.isFinite] using finite
  simp [Single.isNaN, exponent]

namespace QueryReader

variable {options : CompileOptions} {clause : Reading Clause} {count : Nat}
  {chars rest : List Char}

theorem fieldText_append (field : Option String) (chars rest : List Char) :
    fieldText field chars ++ rest = fieldText field (chars ++ rest) := by
  cases field with
  | none => rfl
  | some name => exact List.append_assoc _ _ _

/-- Behind the name of a field, a body is read in this field. -/
theorem atom_field (name : String) :
    atom options clause count (wordText name ++ ':' :: chars) =
      body options clause count (some name) chars := by
  have ends : EndsWord (':' :: chars) := endsWord_cons chars (by decide)
  have unlike (character : Char) (special : isSpecial character = true ∧ character ≠ '\\')
      (other : character ≠ ':') : (wordText name ++ ':' :: chars).head? ≠ some character := by
    intro first
    cases (head?_wordText_append special.1 special.2 first).2
    exact other rfl
  unfold atom
  split
  · next star => exact absurd star (unlike '*' (by decide) (by decide))
  · next opening => exact absurd opening (unlike '(' (by decide) (by decide))
  · rw [word_append name ends]
    rfl

theorem atom_bare (star : chars.head? ≠ some '*') (opening : chars.head? ≠ some '(')
    (bare : (word chars).2.head? ≠ some ':') :
    atom options clause count chars = body options clause count none chars := by
  unfold atom
  split
  · next found => exact absurd found star
  · next found => exact absurd found opening
  · exact if_neg bare

/-- A body in the field of a term, read as a body in this field. -/
theorem atom_fieldText {field : Option String}
    (bare : field = none → chars.head? ≠ some '*' ∧ chars.head? ≠ some '(' ∧
      (word chars).2.head? ≠ some ':') :
    atom options clause count (fieldText field chars) = body options clause count field chars := by
  cases field with
  | none =>
      obtain ⟨star, opening, unnamed⟩ := bare rfl
      exact atom_bare star opening unnamed
  | some name => exact atom_field name

theorem atom_opening (field : Option String) {first : Char} (opens : first ∈ ['"', '\x7b']) :
    atom options clause count (fieldText field (first :: chars)) =
      body options clause count field (first :: chars) := by
  simp only [List.mem_cons, List.not_mem_nil, or_false] at opens
  refine atom_fieldText fun _ => ?_
  rw [word_eq (endsWord_cons chars (by rcases opens with rfl | rfl <;> decide))]
  rcases opens with rfl | rfl <;> simp

theorem body_quotedText (field : Option String) (text : List Char) :
    body options clause count field (quotedText text ++ rest) =
      some (quotedMeaning options field text, rest) := by
  have passes : Passes (· = '"') (escapeQuotedText text) := by
    refine passes_backslash (by decide) (fun character quote => ?_) text
    rw [decide_eq_true_eq.mp quote]
    decide
  have raw : cut (· = '"') (escapeQuotedText text ++ '"' :: rest) =
      (escapeQuotedText text, '"' :: rest) :=
    cut_of_ends passes fun character first => by cases first; decide
  have shape : quotedText text ++ rest = '"' :: (escapeQuotedText text ++ '"' :: rest) := by
    rw [quotedText, List.cons_append, List.append_assoc]
    rfl
  rw [shape]
  unfold body
  rw [List.head?_cons, List.tail_cons, raw]
  show some (quotedMeaning options field (Text.unescape (escapeQuotedText text)), rest) = _
  rw [Text.unescape_escapeQuotedText]

theorem body_braced (field : Option String) {raw : List Char} (passes : Passes (· = '\x7d') raw) :
    body options clause count field ('\x7b' :: (raw ++ '\x7d' :: rest)) =
      some (bracedMeaning options field raw, rest) := by
  have inside : cut (· = '\x7d') (raw ++ '\x7d' :: rest) = (raw, '\x7d' :: rest) :=
    cut_of_ends passes fun character first => by cases first; decide
  unfold body
  rw [List.head?_cons, List.tail_cons, inside]
  rfl

theorem head?_wordText_ne (text : String) (ends : EndsAtom rest) {character : Char}
    (special : isSpecial character = true ∧ character ≠ '\\')
    (other : character ∉ [' ', ')', '^', '~']) :
    (wordText text ++ rest).head? ≠ some character :=
  fun first => other (ends.head? (head?_wordText_append special.1 special.2 first).2)

/-- A word begins no other body. -/
theorem body_wordText (field : Option String) (text : String) (ends : EndsAtom rest) :
    body options clause count field (wordText text ++ rest) =
      if rest.head? = some '~' then
        some (fuzzyMeaning options field text (rest.tail.takeWhile (!endsNumber ·)),
          rest.tail.dropWhile (!endsNumber ·))
      else
        some (fun around => .term (termIn options field around text), rest) := by
  unfold body
  split
  · next quote => exact absurd quote (head?_wordText_ne text ends (by decide) (by decide))
  · next brace => exact absurd brace (head?_wordText_ne text ends (by decide) (by decide))
  · next opening => exact absurd opening (head?_wordText_ne text ends (by decide) (by decide))
  · rw [word_append text ends.endsWord]

theorem atom_wordText (field : Option String) (text : String) (ends : EndsAtom rest) :
    atom options clause count (fieldText field (wordText text) ++ rest) =
      body options clause count field (wordText text ++ rest) := by
  rw [fieldText_append]
  refine atom_fieldText fun _ => ⟨head?_wordText_ne text ends (by decide) (by decide),
    head?_wordText_ne text ends (by decide) (by decide), ?_⟩
  rw [word_append text ends.endsWord]
  exact ends.head?_ne_colon

variable {around : Option String} {id : NodeId} {enclosing : Option Kind}
  {children : List Branch} {term : Term}

/-- The atom at the front of a text is read as what a branch compiles to. -/
def ReadsAtom (options : CompileOptions) (clause : Reading Clause) (count : Nat)
    (around : Option String) (branch : Branch) (rest : List Char) : Prop :=
  ∃ meaning : Meaning,
    atom options clause count (branch.chars ++ rest) = some (meaning, rest) ∧
      meaning around = (Standard.queryOf options branch).collapsed

theorem readsAtom_field (placed : term.IsPlacedIn around) (ends : EndsAtom rest)
    (single : rest.head? ≠ some '~') :
    ReadsAtom options clause count around (.node id (.leaf (.field term)) enclosing children)
      rest := by
  refine ⟨fun around => .term (termIn options term.shownField around term.text), ?_, ?_⟩
  · rw [Branch.chars_field, atom_wordText _ _ ends, body_wordText _ _ ends, if_neg single]
  · exact congrArg Query.term (termIn_eq (Term.namedField_of_isPlacedIn placed))

theorem readsAtom_quotedField (placed : term.IsPlacedIn around)
    (whole : ' ' ∉ term.text.toList) :
    ReadsAtom options clause count around (.node id (.leaf (.quotedField term)) enclosing children)
      rest := by
  refine ⟨quotedMeaning options term.shownField term.text.toList, ?_, ?_⟩
  · rw [Branch.chars_quotedField, fieldText_append]
    exact (atom_opening _ (by decide)).trans (body_quotedText _ _)
  · rw [quotedMeaning_eq_term whole, String.ofList_toList,
      termIn_eq (Term.namedField_of_isPlacedIn placed)]
    rfl

theorem readsAtom_fuzzy {similarity : Similarity} (placed : term.IsPlacedIn around)
    (ends : EndsAtom rest) :
    ReadsAtom options clause count around
      (.node id (.leaf (.fuzzy term similarity 0)) enclosing children) rest := by
  obtain ⟨number, behind⟩ := span_number (endsNumber_text similarity.value) ends.endsNumber
  refine ⟨fuzzyMeaning options term.shownField term.text similarity.value.text.toList, ?_, ?_⟩
  · rw [Branch.chars_fuzzy, List.append_assoc, List.cons_append,
      atom_wordText _ _ (.slopped _), body_wordText _ _ (.slopped _), if_pos (List.head?_cons ..),
      List.tail_cons, number, behind]
  · rw [fuzzyMeaning, Single.ofText_text similarity.isNaN_value,
      termIn_eq (Term.namedField_of_isPlacedIn placed)]
    rfl

theorem readsAtom_matchAll :
    ReadsAtom options clause count around (.node id (.leaf .matchAll) enclosing children) rest := by
  refine ⟨fun _ => .matchAll, ?_, rfl⟩
  have all : behind? "*:*" ('*' :: ':' :: '*' :: rest) = some rest := behind?_append "*:*" rest
  rw [Branch.chars_matchAll]
  show (do return ((fun _ => Query.matchAll), ← behind? "*:*" ('*' :: ':' :: '*' :: rest))) = _
  rw [all]
  rfl

theorem readsAtom_tokenizedPhrase (several : 2 ≤ (Branch.terms children).length)
    (whole : ∀ term ∈ Branch.terms children, ' ' ∉ term.text.toList)
    (numbered : (Branch.terms children).map Term.position =
      (List.range (Branch.terms children).length).map fun index => UInt32.ofNat (index + 1))
    (same : Term.ShareField (Branch.terms children)) :
    ReadsAtom options clause count around
      (.node id (.composite .tokenizedPhrase) enclosing children) rest := by
  obtain ⟨first, head⟩ := Branch.exists_head?_eq_some (List.ne_nil_of_length_pos
    (Nat.lt_of_lt_of_le Nat.two_pos several))
  have placed : ∀ term ∈ Branch.terms children, namedField term.field = first.shownField := by
    rw [Term.ShareField, head] at same
    exact same
  refine ⟨quotedMeaning options first.shownField _, ?_,
    (quotedMeaning_eq_phrase several whole numbered placed around).trans rfl⟩
  rw [Branch.chars_tokenizedPhrase head, fieldText_append]
  exact (atom_opening _ (by decide)).trans (body_quotedText _ _)

theorem readsAtom_multiPhrase (some : Branch.terms children ≠ [])
    (positive : ∀ term ∈ Branch.terms children, term.position ≠ 0)
    (same : Term.ShareField (Branch.terms children)) :
    ReadsAtom options clause count around
      (.node id (.composite .multiPhrase) enclosing children) rest := by
  obtain ⟨first, head⟩ := Branch.exists_head?_eq_some some
  have placed : ∀ term ∈ Branch.terms children, namedField term.field = first.shownField := by
    rw [Term.ShareField, head] at same
    exact same
  have passes : Passes (· = '\x7d')
      ([' '].intercalate (slotTexts 0 (groupedTerms (Branch.terms children)))) := by
    refine passes_intercalate (passes_single (by decide) (by decide))
      (passes_slotTexts (fun character brace => ?_) (by decide) (by decide) 0 _)
    rw [decide_eq_true_eq.mp brace]
    decide
  refine ⟨bracedMeaning options first.shownField _, ?_,
    (bracedMeaning_eq some positive placed around).trans rfl⟩
  rw [Branch.chars_multiPhrase head, fieldText_append, List.cons_append, List.append_assoc]
  exact (atom_opening _ (by decide)).trans (body_braced _ passes)

end QueryReader

end QueryForest
