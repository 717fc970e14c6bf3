import QueryForest.Proofs.View.Rewording

/-!
# Fields that go without saying

No field, the plain field and the default field all stay unwritten.  Terms and kinds
are alike if they differ in nothing else than which of these they have.
-/

namespace QueryForest

/-- The field that has to be written, which is neither the plain nor the default one. -/
def spokenField (defaultField : Option String) : Option String → Option String
  | none => none
  | some field => if field = plainField ∨ defaultField = some field then none else some field

theorem spokenField_eq_none_iff {defaultField : String} {field : Option String} :
    spokenField defaultField field = none ↔
      field ∈ [none, some plainField, some defaultField] := by
  cases field with
  | none => simp [spokenField]
  | some name => simp [spokenField, eq_comm, or_iff_not_imp_left]

theorem spokenField_eq_self {defaultField field : Option String}
    (spoken : spokenField defaultField field ≠ none) : spokenField defaultField field = field := by
  cases field with
  | none => simp [spokenField] at spoken
  | some name =>
      simp only [spokenField] at spoken ⊢
      split <;> simp_all

/-- Two fields are spoken of alike if they are the same or both go without saying. -/
theorem spokenField_eq_iff {defaultField : String} {field other : Option String} :
    spokenField defaultField field = spokenField defaultField other ↔
      field = other ∨ field ∈ [none, some plainField, some defaultField] ∧
        other ∈ [none, some plainField, some defaultField] := by
  rw [← spokenField_eq_none_iff, ← spokenField_eq_none_iff]
  constructor
  · intro same
    by_cases silent : spokenField defaultField field = none
    · exact .inr ⟨silent, same ▸ silent⟩
    · left
      rw [← spokenField_eq_self silent, same, spokenField_eq_self (same ▸ silent)]
  · rintro (rfl | ⟨silent, otherSilent⟩)
    · rfl
    · rw [silent, otherSilent]

@[simp]
theorem spokenField_spokenField (defaultField field : Option String) :
    spokenField defaultField (spokenField defaultField field) =
      spokenField defaultField field := by
  by_cases silent : spokenField defaultField field = none
  · rw [silent, spokenField]
  · rw [spokenField_eq_self silent, spokenField_eq_self silent]

/-- Only the fields that have to be written are kept. -/
def Rewording.spoken (defaultField : Option String) : Rewording where
  field := spokenField defaultField
  text text := text

@[simp]
theorem Rewording.text_spoken (defaultField : Option String) (term : Term) :
    ((spoken defaultField).term term).text = term.text := by
  simp [Rewording.term, spoken]

theorem QueryStyle.writtenField_eq (style : QueryStyle) (field : Option String) :
    style.writtenField field =
      (spokenField style.defaultField field).map style.escaper.escape := by
  cases field with
  | none => simp [writtenField, spokenField]
  | some name =>
      simp only [writtenField, spokenField, Bool.or_eq_true, decide_eq_true_eq]
      split <;> simp

/-- Two terms are the same but for a field that goes without saying. -/
def Term.IsAlike (defaultField : String) (term twin : Term) : Prop :=
  (Rewording.spoken defaultField).term term = (Rewording.spoken defaultField).term twin

def Kind.IsAlike (defaultField : String) (kind twin : Kind) : Prop :=
  kind.reworded (.spoken defaultField) = twin.reworded (.spoken defaultField)

variable {defaultField : String}

namespace Term.IsAlike

variable {term twin : Term}

theorem text (alike : term.IsAlike defaultField twin) : twin.text = term.text := by
  simpa using (congrArg Term.text alike).symm

theorem position (alike : term.IsAlike defaultField twin) : twin.position = term.position := by
  simpa using (congrArg Term.position alike).symm

end Term.IsAlike

namespace Kind.IsAlike

variable {kind twin : Kind}

theorem of_eq (same : twin = kind) : kind.IsAlike defaultField twin := by
  rw [same, IsAlike]

theorem symm (alike : kind.IsAlike defaultField twin) : twin.IsAlike defaultField kind :=
  Eq.symm alike

theorem exists_term (alike : kind.IsAlike defaultField twin) {term : Term}
    (termed : kind.term? = some term) :
    ∃ twinTerm, twin.term? = some twinTerm ∧ term.IsAlike defaultField twinTerm := by
  have terms := congrArg Kind.term? alike
  rw [term?_reworded, term?_reworded, termed, Option.map_some] at terms
  obtain ⟨twinTerm, twinTermed, same⟩ := Option.map_eq_some_iff.mp terms.symm
  exact ⟨twinTerm, twinTermed, same.symm⟩

theorem exists_fuzzy {term : Term} {similarity : Similarity} {exactStart : UInt32}
    (alike : (Kind.leaf (.fuzzy term similarity exactStart)).IsAlike defaultField twin) :
    ∃ twinTerm, twin = .leaf (.fuzzy twinTerm similarity exactStart) ∧
      term.IsAlike defaultField twinTerm := by
  cases twin with
  | leaf bottom =>
      cases bottom <;> simp_all [IsAlike, Term.IsAlike, reworded, Leaf.mapTerm]
  | wrapper _ | composite _ | extension _ => simp [IsAlike, reworded] at alike

theorem eq_wrapper {around : Wrapper}
    (alike : (Kind.wrapper around).IsAlike defaultField twin) : twin = .wrapper around := by
  cases twin <;> simp_all [IsAlike, reworded]

theorem exists_proximity {near : Proximity}
    (alike : (Kind.composite (.proximity near)).IsAlike defaultField twin) :
    ∃ twinNear, twin = .composite (.proximity twinNear) ∧ twinNear.reach = near.reach ∧
      twinNear.inOrder = near.inOrder := by
  cases twin with
  | composite above => cases above <;> simp_all [IsAlike, reworded, Composite.reworded]
  | leaf _ | wrapper _ | extension _ => simp [IsAlike, reworded] at alike

end Kind.IsAlike

end QueryForest
