import QueryForest.Proofs.Grouping
import QueryForest.Proofs.Syntax.Printed

/-!
# Phrases read back

The words between quotes are told apart by blanks, and the slots between braces
are numbered from one: a slot is either a question mark, which no word is written
as, or the alternatives at its position.
-/

namespace QueryForest

open Number (Single)
open QueryReader (Passes passes_escapeWord split split_intercalate wordText)
open Text (isSpecial)

def groupedTerms (terms : List Term) : List (UInt32 × List Term) :=
  groupByPosition (terms.map fun term => (term.position, term))

def slotText (terms : List Term) : List Char :=
  ['|'].intercalate (terms.map fun term => wordText term.text)

/-- The slots of groups behind a number of slots. -/
def slotTexts (passed : Nat) : List (UInt32 × List Term) → List (List Char)
  | [] => []
  | (position, terms) :: tail =>
      List.replicate (position.toNat - (passed + 1)) ['?']
        ++ slotText terms :: slotTexts position.toNat tail

theorem slotTexts_ne_nil (passed : Nat) {groups : List (UInt32 × List Term)}
    (some : groups ≠ []) : slotTexts passed groups ≠ [] := by
  cases groups with
  | nil => exact absurd rfl some
  | cons group tail => exact List.append_ne_nil_of_right_ne_nil _ (List.cons_ne_nil _ _)

section Written

variable {style : QueryStyle} (standard : style.escaper = .standard)

include standard

theorem toList_alternatives (terms : List Term) :
    (style.alternatives (terms.map Term.text)).toList = slotText terms := by
  rw [QueryStyle.alternatives, standard, String.toList_intercalate, List.map_map, List.map_map]
  unfold slotText
  congr 1
  exact List.map_congr_left fun term _ => QueryStyle.toList_escape term.text

theorem toList_slotsFrom (passed : Nat) (groups : List (UInt32 × List Term)) :
    (style.slotsFrom (passed + 1) (changeItems Term.text groups)).map String.toList =
      slotTexts passed groups := by
  induction groups generalizing passed with
  | nil => rfl
  | cons group tail inductionHypothesis =>
      obtain ⟨position, terms⟩ := group
      change (style.slotsFrom (passed + 1)
        ((position, terms.map Term.text) :: changeItems Term.text tail)).map String.toList = _
      rw [QueryStyle.slotsFrom, List.map_append, List.map_replicate, List.map_cons,
        toList_alternatives standard, inductionHypothesis]
      rfl

/-- A phrase is its slots between braces, in the field of its first term. -/
theorem multiPhrase_eq_inFieldOf {terms : List Term} {first : Term}
    (head : terms.head? = some first) :
    style.multiPhrase terms = style.inFieldOf first (String.ofList ('\x7b' ::
      ([' '].intercalate (slotTexts 0 (groupedTerms terms)) ++ ['\x7d']))) := by
  have groups : groupByPosition (terms.map fun term => (term.position, term.text)) =
      changeItems Term.text (groupedTerms terms) := by
    rw [groupedTerms, ← groupByPosition_map, List.map_map]
    rfl
  have body : "\x7b" ++ String.intercalate " "
        (style.slots (changeItems Term.text (groupedTerms terms))) ++ "\x7d" =
      String.ofList ('\x7b' ::
        ([' '].intercalate (slotTexts 0 (groupedTerms terms)) ++ ['\x7d'])) := by
    refine String.toList_inj.mp ?_
    rw [String.toList_append, String.toList_append, String.toList_intercalate,
      QueryStyle.slots, toList_slotsFrom standard]
    exact String.toList_ofList.symm
  rw [QueryStyle.multiPhrase, groups, body]
  cases terms with
  | nil => cases head
  | cons term tail =>
      cases head
      rfl

end Written

theorem Branch.chars_multiPhrase {id : NodeId} {enclosing : Option Kind}
    {children : List Branch} {first : Term} (head : (terms children).head? = some first) :
    (node id (.composite .multiPhrase) enclosing children).chars =
      fieldText first.shownField ('\x7b' ::
        ([' '].intercalate (slotTexts 0 (groupedTerms (terms children))) ++ ['\x7d'])) := by
  show (QueryStyle.standard.multiPhrase (terms children)).toList = _
  rw [multiPhrase_eq_inFieldOf rfl head, QueryStyle.toList_inFieldOf, String.toList_ofList]

variable {stops : Char → Bool}

/-- What is joined by a text goes by when the text and its parts do. -/
theorem passes_intercalate {separator : List Char} (between : Passes stops separator)
    {parts : List (List Char)} (each : ∀ part ∈ parts, Passes stops part) :
    Passes stops (separator.intercalate parts) := by
  induction parts with
  | nil => exact .nil
  | cons head tail inductionHypothesis =>
      obtain ⟨ofHead, ofTail⟩ := List.forall_mem_cons.mp each
      cases tail with
      | nil => rwa [List.intercalate_singleton]
      | cons second others =>
          rw [List.intercalate_cons_cons]
          exact (ofHead.append between).append (inductionHypothesis ofTail)

theorem passes_single {character : Char} (unprotected : character ≠ '\\')
    (goes : stops character = false) : Passes stops [character] :=
  .plain unprotected goes .nil

theorem passes_slotText (within : ∀ character, stops character = true → isSpecial character = true)
    (goes : stops '|' = false) (terms : List Term) : Passes stops (slotText terms) := by
  refine passes_intercalate (passes_single (by decide) goes) ?_
  exact List.forall_mem_map.mpr fun term _ => passes_escapeWord within term.text.toList

theorem passes_slotTexts (within : ∀ character, stops character = true → isSpecial character = true)
    (bar : stops '|' = false) (mark : stops '?' = false) (passed : Nat)
    (groups : List (UInt32 × List Term)) :
    ∀ slot ∈ slotTexts passed groups, Passes stops slot := by
  induction groups generalizing passed with
  | nil => exact fun _ absurdity => nomatch absurdity
  | cons group tail inductionHypothesis =>
      obtain ⟨position, terms⟩ := group
      refine List.forall_mem_append.mpr ⟨?_, List.forall_mem_cons.mpr
        ⟨passes_slotText within bar terms, inductionHypothesis position.toNat⟩⟩
      intro slot member
      rw [List.eq_of_mem_replicate member]
      exact passes_single (by decide) mark

theorem wordText_ne_mark (text : String) : wordText text ≠ ['?'] := by
  intro same
  have passes : Passes isSpecial (wordText text) :=
    passes_escapeWord (fun _ => id) text.toList
  rw [same] at passes
  cases passes with
  | plain _ goes _ => exact absurd goes (by decide)

theorem split_slotText {terms : List Term} (some : terms ≠ []) :
    split '|' (slotText terms) = terms.map fun term => wordText term.text := by
  refine split_intercalate (by decide) (by simpa using some) ?_
  refine List.forall_mem_map.mpr fun term _ => passes_escapeWord ?_ term.text.toList
  intro character same
  rw [decide_eq_true_eq.mp same]
  decide

theorem slotText_ne_mark {terms : List Term} (some : terms ≠ []) : slotText terms ≠ ['?'] := by
  intro same
  have words := split_slotText some
  rw [same] at words
  cases terms with
  | nil => exact some rfl
  | cons head tail =>
      have first : ['?'] = wordText head.text := (List.cons.inj words).1
      exact wordText_ne_mark head.text first.symm

/-- The steps of a phrase are its groups, with the terms in definite fields. -/
theorem Standard.phraseSteps_eq_map (options : CompileOptions) (terms : List Term) :
    phraseSteps options terms = (groupedTerms terms).map fun group =>
      ⟨group.1, group.2.map (fieldTerm options)⟩ := by
  have gathered : groupByPosition
      (terms.map fun term => (term.position, fieldTerm options term)) =
      changeItems (fieldTerm options) (groupedTerms terms) := by
    rw [groupedTerms, ← groupByPosition_map, List.map_map]
    rfl
  rw [phraseSteps, gathered, changeItems, List.map_map]
  rfl

theorem split_slotTexts {groups : List (UInt32 × List Term)} (some : groups ≠ []) :
    split ' ' ([' '].intercalate (slotTexts 0 groups)) = slotTexts 0 groups := by
  refine split_intercalate (by decide) (slotTexts_ne_nil 0 some)
    (passes_slotTexts ?_ rfl rfl 0 groups)
  intro character blank
  rw [decide_eq_true_eq.mp blank]
  decide

/-- The groups of a phrase count from one if its terms do. -/
theorem position_groupedTerms {terms : List Term}
    (positive : ∀ term ∈ terms, term.position ≠ 0) :
    ∀ group ∈ groupedTerms terms, 0 < group.1.toNat := by
  have gathered : ∀ group ∈ groupedTerms terms,
      IsGathered (fun position (_ : Term) => position ≠ 0) group :=
    isGathered_groupByPosition (List.forall_mem_map.mpr positive)
  intro group member
  obtain ⟨filled, holds⟩ := gathered group member
  obtain ⟨term, inside⟩ := List.exists_mem_of_ne_nil group.2 filled
  exact UInt32.pos_iff_ne_zero.mpr (holds term inside)

theorem groupedTerms_ne_nil {terms : List Term} (some : terms ≠ []) : groupedTerms terms ≠ [] :=
  groupByPosition_ne_nil (by simpa using some)

def slotStep? (options : CompileOptions) (field : Option String) (slot : List Char × Nat) :
    Option PhraseStep :=
  if slot.1 = ['?'] then
    none
  else
    some ⟨UInt32.ofNat (slot.2 + 1), (split '|' slot.1).map fun single =>
      QueryReader.termIn options field none (String.ofList (Text.unescape single))⟩

variable {options : CompileOptions}

/-- The term that is read in the field of a term. -/
theorem termIn_eq {term : Term} {field around : Option String}
    (same : namedField term.field = field.or around) :
    QueryReader.termIn options field around term.text = Standard.fieldTerm options term := by
  have resolved : options.resolve (namedField term.field) = options.resolve term.field := by
    cases term.field with
    | none => rfl
    | some name =>
        unfold namedField
        by_cases plain : name = plainField
        · simp [plain, CompileOptions.resolve]
        · simp [plain]
  rw [QueryReader.termIn, ← same, resolved]
  rfl

theorem slotStep?_slotText {field : Option String} {group : UInt32 × List Term}
    {passed : Nat} (numbered : passed + 1 = group.1.toNat)
    (gathered : IsGathered (fun _ term => namedField term.field = field) group) :
    slotStep? options field (slotText group.2, passed) =
      some ⟨group.1, group.2.map (Standard.fieldTerm options)⟩ := by
  unfold slotStep?
  rw [if_neg (slotText_ne_mark gathered.1), split_slotText gathered.1, List.map_map, numbered,
    UInt32.ofNat_toNat]
  congr 2
  refine List.map_congr_left fun term member => ?_
  show QueryReader.termIn _ _ _ (String.ofList (Text.unescape (Text.escapeWord _))) = _
  rw [Text.unescape_escapeWord, String.ofList_toList]
  exact termIn_eq ((gathered.2 term member).trans Option.or_none.symm)

theorem filterMap_slotTexts {field : Option String} (passed : Nat)
    {groups : List (UInt32 × List Term)}
    (ascending : (groups.map Prod.fst).Pairwise (· < ·))
    (above : ∀ group ∈ groups, passed < group.1.toNat)
    (gathered : ∀ group ∈ groups, IsGathered (fun _ term => namedField term.field = field) group) :
    ((slotTexts passed groups).zipIdx passed).filterMap (slotStep? options field) =
      groups.map fun group => ⟨group.1, group.2.map (Standard.fieldTerm options)⟩ := by
  induction groups generalizing passed with
  | nil => rfl
  | cons group tail inductionHypothesis =>
      obtain ⟨first, _⟩ := List.forall_mem_cons.mp above
      obtain ⟨ofHead, ofTail⟩ := List.forall_mem_cons.mp gathered
      obtain ⟨later, ordered⟩ := ascending_tail ascending
      have marks : ((List.replicate (group.1.toNat - (passed + 1)) ['?']).zipIdx passed).filterMap
          (slotStep? options field) = [] := by
        refine List.filterMap_eq_nil_iff.mpr fun slot member => ?_
        exact if_pos (List.eq_of_mem_replicate (List.fst_mem_of_mem_zipIdx member))
      have reached : passed + (List.replicate (group.1.toNat - (passed + 1)) ['?']).length + 1 =
          group.1.toNat := by
        rw [List.length_replicate]
        omega
      have others := inductionHypothesis group.1.toNat ordered later ofTail
      rw [slotTexts, List.zipIdx_append, List.filterMap_append, marks, List.nil_append,
        List.zipIdx_cons, List.filterMap_cons_some (slotStep?_slotText reached ofHead), reached,
        others, List.map_cons]

/-- The slots between braces are read as the steps of the phrase. -/
theorem bracedMeaning_eq {field : Option String} {terms : List Term}
    (some : terms ≠ []) (positive : ∀ term ∈ terms, term.position ≠ 0)
    (same : ∀ term ∈ terms, namedField term.field = field) (around : Option String) :
    QueryReader.bracedMeaning options field
        ([' '].intercalate (slotTexts 0 (groupedTerms terms))) around =
      .multiPhrase (Standard.phraseSteps options terms) 0 := by
  have gathered : ∀ group ∈ groupedTerms terms,
      IsGathered (fun _ term => namedField term.field = field) group :=
    isGathered_groupByPosition (List.forall_mem_map.mpr same)
  have read : ((slotTexts 0 (groupedTerms terms)).zipIdx 0).filterMap (slotStep? options field) =
      (groupedTerms terms).map fun group =>
        ⟨group.1, group.2.map (Standard.fieldTerm options)⟩ :=
    filterMap_slotTexts 0 (ascending_groupByPosition _) (position_groupedTerms positive) gathered
  rw [QueryReader.bracedMeaning, split_slotTexts (groupedTerms_ne_nil some),
    Standard.phraseSteps_eq_map]
  exact congrArg (Query.multiPhrase · 0) read

theorem quotedMeaning_eq_term {text : List Char} (whole : ' ' ∉ text)
    (field around : Option String) :
    QueryReader.quotedMeaning options field text around =
      .term (QueryReader.termIn options field around (String.ofList text)) := by
  have alone := List.splitOn_intercalate ' ' (List.forall_mem_singleton.mpr whole)
    (List.cons_ne_nil text [])
  rw [List.intercalate_singleton] at alone
  rw [QueryReader.quotedMeaning, alone]

/-- Words joined by blanks are read as a phrase with one term at a position. -/
theorem quotedMeaning_eq_phrase {field : Option String} {terms : List Term}
    (several : 2 ≤ terms.length) (whole : ∀ term ∈ terms, ' ' ∉ term.text.toList)
    (numbered : terms.map Term.position =
      (List.range terms.length).map fun index => UInt32.ofNat (index + 1))
    (same : ∀ term ∈ terms, namedField term.field = field) (around : Option String) :
    QueryReader.quotedMeaning options field
        ([' '].intercalate (terms.map fun term => term.text.toList)) around =
      .phrase (terms.map fun term => (Standard.fieldTerm options term, term.position)) 0 := by
  have parts : ([' '].intercalate (terms.map fun term => term.text.toList)).splitOn ' ' =
      terms.map fun term => term.text.toList := by
    refine List.splitOn_intercalate ' ' (List.forall_mem_map.mpr whole) ?_
    rintro none
    rw [List.map_eq_nil_iff.mp none] at several
    exact absurd several (by decide)
  have read : (terms.map fun term => term.text.toList).mapIdx (fun index single =>
        (QueryReader.termIn options field none (String.ofList single),
          UInt32.ofNat (index + 1))) =
      terms.map fun term => (Standard.fieldTerm options term, term.position) := by
    refine List.ext_getElem (by simp) fun index inside _ => ?_
    have bound : index < terms.length := by simpa using inside
    have position : terms[index].position = UInt32.ofNat (index + 1) := by
      simpa [bound] using congrArg (fun row : List UInt32 => row[index]?) numbered
    have placed := same terms[index] (List.getElem_mem bound)
    simp only [List.getElem_mapIdx, List.getElem_map, String.ofList_toList, position]
    rw [termIn_eq (placed.trans Option.or_none.symm)]
  rw [QueryReader.quotedMeaning, parts]
  match terms, several, read with
  | _ :: _ :: _, _, read => exact congrArg (Query.phrase · 0) read

end QueryForest
