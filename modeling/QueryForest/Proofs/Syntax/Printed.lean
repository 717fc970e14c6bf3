import QueryForest.Proofs.Syntax.Legible

/-!
# Branches as characters

The text of a branch is a string put together from strings.  Here it is a list of
characters, with one equation for each kind of node: fields and words stand in
front, and what follows can be read off the end.
-/

namespace QueryForest

open QueryReader (wordText)
open Text (escapeQuotedText)

/-- The syntax with the standard escaping and no default field. -/
def QueryStyle.standard : QueryStyle := { escaper := .standard }

def fieldText (field : Option String) (body : List Char) : List Char :=
  match field with
  | none => body
  | some name => wordText name ++ ':' :: body

def quotedText (text : List Char) : List Char :=
  '"' :: (escapeQuotedText text ++ ['"'])

namespace QueryStyle

theorem toList_escape (text : String) :
    (standard.escaper.escape text).toList = wordText text :=
  String.toList_ofList

theorem writtenField_standard (field : Option String) :
    standard.writtenField field = (namedField field).map standard.escaper.escape := by
  cases field with
  | none => rfl
  | some name =>
      unfold writtenField namedField
      by_cases plain : name = plainField
      · simp [plain]
      · simp [plain, standard]

theorem toList_inField (field : Option String) (body : String) :
    (standard.inField field body).toList = fieldText (namedField field) body.toList := by
  rw [inField, writtenField_standard]
  cases namedField field with
  | none => rfl
  | some name =>
      simp only [Option.map_some, String.toList_append, toList_escape, List.append_assoc]
      rfl

theorem toList_inFieldOf (term : Term) (body : String) :
    (standard.inFieldOf term body).toList = fieldText term.shownField body.toList := by
  unfold inFieldOf Term.shownField
  cases term.ignoreField with
  | true => rfl
  | false => exact toList_inField term.field body

theorem toList_quoted (text : String) :
    (standard.quoted text).toList = quotedText text.toList := by
  have inside : (standard.escaper.escapeQuoted text).toList = escapeQuotedText text.toList :=
    String.toList_ofList
  rw [quoted, String.toList_append, String.toList_append, inside]
  rfl

end QueryStyle

namespace Branch

def chars (branch : Branch) : List Char :=
  branch.standardText.toList

variable {id : NodeId} {enclosing : Option Kind} {child : Branch} {children others : List Branch}

theorem toList_write (branch : Branch) : (branch.write .standard).toList = branch.chars :=
  rfl

theorem chars_field (term : Term) :
    (node id (.leaf (.field term)) enclosing children).chars =
      fieldText term.shownField (wordText term.text) := by
  show (QueryStyle.standard.inFieldOf term (QueryStyle.standard.escaper.escape _)).toList = _
  rw [QueryStyle.toList_inFieldOf, QueryStyle.toList_escape]

theorem chars_quotedField (term : Term) :
    (node id (.leaf (.quotedField term)) enclosing children).chars =
      fieldText term.shownField (quotedText term.text.toList) := by
  show (QueryStyle.standard.inFieldOf term (QueryStyle.standard.quoted _)).toList = _
  rw [QueryStyle.toList_inFieldOf, QueryStyle.toList_quoted]

theorem chars_fuzzy (term : Term) (similarity : Similarity) (exactStart : UInt32) :
    (node id (.leaf (.fuzzy term similarity exactStart)) enclosing children).chars =
      fieldText term.shownField (wordText term.text)
        ++ '~' :: similarity.value.text.toList := by
  show (QueryStyle.standard.word term ++ "~" ++ similarity.value.text).toList = _
  rw [String.toList_append, String.toList_append, QueryStyle.word,
    QueryStyle.toList_inFieldOf, QueryStyle.toList_escape, List.append_assoc]
  rfl

theorem chars_matchAll :
    (node id (.leaf .matchAll) enclosing children).chars = ['*', ':', '*'] := by
  show "*:*".toList = _
  rfl

theorem chars_group :
    (node id (.wrapper .group) enclosing (child :: others)).chars =
      '(' :: ' ' :: (child.chars ++ [' ', ')']) := by
  show ("( " ++ child.write .standard ++ " )").toList = _
  rw [String.toList_append, String.toList_append, toList_write]
  rfl

theorem chars_stacked (id : NodeId) (enclosing : Option Kind) (others : List Branch)
    (modifier : Modifier) (stacked : child.kind.isModifier = true) :
    (node id (.wrapper (.modifier modifier)) enclosing (child :: others)).chars =
      modifier.sign.toList ++ '(' :: (child.chars ++ [')']) := by
  have single : child.kind.isJunction = false := by
    cases kind : child.kind <;> first | rfl | (rw [kind] at stacked; exact nomatch stacked)
  show (QueryStyle.modified modifier child.kind (child.write .standard)).toList = _
  rw [QueryStyle.modified, single, stacked, if_neg Bool.false_ne_true, if_pos rfl,
    String.toList_append, String.toList_append, String.toList_append, toList_write]
  simp

theorem chars_modifier (modifier : Modifier) (plain : child.kind.isModifier = false) :
    (node id (.wrapper (.modifier modifier)) enclosing (child :: others)).chars =
      (if child.kind.isJunction then modifier.keyword else modifier.sign).toList
        ++ child.chars := by
  show (QueryStyle.modified modifier child.kind (child.write .standard)).toList = _
  rw [QueryStyle.modified, plain, if_neg Bool.false_ne_true, ← toList_write,
    ← String.toList_append]
  split <;> rfl

theorem chars_neutral (plain : child.kind.isModifier = false) :
    (node id (.wrapper (.modifier .neutral)) enclosing (child :: others)).chars = child.chars := by
  rw [chars_modifier .neutral plain, Modifier.keyword, Modifier.sign, ite_self]
  rfl

theorem chars_boost (factor : Number.Single) :
    (node id (.wrapper (.boost factor)) enclosing (child :: others)).chars =
      child.chars ++ '^' :: factor.text.toList := by
  show (child.write .standard ++ "^" ++ factor.text).toList = _
  rw [String.toList_append, String.toList_append, List.append_assoc]
  rfl

theorem chars_slop (value : UInt32) :
    (node id (.wrapper (.slop value)) enclosing (child :: others)).chars =
      child.chars ++ '~' :: (toString value.toNat).toList := by
  show (child.write .standard ++ "~" ++ toString value.toNat).toList = _
  rw [String.toList_append, String.toList_append, List.append_assoc]
  rfl

def joinedText (operator : Operator) (children : List Branch) : List Char :=
  operator.separator.toList.intercalate (children.map chars)

theorem chars_junction (id : NodeId) (enclosing : Option Kind) (operator : Operator)
    (some : children ≠ [])
    (filled : ∀ child ∈ children, child.chars ≠ []) :
    (node id (.composite (.junction operator)) enclosing children).chars =
      if enclosing.all Kind.isGroup then joinedText operator children
      else '(' :: ' ' :: (joinedText operator children ++ [' ', ')']) := by
  have present : (children.map (write .standard)).filter (fun clause => !clause.isEmpty) =
      children.map (write .standard) := by
    refine List.filter_eq_self.mpr ?_
    simp only [List.forall_mem_map, Bool.not_eq_eq_eq_not, Bool.not_true, Bool.eq_false_iff,
      ne_eq, String.isEmpty_iff]
    exact fun child member same => filled child member (congrArg String.toList same)
  have joined : (String.intercalate operator.separator
      (children.map (write .standard))).toList = joinedText operator children := by
    rw [String.toList_intercalate, List.map_map]
    rfl
  have full : (children.map (write .standard)).isEmpty = false := by
    simpa [List.isEmpty_eq_false_iff] using some
  show (QueryStyle.junction operator enclosing (writeAll .standard children)).toList = _
  rw [writeAll_eq_map, QueryStyle.junction, present, full, if_neg Bool.false_ne_true]
  split
  · exact joined
  · rw [String.toList_append, String.toList_append, joined]
    rfl

def reachText : Reach → List Char
  | .paragraph => " PARAGRAPH".toList
  | .sentence => " SENTENCE".toList
  | .words distance => ' ' :: (toString distance.value.toNat).toList

def orderText (inOrder : Bool) : List Char :=
  (if inOrder then " INORDER" else "").toList

def nearnessText (near : Proximity) : List Char :=
  ' ' :: ("WITHIN".toList ++ (reachText near.reach ++ orderText near.inOrder))

def groupText (near : Proximity) (children : List Branch) : List Char :=
  '(' :: ' ' :: (joinedText .implicit children ++ ' ' :: ')' :: nearnessText near)

theorem chars_proximity (near : Proximity) :
    (node id (.composite (.proximity near)) enclosing children).chars =
      match namedField near.field with
      | none => groupText near children
      | some name => wordText name ++ ':' :: '(' :: (groupText near children ++ [')']) := by
  have group (numbered : String) (shown : numbered =
        near.reach.distance?.elim "" fun distance => " " ++ toString distance.toNat) :
      ("( " ++ String.intercalate " " (children.map (write .standard)) ++ " ) "
        ++ near.reach.unit.keyword ++ numbered
        ++ if near.inOrder then " INORDER" else "").toList = groupText near children := by
    have reached : near.reach.unit.keyword.toList ++ numbered.toList =
        "WITHIN".toList ++ reachText near.reach := by
      rw [shown]
      cases near.reach with
      | paragraph | sentence => rfl
      | words distance =>
          show "WITHIN".toList ++ (" " ++ toString distance.value.toNat).toList = _
          rw [String.toList_append]
          rfl
    have clauses : (String.intercalate " " (children.map (write .standard))).toList =
        joinedText .implicit children := by
      rw [String.toList_intercalate, List.map_map]
      rfl
    rw [String.toList_append, String.toList_append, String.toList_append, String.toList_append,
      String.toList_append, clauses, List.append_assoc _ near.reach.unit.keyword.toList, reached,
      groupText, nearnessText, orderText]
    simp
  show (QueryStyle.standard.proximity near (writeAll .standard children)).toList = _
  rw [writeAll_eq_map, QueryStyle.proximity, QueryStyle.writtenField_standard]
  cases namedField near.field with
  | none => exact group _ (by cases near.reach.distance? <;> rfl)
  | some name =>
      have behind (text : String) (same : text.toList = groupText near children) :
          (QueryStyle.standard.escaper.escape name ++ ":(" ++ text ++ ")").toList =
            wordText name ++ ':' :: '(' :: (groupText near children ++ [')']) := by
        rw [String.toList_append, String.toList_append, String.toList_append,
          QueryStyle.toList_escape, same]
        simp
      exact behind _ (group _ (by cases near.reach.distance? <;> rfl))

theorem chars_tokenizedPhrase {first : Term} (head : (terms children).head? = some first) :
    (node id (.composite .tokenizedPhrase) enclosing children).chars =
      fieldText first.shownField (quotedText
        ([' '].intercalate ((terms children).map fun term => term.text.toList))) := by
  show (QueryStyle.standard.tokenizedPhrase (terms children)).toList = _
  unfold QueryStyle.tokenizedPhrase QueryStyle.inFieldOfFirst
  cases found : terms children with
  | nil => rw [found] at head; exact nomatch head
  | cons term tail =>
      rw [found] at head
      cases head
      simp only [QueryStyle.toList_inFieldOf, QueryStyle.toList_quoted,
        String.toList_intercalate, List.map_map]
      rfl

end Branch

end QueryForest
