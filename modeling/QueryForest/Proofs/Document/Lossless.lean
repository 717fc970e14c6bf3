import QueryForest.Proofs.Document.Numbers
import QueryForest.Proofs.Document.Texts

/-!
# Nothing is lost in the text of a document

A document is read from its own text exactly if it is not nested too deeply and all
its numbers are finite.  Its members and the ones that are left out together have
each key of its record once, and a key that is left out stands for what the reader
puts in its place.
-/

namespace QueryForest

open Json (Fields Spacing)

theorem Json.Spacing.isBlank_compact : Spacing.compact.IsBlank where
  beforeItem := by simp [Spacing.compact]
  beforeClose := by simp [Spacing.compact]
  afterColon := by simp [Spacing.compact]

namespace Json.Fields

variable {Part Whole : Type}

@[simp]
theorem names_none (part : Part) : (none part).names = [] :=
  rfl

@[simp]
theorem names_required (name : String) (decode : Json → Except Fault Part) :
    (required name decode).names = [name] :=
  rfl

@[simp]
theorem names_optional (name : String) (standard : Part) (decode : Json → Except Fault Part) :
    (optional name standard decode).names = [name] :=
  rfl

@[simp]
theorem names_and (first : Fields (Part → Whole)) (second : Fields Part) :
    (first.and second).names = first.names ++ second.names :=
  rfl

@[simp]
theorem names_map (make : Part → Whole) (part : Fields Part) :
    (part.map make).names = part.names :=
  rfl

end Json.Fields

namespace Document

def leftOutOfField : Option String → List (String × Json)
  | none => [("field", .null)]
  | some _ => []

def leftOutOfTerm (term : Term) : List (String × Json) :=
  leftOutOfField term.field ++ if term.ignoreField then [] else [("ignore_field", .bool false)]

/-- The members that the outermost node of a document leaves out, with the values
they stand for. -/
def leftOut : Document → List (String × Json)
  | .leaf (.field term) | .leaf (.quotedField term) => leftOutOfTerm term
  | .wrapper _ none => [("child", .null)]
  | .composite (.proximity near) _ => leftOutOfField near.field
  | .leaf _ | .wrapper _ (some _) | .composite _ _ => []

/-- The members of the outermost node of a document, apart from its variant. -/
def members : Document → List (String × Json)
  | .leaf bottom => ofLeaf bottom
  | .wrapper around child => ofWrapper around ++ ofOption "child" (encodeChild child)
  | .composite above children =>
      ofComposite above ++ [("children", .array (encodeChildren children))]

theorem encode_eq_tagged (document : Document) :
    document.encode = tagged document.variant document.members := by
  cases document <;> rw [encode, members, variant]

/-- Members and those that are left out have the keys of a record, each of them once,
and the record is read from all of them as it is read from the members alone. -/
structure Completes {Part : Type} (fields : Fields Part)
    (members others : List (String × Json)) : Prop where
  keys : ((members ++ others).map Prod.fst).Perm fields.names
  found? : fields.found? (members ++ others) = fields.found? members

theorem Completes.map {Part Whole : Type} {fields : Fields Part}
    {members others : List (String × Json)} (completes : Completes fields members others)
    (make : Part → Whole) : Completes (fields.map make) members others where
  keys := by simpa using completes.keys
  found? := by rw [Fields.found?_map, Fields.found?_map, completes.found?]

theorem completes_term (term : Term) :
    Completes termFields (ofTerm term) (leftOutOfTerm term) := by
  obtain ⟨field, text, start, stop, position, ignoreField⟩ := term
  constructor
  · cases field <;> cases ignoreField <;>
      simp [ofTerm, ofOption, leftOutOfTerm, leftOutOfField, termFields] <;> decide
  · rw [found?_termFields]
    cases field <;> cases ignoreField <;>
      simp [termFields, ofTerm, ofOption, standardTerm, leftOutOfTerm, leftOutOfField,
        asUInt64_ofInt, asUInt32_ofInt, Json.asOption, Json.asString, Json.asBool,
        Except.toOption]

theorem completes_leaf (reader : Reader) (bottom : Leaf Number.Single) :
    ∃ fields, fieldsOf reader bottom.variant = .ok fields ∧
      Completes fields (ofLeaf bottom) (leaf bottom).leftOut := by
  cases bottom with
  | field term => exact ⟨_, rfl, (completes_term term).map _⟩
  | quotedField term => exact ⟨_, rfl, (completes_term term).map _⟩
  | fuzzy term similarity exactStart =>
      refine ⟨_, rfl, Completes.map ⟨?_, ?_⟩ _⟩
      · simp [ofLeaf, leftOut, fuzzyFields]
      · simp [leftOut]
  | matchAll => exact ⟨_, rfl, .nil, rfl⟩
  | matchNone => exact ⟨_, rfl, .nil, rfl⟩

theorem completes_wrapper (reader : Reader) (around : Wrapper) (child : Option Document) :
    ∃ fields, fieldsOf reader around.variant = .ok fields ∧
      Completes fields (ofWrapper around ++ ofOption "child" (encodeChild child))
        (wrapper around child).leftOut := by
  cases around with
  | group | modifier _ | boost _ | slop _ =>
      refine ⟨_, rfl, ?_, ?_⟩
      · cases child <;> simp [ofWrapper, ofOption, encodeChild, leftOut, wrapperFields]
      · cases child <;>
          simp [ofWrapper, ofOption, encodeChild, leftOut, wrapperFields, Json.asOption,
            Except.toOption]

theorem completes_proximity (reader : Reader) (near : ProximityRecord) (children : Json) :
    Completes (compositeFields reader (proximityFields.map .proximity))
      (ofComposite (.proximity near) ++ [("children", children)]) (leftOutOfField near.field) := by
  obtain ⟨field, unit, distance, inOrder⟩ := near
  constructor
  · cases field with
    | none =>
        simp [ofComposite, ofOption, leftOutOfField, proximityFields, compositeFields]
        decide
    | some name => simp [ofComposite, ofOption, leftOutOfField, proximityFields, compositeFields]
  · cases field <;>
      simp [ofComposite, ofOption, leftOutOfField, proximityFields, compositeFields,
        Json.asOption, Except.toOption]

theorem completes_composite (reader : Reader) (above : Composite ProximityRecord)
    (children : List Document) :
    ∃ fields, fieldsOf reader above.variant = .ok fields ∧
      Completes fields (ofComposite above ++ [("children", .array (encodeChildren children))])
        (composite above children).leftOut := by
  cases above with
  | proximity near => exact ⟨_, rfl, completes_proximity reader near _⟩
  | junction operator =>
      cases operator with
      | implicit | conjunction | disjunction =>
          refine ⟨_, rfl, ?_, ?_⟩
          · simp [ofComposite, leftOut, compositeFields]
          · simp [leftOut]
  | tokenizedPhrase | multiPhrase =>
      refine ⟨_, rfl, ?_, ?_⟩
      · simp [ofComposite, leftOut, compositeFields]
      · simp [leftOut]

theorem exists_completes (reader : Reader) (document : Document) :
    ∃ fields, fieldsOf reader document.variant = .ok fields ∧
      Completes fields document.members document.leftOut := by
  cases document with
  | leaf bottom => exact completes_leaf reader bottom
  | wrapper around child => exact completes_wrapper reader around child
  | composite above children => exact completes_composite reader above children

/-- The text of a document in any blank spacing is read as the document itself exactly
if it is not nested too deeply and its numbers are finite. -/
theorem ofText_write_eq_self_iff (document : Document) {spacing : Spacing}
    (blank : spacing.IsBlank) :
    ofText (document.encode.write spacing 0) = .ok document ↔
      document.encode.nesting ≤ 127 ∧ ∀ single ∈ document.singles, single.isFinite = true := by
  have blankEnding : ∀ c ∈ "".toList, Json.Lexer.isBlank c = true := by simp
  have read := ofText_eq_ok_iff document document blank blankEnding
  rw [String.append_empty] at read
  rw [read, reread?_eq_self_iff]
  simp only [Number.Single.readsBack_iff_isFinite, Json.State.nestingLimit]

/-- A document is read as itself from its compact and from its indented text, unless it
is nested too deeply or has a number that is not finite.  Its members are those of its
record but for the ones that stand for the values they are read as when left out. -/
theorem reads_itself_iff (document : Document) :
    (ofText document.compact = .ok document ↔
      document.encode.nesting ≤ 127 ∧ ∀ single ∈ document.singles, single.isFinite = true) ∧
    (ofText document.pretty = .ok document ↔
      document.encode.nesting ≤ 127 ∧ ∀ single ∈ document.singles, single.isFinite = true) ∧
    document.encode = tagged document.variant document.members ∧
    (∀ reader, ∃ fields, fieldsOf reader document.variant = .ok fields ∧
      Completes fields document.members document.leftOut) ∧
    ∀ term, Completes termFields (ofTerm term) (leftOutOfTerm term) := by
  refine ⟨?compact, ?pretty, ?members, ?complete, completes_term⟩
  case compact => exact ofText_write_eq_self_iff document Spacing.isBlank_compact
  case pretty => exact ofText_write_eq_self_iff document Spacing.isBlank_pretty
  case members => exact encode_eq_tagged document
  case complete => exact fun reader => exists_completes reader document

end Document

end QueryForest
