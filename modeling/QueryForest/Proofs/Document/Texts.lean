import QueryForest.Proofs.Document.Rereading
import QueryForest.Proofs.Json.Reading
import QueryForest.Proofs.Number.Written

/-!
# The texts of documents

The text of a document is read as the document itself, apart from its numbers,
as long as it is not nested too deeply.  Nothing in it stops the observer: it
begins with its variant, and no other member of a node has that key.
-/

namespace QueryForest

open Number (Numeral Single)
open Json (numeralsOfItems numeralsOfMembers numeralsOfMember)

theorem Json.forall_numeralsOfMembers {P : Numeral → Prop} {members : List (String × Json)} :
    (∀ numeral ∈ numeralsOfMembers members, P numeral) ↔
      ∀ member ∈ members, ∀ numeral ∈ member.2.numerals, P numeral := by
  induction members with
  | nil => simp [numeralsOfMembers]
  | cons head tail inductionHypothesis =>
      obtain ⟨key, value⟩ := head
      rw [numeralsOfMembers, List.forall_mem_append, List.forall_mem_cons,
        inductionHypothesis, numeralsOfMember]

namespace Document

/-- Whatever holds of the integers that words stand for and of the numerals of
some numbers. -/
structure Covers (P : Numeral → Prop) (singles : List Single) : Prop where
  integer : ∀ value : Int, -0x8000000000000000 ≤ value → value < 0x10000000000000000 →
    P (.ofInt value)
  single : ∀ single ∈ singles, single.isFinite = true → P (single.numeral .data)

namespace Covers

variable {P : Numeral → Prop} {singles others : List Single}

theorem left (covers : Covers P (singles ++ others)) : Covers P singles where
  integer := covers.integer
  single single member := covers.single single (List.mem_append_left _ member)

theorem right (covers : Covers P (singles ++ others)) : Covers P others where
  integer := covers.integer
  single single member := covers.single single (List.mem_append_right _ member)

theorem ofInt (covers : Covers P singles) {value : Int}
    (low : -0x8000000000000000 ≤ value) (high : value < 0x10000000000000000) :
    ∀ numeral ∈ (Document.ofInt value).numerals, P numeral := by
  intro numeral member
  rw [List.mem_singleton.mp member]
  exact covers.integer value low high

theorem ofSingle (covers : Covers P singles) {single : Single} (member : single ∈ singles) :
    ∀ numeral ∈ (Document.ofSingle single).numerals, P numeral := by
  unfold Document.ofSingle
  by_cases finite : single.isFinite = true
  · rw [if_pos finite]
    intro numeral numeralMember
    rw [List.mem_singleton.mp numeralMember]
    exact covers.single single member finite
  · rw [if_neg finite]
    intro numeral numeralMember
    cases numeralMember

theorem toNat64 (covers : Covers P singles) (word : UInt64) :
    ∀ numeral ∈ (Document.ofInt word.toNat).numerals, P numeral := by
  have bound := word.toNat_lt
  exact covers.ofInt (by omega) (by omega)

theorem toNat32 (covers : Covers P singles) (word : UInt32) :
    ∀ numeral ∈ (Document.ofInt word.toNat).numerals, P numeral := by
  have bound := word.toNat_lt
  exact covers.ofInt (by omega) (by omega)

theorem toInt32 (covers : Covers P singles) (word : Int32) :
    ∀ numeral ∈ (Document.ofInt word.toInt).numerals, P numeral := by
  have low := word.le_toInt
  have high := word.toInt_lt
  exact covers.ofInt (by omega) (by omega)

theorem ofTerm (covers : Covers P singles) (term : Term) :
    ∀ numeral ∈ numeralsOfMembers (Document.ofTerm term), P numeral := by
  obtain ⟨field, text, start, stop, position, ignoreField⟩ := term
  have words := And.intro (covers.toNat64 start)
    (And.intro (covers.toNat64 stop) (covers.toNat32 position))
  rw [Json.forall_numeralsOfMembers]
  cases field <;> cases ignoreField <;>
    simpa [Document.ofTerm, ofOption, Json.numerals] using words

theorem ofLeaf {bottom : Leaf Single} (covers : Covers P (singlesOfLeaf bottom)) :
    ∀ numeral ∈ numeralsOfMembers (Document.ofLeaf bottom), P numeral := by
  cases bottom with
  | field term => exact covers.ofTerm term
  | quotedField term => exact covers.ofTerm term
  | fuzzy term similarity exactStart =>
      have parts := And.intro (covers.ofTerm term)
        (And.intro (covers.ofSingle List.mem_cons_self) (covers.toNat32 exactStart))
      rw [Json.forall_numeralsOfMembers]
      simpa [Document.ofLeaf, Json.numerals] using parts
  | matchAll =>
      intro numeral member
      cases member
  | matchNone =>
      intro numeral member
      cases member

theorem ofWrapper {around : Wrapper} (covers : Covers P (singlesOfWrapper around)) :
    ∀ numeral ∈ numeralsOfMembers (Document.ofWrapper around), P numeral := by
  rw [Json.forall_numeralsOfMembers]
  cases around with
  | group => exact fun _ member => nomatch member
  | modifier modifier => simp [Document.ofWrapper, Json.numerals]
  | boost factor =>
      have number := covers.ofSingle List.mem_cons_self
      simpa [Document.ofWrapper] using number
  | slop slop =>
      have number := covers.toNat32 slop
      simpa [Document.ofWrapper] using number

theorem ofComposite (covers : Covers P singles) (above : Composite ProximityRecord) :
    ∀ numeral ∈ numeralsOfMembers (Document.ofComposite above), P numeral := by
  rw [Json.forall_numeralsOfMembers]
  cases above with
  | proximity near =>
      obtain ⟨field, unit, distance, inOrder⟩ := near
      have number := covers.toInt32 distance
      cases field <;> simpa [Document.ofComposite, ofOption, Json.numerals] using number
  | junction operator =>
      intro member listed
      cases listed
  | tokenizedPhrase =>
      intro member listed
      cases listed
  | multiPhrase =>
      intro member listed
      cases listed

end Covers

theorem numerals_tagged (variant : Variant) (members : List (String × Json)) :
    (tagged variant members).numerals = numeralsOfMembers members := by
  rw [tagged, Json.numerals, numeralsOfMembers, numeralsOfMember, Json.numerals,
    List.nil_append]

theorem numeralsOfMembers_append (first second : List (String × Json)) :
    numeralsOfMembers (first ++ second) =
      numeralsOfMembers first ++ numeralsOfMembers second := by
  induction first with
  | nil => rfl
  | cons head tail inductionHypothesis =>
      rw [List.cons_append, numeralsOfMembers, numeralsOfMembers, inductionHypothesis,
        List.append_assoc]

mutual

/-- The numerals of an encoded document are those of its words and numbers. -/
theorem forall_numerals_encode {P : Numeral → Prop} : (document : Document) →
    Covers P document.singles → ∀ numeral ∈ document.encode.numerals, P numeral
  | .leaf bottom, covers => by
      rw [singles] at covers
      rw [encode, numerals_tagged]
      exact covers.ofLeaf
  | .wrapper around child, covers => by
      rw [singles] at covers
      rw [encode, numerals_tagged, numeralsOfMembers_append, List.forall_mem_append]
      exact ⟨covers.left.ofWrapper, forall_numerals_encodeChild child covers.right⟩
  | .composite above children, covers => by
      rw [singles] at covers
      rw [encode, numerals_tagged, numeralsOfMembers_append, List.forall_mem_append]
      refine ⟨covers.ofComposite above, ?_⟩
      rw [numeralsOfMembers, numeralsOfMember, Json.numerals, numeralsOfMembers,
        List.append_nil]
      exact forall_numerals_encodeChildren children covers

theorem forall_numerals_encodeChild {P : Numeral → Prop} : (child : Option Document) →
    Covers P (singlesOfChild child) →
      ∀ numeral ∈ numeralsOfMembers (ofOption "child" (encodeChild child)), P numeral
  | none, _ => by
      rw [encodeChild]
      exact fun _ member => nomatch member
  | some child, covers => by
      rw [singlesOfChild] at covers
      rw [encodeChild, ofOption, numeralsOfMembers, numeralsOfMember, numeralsOfMembers,
        List.append_nil]
      exact forall_numerals_encode child covers

theorem forall_numerals_encodeChildren {P : Numeral → Prop} :
    (children : List Document) → Covers P (singlesOfChildren children) →
      ∀ numeral ∈ numeralsOfItems (encodeChildren children), P numeral
  | [], _ => by
      rw [encodeChildren]
      exact fun _ member => nomatch member
  | head :: tail, covers => by
      rw [singlesOfChildren] at covers
      rw [encodeChildren, numeralsOfItems, List.forall_mem_append]
      exact ⟨forall_numerals_encode head covers.left,
        forall_numerals_encodeChildren tail covers.right⟩

end

theorem isWritten_encode (document : Document) :
    ∀ numeral ∈ document.encode.numerals, numeral.IsWritten :=
  forall_numerals_encode document
    { integer value _ _ := Numeral.isWritten_ofInt value
      single single _ _ := single.isWritten_numeral .data }

/-- Where all numbers are read again, no numeral is beyond all finite numbers. -/
theorem isFinite_encode {document other : Document}
    (reread : document.reread? = some other) :
    ∀ numeral ∈ document.encode.numerals, numeral.quantity?.isSome = true := by
  refine forall_numerals_encode document
    { integer value low high := ?_
      single single member finite := ?_ }
  · unfold Numeral.quantity?
    rw [Numeral.integer?_ofInt low high]
    rfl
  · have each := map_singles document other reread
    have read : rereadSingle? single ∈ other.singles.map some := by
      rw [← each]
      exact List.mem_map_of_mem member
    obtain ⟨back, _, found⟩ := List.mem_map.mp read
    have asked := rereadSingle?_eq_some.mp found.symm
    rw [ofSingle, if_pos finite, Json.asSingle] at asked
    cases known : (single.numeral .data).quantity? with
    | none =>
        rw [known] at asked
        cases asked
    | some quantity => rfl

open Json (Token Frame State Spacing Fits GoesOn Passes SilentFrom)
open Json.Lexer (isBlank)

theorem silent_observer : SilentFrom observer 2 := by
  intro state token deep
  cases state with
  | beforeValue stack =>
      cases stack with
      | nil => exact absurd deep (by decide)
      | cons frame rest =>
          cases rest with
          | nil => exact absurd deep (by decide : ¬ 2 ≤ 1)
          | cons other rest => cases frame <;> rfl
  | firstItem stack =>
      cases stack with
      | nil => exact absurd deep (by decide)
      | cons frame rest => rfl
  | beforeKey done stack =>
      cases stack with
      | nil => exact absurd deep (by decide : ¬ 2 ≤ 1)
      | cons frame rest => rfl
  | afterItem done stack => rfl
  | firstKey stack => rfl
  | beforeColon done key stack => rfl
  | afterMember done stack => rfl

/-- A member of the outermost node that is not its variant is let pass. -/
theorem passes_observer {key : String} (apart : key ≠ variantKey) :
    Passes observer [] key where
  beforeKey done := by
    unfold observer
    simp [apart]
  beforeColon _ := rfl
  beforeValue done token := by
    unfold observer
    exact if_neg apart

/-- An encoded document is an object that begins with its variant, and no other
member has that key. -/
theorem exists_tagged (document : Document) :
    ∃ members, document.encode = tagged document.variant members ∧
      ∀ key ∈ members.map Prod.fst, key ≠ variantKey := by
  cases document with
  | leaf bottom =>
      exact ⟨_, by rw [encode, variant], (distinctKeys_ofLeaf bottom).apart⟩
  | wrapper around child =>
      exact ⟨_, by rw [encode, variant], (distinctKeys_ofWrapper around _).apart⟩
  | composite above children =>
      exact ⟨_, by rw [encode, variant], (distinctKeys_ofComposite above _).apart⟩

/-- The tokens of an encoded document are read as it where it fits. -/
theorem goesOn_encode (document : Document) :
    GoesOn (Fits 0 document.encode.nesting document.encode.numerals)
      (Json.readFrom observer (.beforeValue []) document.encode.spelling)
      (.ok (document.encode, [])) := by
  obtain ⟨members, encoded, apart⟩ := exists_tagged document
  have named := variantNamed_variant document
  have silent : observer (.beforeValue [.members [] "type"])
      (.string document.variant.name) = none := by
    show faultOfVariant (.string document.variant.name) = none
    simp only [faultOfVariant, named]
  have others := Json.goesOn_members members [("type", .string document.variant.name)] []
    (fun key member => passes_observer (apart key member)) (fun _ _ => rfl)
    silent_observer (by decide) []
  have begins : Json.readFrom observer (.beforeValue []) document.encode.spelling =
      Json.readFrom observer (.afterMember [("type", .string document.variant.name)] [])
        ((Json.spellingOfMembers members).flatMap (.comma :: ·) ++ [.closeObject]) := by
    rw [encoded, tagged, Json.spelling, Json.spellingOfMembers, Json.intercalate_cons,
      Json.spellingOfMember_eq, Json.spelling]
    show Json.readFrom observer (.beforeValue []) (.openObject :: .string "type" ::
      .colon :: .string document.variant.name ::
        ((Json.spellingOfMembers members).flatMap (.comma :: ·) ++ [.closeObject])) = _
    rw [Json.readFrom_of_reading rfl rfl, Json.readFrom_of_reading rfl rfl,
      Json.readFrom_of_reading rfl rfl, Json.readFrom_of_reading silent rfl]
  rw [begins, encoded]
  apply others.iff
  rw [nesting_tagged, numerals_tagged, ← Json.fits_container]
  exact (and_iff_right (by decide)).symm

/-- The text of a document is read as the document where all its numbers are
read again and it is not nested too deeply. -/
theorem ofText_eq_ok_iff (document other : Document) {spacing : Spacing}
    (blank : spacing.IsBlank) {ending : String}
    (blankEnding : ∀ c ∈ ending.toList, isBlank c = true) :
    ofText (document.encode.write spacing 0 ++ ending) = .ok other ↔
      document.encode.nesting ≤ State.nestingLimit ∧ document.reread? = some other := by
  have read : Json.readValue observer (document.encode.write spacing 0 ++ ending) =
      Json.readFrom observer (.beforeValue []) document.encode.spelling := by
    rw [Json.readValue, Json.tokens_write blank (isWritten_encode document) blankEnding]
  have decoded := toOption_decode_encode document
  unfold ofText
  rw [read]
  rcases goesOn_encode document with ⟨fits, reads⟩ | ⟨unfit, stops⟩
  · have room : document.encode.nesting ≤ State.nestingLimit := by
      have room := fits.room
      omega
    rw [reads, ← decoded]
    show (decode document.encode).mapError Json.ReadError.stopped >>= _ = _ ↔ _
    cases decode document.encode with
    | error fault => simp [Except.mapError, Except.toOption, bind, Except.bind]
    | ok found =>
        simp [Except.mapError, Except.toOption, bind, Except.bind, pure, Except.pure, room]
  · rw [stops]
    apply iff_of_false
    · intro read
      cases read
    · rintro ⟨room, reread⟩
      apply unfit
      exact ⟨by omega, isFinite_encode reread⟩

end Document

end QueryForest
