import QueryForest.Document.Decode
import QueryForest.Document.Encode
import QueryForest.Proofs.Json.Records

/-!
# Decoding what was encoded

Decoding an encoded document gives the document back, apart from its numbers:
each of them becomes what its written form is read as, and a document with a
number whose written form is not read as a number at all is refused.
-/

namespace QueryForest

open Json (Fault Fields)
open Number (Numeral Single)

theorem Number.Numeral.integer?_ofInt {value : Int}
    (low : -0x8000000000000000 ≤ value) (high : value < 0x10000000000000000) :
    (Numeral.ofInt value).integer? = some value := by
  unfold Numeral.integer? Numeral.ofInt
  simp only [Number.ofDigits_digitsOf, bne_self_eq_false, Option.isSome_none,
    Bool.or_self, Bool.false_eq_true, if_false]
  by_cases negative : value < 0
  · have fits : (0 < value.natAbs && value.natAbs ≤ 0x8000000000000000) = true := by
      simp only [Bool.and_eq_true, decide_eq_true_eq]
      omega
    simp only [negative, decide_true, if_true, fits]
    congr 1
    omega
  · have fits : value.natAbs < 0x10000000000000000 := by omega
    simp only [negative, decide_false, Bool.false_eq_true, if_false, fits, if_true]
    congr 1
    omega

namespace Document

theorem asInteger_ofInt {least greatest value : Int} (low : least ≤ value)
    (high : value ≤ greatest) (lowest : -0x8000000000000000 ≤ value)
    (highest : value < 0x10000000000000000) :
    (ofInt value).asInteger least greatest = .ok value := by
  unfold ofInt Json.asInteger
  simp only [Numeral.integer?_ofInt lowest highest, low, high, and_self, if_true]

theorem asUInt64_ofInt (word : UInt64) :
    Json.asUInt64 (ofInt word.toNat) = .ok word := by
  have bound := word.toNat_lt
  unfold Json.asUInt64
  rw [asInteger_ofInt (by omega) (by omega) (by omega) (by omega)]
  show Except.ok (UInt64.ofNat word.toNat) = _
  rw [UInt64.ofNat_toNat]

theorem asUInt32_ofInt (word : UInt32) :
    Json.asUInt32 (ofInt word.toNat) = .ok word := by
  have bound := word.toNat_lt
  unfold Json.asUInt32
  rw [asInteger_ofInt (by omega) (by omega) (by omega) (by omega)]
  show Except.ok (UInt32.ofNat word.toNat) = _
  rw [UInt32.ofNat_toNat]

theorem asInt32_ofInt (word : Int32) :
    Json.asInt32 (ofInt word.toInt) = .ok word := by
  have low := word.le_toInt
  have high := word.toInt_lt
  unfold Json.asInt32
  rw [asInteger_ofInt (by omega) (by omega) (by omega) (by omega)]
  show Except.ok (Int32.ofInt word.toInt) = _
  rw [Int32.ofInt_toInt]

/-! ## Reading numbers again -/

/-- What the written form of a number is read as. -/
def rereadSingle? (single : Single) : Option Single :=
  (Json.asSingle (ofSingle single)).toOption

def rereadLeaf? : Leaf Single → Option (Leaf Single)
  | .field term => some (.field term)
  | .quotedField term => some (.quotedField term)
  | .fuzzy term similarity exactStart =>
      (rereadSingle? similarity).map fun similarity => .fuzzy term similarity exactStart
  | .matchAll => some .matchAll
  | .matchNone => some .matchNone

def rereadWrapper? : Wrapper → Option Wrapper
  | .group => some .group
  | .modifier modifier => some (.modifier modifier)
  | .boost factor => (rereadSingle? factor).map .boost
  | .slop slop => some (.slop slop)

mutual

/-- A document with what the written forms of its numbers are read as. -/
def reread? : Document → Option Document
  | .leaf bottom => (rereadLeaf? bottom).map .leaf
  | .wrapper around child =>
      (rereadWrapper? around).bind fun around => (rereadChild? child).map (.wrapper around)
  | .composite above children => (rereadChildren? children).map (.composite above)
termination_by structural document => document

def rereadChild? : Option Document → Option (Option Document)
  | none => some none
  | some child => child.reread?.map some
termination_by structural child => child

def rereadChildren? : List Document → Option (List Document)
  | [] => some []
  | head :: tail =>
      head.reread?.bind fun first => (rereadChildren? tail).map (first :: ·)
termination_by structural children => children

end

theorem found?_termFields (term : Term) :
    termFields.found? (ofTerm term) = some term := by
  obtain ⟨field, text, start, stop, position, ignoreField⟩ := term
  cases field <;> cases ignoreField <;>
    simp [termFields, ofTerm, ofOption, standardTerm, asUInt64_ofInt, asUInt32_ofInt,
      Json.asOption, Json.asString, Json.asBool, Except.toOption]

/-- The keys of a node are different from each other and from that of the
variant. -/
structure DistinctKeys (members : List (String × Json)) : Prop where
  apart : ∀ key ∈ members.map Prod.fst, key ≠ variantKey
  nodup : (members.map Prod.fst).Nodup

theorem distinctKeys_ofTerm (term : Term) : DistinctKeys (ofTerm term) := by
  obtain ⟨field, text, start, stop, position, ignoreField⟩ := term
  constructor <;> cases field <;> cases ignoreField <;>
    simp [ofTerm, ofOption, variantKey]

theorem distinctKeys_ofLeaf (bottom : Leaf Single) : DistinctKeys (ofLeaf bottom) := by
  cases bottom with
  | field term => exact distinctKeys_ofTerm term
  | quotedField term => exact distinctKeys_ofTerm term
  | fuzzy term similarity exactStart => constructor <;> simp [ofLeaf, variantKey]
  | matchAll => constructor <;> simp [ofLeaf]
  | matchNone => constructor <;> simp [ofLeaf]

theorem distinctKeys_ofWrapper (around : Wrapper) (child : Option Json) :
    DistinctKeys (ofWrapper around ++ ofOption "child" child) := by
  constructor <;> cases around <;> cases child <;>
    simp [ofWrapper, ofOption, variantKey]

theorem distinctKeys_ofComposite (above : Composite ProximityRecord) (children : Json) :
    DistinctKeys (ofComposite above ++ [("children", children)]) := by
  cases above with
  | proximity near =>
      obtain ⟨field, unit, distance, inOrder⟩ := near
      constructor <;> cases field <;> simp [ofComposite, ofOption, variantKey]
  | junction operator => constructor <;> simp [ofComposite, variantKey]
  | tokenizedPhrase => constructor <;> simp [ofComposite, variantKey]
  | multiPhrase => constructor <;> simp [ofComposite, variantKey]

theorem decode_ofTerm (term : Term) :
    termFields.decode (.object (ofTerm term)) = .ok term :=
  toOption_eq_some.mp
    ((termFields.toOption_ofMembers (distinctKeys_ofTerm term).nodup).trans
      (found?_termFields term))

/-- The fields of a leaf are found among its members. -/
theorem exists_fieldsOf_leaf (reader : Reader) (bottom : Leaf Single) :
    ∃ fields, fieldsOf reader bottom.variant = .ok fields ∧
      fields.found? (ofLeaf bottom) = (rereadLeaf? bottom).map .leaf := by
  cases bottom with
  | field term =>
      refine ⟨_, rfl, ?_⟩
      rw [Fields.found?_map, ofLeaf, found?_termFields]
      rfl
  | quotedField term =>
      refine ⟨_, rfl, ?_⟩
      rw [Fields.found?_map, ofLeaf, found?_termFields]
      rfl
  | fuzzy term similarity exactStart =>
      refine ⟨_, rfl, ?_⟩
      rw [Fields.found?_map]
      simp only [fuzzyFields, ofLeaf, rereadLeaf?, rereadSingle?, Fields.found?_and,
        Fields.found?_none, Fields.found?_required, Fields.found?_optional]
      simp [decode_ofTerm, asUInt32_ofInt]
      cases (ofSingle similarity).asSingle <;> rfl
  | matchAll => exact ⟨_, rfl, rfl⟩
  | matchNone => exact ⟨_, rfl, rfl⟩

def readChild? (reader : Reader) : Option Json → Option (Option Document)
  | none => some none
  | some value => (Json.asOption reader value).toOption

theorem asChoice_modifier (modifier : Modifier) :
    Json.asChoice Modifier.all Modifier.name (.string modifier.name) = .ok modifier := by
  cases modifier <;> rfl

theorem asChoice_unit (unit : ProximityUnit) :
    Json.asChoice ProximityUnit.all ProximityUnit.name (.string unit.name) = .ok unit := by
  cases unit <;> rfl

/-- The fields of a wrapper are found among its members. -/
theorem exists_fieldsOf_wrapper (reader : Reader) (around : Wrapper)
    (child : Option Json) :
    ∃ fields, fieldsOf reader around.variant = .ok fields ∧
      fields.found? (ofWrapper around ++ ofOption "child" child) =
        (rereadWrapper? around).bind fun around =>
          (readChild? reader child).map (.wrapper around) := by
  have members : Json.valueOf? "child" (ofWrapper around ++ ofOption "child" child) =
      child := by
    cases around <;> cases child <;> simp [ofWrapper, ofOption]
  cases around with
  | group =>
      refine ⟨_, rfl, ?_⟩
      simp only [wrapperFields, Fields.found?_and, Fields.found?_map, Fields.found?_none,
        Fields.found?_optional, members]
      cases child <;> rfl
  | modifier modifier =>
      have found : Json.valueOf? "modifier"
          (ofWrapper (.modifier modifier) ++ ofOption "child" child) =
            some (.string modifier.name) := by
        simp [ofWrapper]
      refine ⟨_, rfl, ?_⟩
      simp only [wrapperFields, Fields.found?_and, Fields.found?_map,
        Fields.found?_required, Fields.found?_optional, members, found, Option.bind_some,
        asChoice_modifier]
      cases child <;> rfl
  | boost factor =>
      have found : Json.valueOf? "value"
          (ofWrapper (.boost factor) ++ ofOption "child" child) =
            some (ofSingle factor) := by
        simp [ofWrapper]
      refine ⟨_, rfl, ?_⟩
      simp only [wrapperFields, Fields.found?_and, Fields.found?_map,
        Fields.found?_required, Fields.found?_optional, members, found, Option.bind_some,
        rereadWrapper?, rereadSingle?]
      cases child <;> cases (ofSingle factor).asSingle <;> rfl
  | slop slop =>
      have found : Json.valueOf? "value"
          (ofWrapper (.slop slop) ++ ofOption "child" child) =
            some (ofInt slop.toNat) := by
        simp [ofWrapper]
      refine ⟨_, rfl, ?_⟩
      simp only [wrapperFields, Fields.found?_and, Fields.found?_map,
        Fields.found?_required, Fields.found?_optional, members, found, Option.bind_some,
        asUInt32_ofInt]
      cases child <;> rfl

theorem found?_proximityFields (near : ProximityRecord) (children : Json) :
    proximityFields.found? (ofComposite (.proximity near) ++ [("children", children)]) =
      some near := by
  obtain ⟨field, unit, distance, inOrder⟩ := near
  cases field <;>
    simp [proximityFields, ofComposite, ofOption, Json.asOption, Json.asString,
      Json.asBool, asChoice_unit, asInt32_ofInt, Except.toOption]

/-- The fields of a composite are found among its members. -/
theorem exists_fieldsOf_composite (reader : Reader) (above : Composite ProximityRecord)
    (children : List Json) :
    ∃ fields, fieldsOf reader above.variant = .ok fields ∧
      fields.found? (ofComposite above ++ [("children", .array children)]) =
        (children.mapM fun child => (reader child).toOption).map (.composite above) := by
  have members : Json.valueOf? "children"
      (ofComposite above ++ [("children", .array children)]) =
        some (.array children) := by
    cases above with
    | proximity near =>
        obtain ⟨field, unit, distance, inOrder⟩ := near
        cases field <;> simp [ofComposite, ofOption]
    | junction operator => simp [ofComposite]
    | tokenizedPhrase => simp [ofComposite]
    | multiPhrase => simp [ofComposite]
  cases above with
  | junction operator =>
      cases operator <;>
      · refine ⟨_, rfl, ?_⟩
        simp only [compositeFields, Fields.found?_and, Fields.found?_map,
          Fields.found?_none, Fields.found?_optional, members, Json.asList, toOption_mapM]
        rfl
  | tokenizedPhrase =>
      refine ⟨_, rfl, ?_⟩
      simp only [compositeFields, Fields.found?_and, Fields.found?_map,
        Fields.found?_none, Fields.found?_optional, members, Json.asList, toOption_mapM]
      rfl
  | multiPhrase =>
      refine ⟨_, rfl, ?_⟩
      simp only [compositeFields, Fields.found?_and, Fields.found?_map,
        Fields.found?_none, Fields.found?_optional, members, Json.asList, toOption_mapM]
      rfl
  | proximity near =>
      refine ⟨_, rfl, ?_⟩
      simp only [compositeFields, Fields.found?_and, Fields.found?_map,
        found?_proximityFields, Fields.found?_optional, members, Json.asList,
        toOption_mapM]
      rfl

theorem variantNamed_variant (document : Document) :
    variantNamed document.variant.name = .ok document.variant := by
  cases document with
  | leaf bottom => cases bottom <;> rfl
  | wrapper around child => cases around <;> rfl
  | composite above children =>
      cases above with
      | junction operator => cases operator <;> rfl
      | tokenizedPhrase => rfl
      | multiPhrase => rfl
      | proximity near => rfl

/-- A node with a variant is read from its other members. -/
theorem toOption_decodeWithin_tagged {nesting : Nat} {variant : Variant}
    {members : List (String × Json)} {fields : Fields Document}
    (named : variantNamed variant.name = .ok variant)
    (known : fieldsOf (decodeWithin nesting) variant = .ok fields)
    (apart : ∀ key ∈ members.map Prod.fst, key ≠ variantKey)
    (nodup : (members.map Prod.fst).Nodup) :
    (decodeWithin (nesting + 1) (tagged variant members)).toOption =
      fields.found? members := by
  have kept : members.filter (·.1 ≠ variantKey) = members := by
    apply List.filter_eq_self.mpr
    intro member listed
    simpa using apart member.1 (List.mem_map_of_mem listed)
  have dropped : members.filter (·.1 = variantKey) = [] := by
    apply List.filter_eq_nil_iff.mpr
    intro member listed
    simpa using apart member.1 (List.mem_map_of_mem listed)
  have variantFound :
      variantOfMembers (("type", .string variant.name) :: members) = .ok variant := by
    unfold variantOfMembers
    rw [List.filter_cons_of_pos (by simp [variantKey]), dropped]
    exact named
  rw [tagged, decodeWithin, variantFound]
  show ((fieldsOf (decodeWithin nesting) variant).bind _).toOption = _
  rw [known]
  show (fields.ofMembers _).toOption = _
  rw [List.filter_cons_of_neg (by simp [variantKey]), kept]
  exact fields.toOption_ofMembers nodup

theorem nesting_le_of_mem {members : List (String × Json)} {key : String}
    {value : Json} (member : (key, value) ∈ members) :
    value.nesting ≤ Json.nestingOfMembers members := by
  induction members with
  | nil => cases member
  | cons head tail inductionHypothesis =>
      rw [Json.nestingOfMembers]
      rcases List.mem_cons.mp member with rfl | later
      · rw [Json.nestingOfMember]
        exact Nat.le_max_left ..
      · exact Nat.le_trans (inductionHypothesis later) (Nat.le_max_right ..)

theorem nesting_tagged (variant : Variant) (members : List (String × Json)) :
    (tagged variant members).nesting = Json.nestingOfMembers members + 1 := by
  rw [tagged, Json.nesting, Json.nestingOfMembers, Json.nestingOfMember, Json.nesting,
    Nat.zero_max]

theorem nesting_childOfMembers {around : Wrapper} {child : Option Json} {value : Json}
    (present : child = some value) :
    value.nesting ≤
      Json.nestingOfMembers (ofWrapper around ++ ofOption "child" child) := by
  have member : ("child", value) ∈ ofWrapper around ++ ofOption "child" child := by
    rw [present]
    exact List.mem_append_right _ (List.mem_singleton.mpr rfl)
  exact nesting_le_of_mem member

theorem nesting_childrenOfMembers (above : Composite ProximityRecord)
    (children : List Json) :
    Json.nestingOfItems children + 1 ≤
      Json.nestingOfMembers
        (ofComposite above ++ [("children", .array children)]) := by
  rw [← Json.nesting]
  exact nesting_le_of_mem
    (List.mem_append_right _ (List.mem_singleton.mpr rfl))

theorem asOption_encode (reader : Reader) (document : Document) :
    Json.asOption reader document.encode = (reader document.encode).map some := by
  cases document <;> rfl

mutual

/-- An encoded node is read as what the written forms of its numbers are. -/
theorem toOption_decodeWithin_encode :
    (document : Document) → (depth : Nat) → document.encode.nesting < depth →
      (decodeWithin depth document.encode).toOption = document.reread?
  | _, 0, shallow => absurd shallow (Nat.not_lt_zero _)
  | .leaf bottom, depth + 1, _ => by
      obtain ⟨fields, known, found⟩ := exists_fieldsOf_leaf (decodeWithin depth) bottom
      have keys := distinctKeys_ofLeaf bottom
      have named : variantNamed bottom.variant.name = .ok bottom.variant :=
        variantNamed_variant (.leaf bottom)
      rw [encode, reread?, toOption_decodeWithin_tagged named known keys.apart keys.nodup,
        found]
  | .wrapper around child, depth + 1, shallow => by
      obtain ⟨fields, known, found⟩ :=
        exists_fieldsOf_wrapper (decodeWithin depth) around (encodeChild child)
      have keys := distinctKeys_ofWrapper around (encodeChild child)
      have named : variantNamed around.variant.name = .ok around.variant :=
        variantNamed_variant (.wrapper around none)
      rw [encode, nesting_tagged] at shallow
      have below : ∀ value, encodeChild child = some value → value.nesting < depth := by
        intro value present
        exact Nat.lt_of_le_of_lt (nesting_childOfMembers present)
          (Nat.lt_of_succ_lt_succ shallow)
      rw [encode, reread?, toOption_decodeWithin_tagged named known keys.apart keys.nodup,
        found, readChild?_encodeChild child depth below]
  | .composite above children, depth + 1, shallow => by
      obtain ⟨fields, known, found⟩ :=
        exists_fieldsOf_composite (decodeWithin depth) above (encodeChildren children)
      have keys := distinctKeys_ofComposite above (.array (encodeChildren children))
      have named : variantNamed above.variant.name = .ok above.variant :=
        variantNamed_variant (.composite above [])
      rw [encode, nesting_tagged] at shallow
      have items := nesting_childrenOfMembers above (encodeChildren children)
      rw [encode, reread?, toOption_decodeWithin_tagged named known keys.apart keys.nodup,
        found, mapM_encodeChildren children depth (by omega)]

/-- An encoded child is read as what the written forms of its numbers are. -/
theorem readChild?_encodeChild :
    (child : Option Document) → (depth : Nat) →
      (∀ value, encodeChild child = some value → value.nesting < depth) →
      readChild? (decodeWithin depth) (encodeChild child) = rereadChild? child
  | none, _, _ => rfl
  | some child, depth, shallow => by
      have found := toOption_decodeWithin_encode child depth (shallow _ rfl)
      rw [encodeChild, readChild?, rereadChild?, ← found, asOption_encode]
      exact toOption_map some _

/-- Encoded children are read as what the written forms of their numbers are. -/
theorem mapM_encodeChildren :
    (children : List Document) → (depth : Nat) →
      Json.nestingOfItems (encodeChildren children) < depth →
      (encodeChildren children).mapM (fun child => (decodeWithin depth child).toOption) =
        rereadChildren? children
  | [], _, _ => rfl
  | head :: tail, depth, shallow => by
      rw [encodeChildren, Json.nestingOfItems] at shallow
      have first := toOption_decodeWithin_encode head depth (by omega)
      have others := mapM_encodeChildren tail depth (by omega)
      rw [encodeChildren, List.mapM_cons, first, others, rereadChildren?]
      cases head.reread? with
      | none => rfl
      | some document => cases rereadChildren? tail <;> rfl

end

/-- Decoding an encoded document reads the written form of each of its numbers
again. -/
theorem toOption_decode_encode (document : Document) :
    (decode document.encode).toOption = document.reread? :=
  toOption_decodeWithin_encode document _ (Nat.lt_succ_self _)

end Document

end QueryForest
