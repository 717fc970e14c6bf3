import QueryForest.Document.Basic
import QueryForest.Json.Reader
import QueryForest.Json.Record

/-!
# Reading documents

A node is an object with its variant under the key `type`, or an array that
begins with the variant.  The variant of the outermost node is looked at while
its text is still being read, so that its faults come before those of the text
behind it; all other faults come after the whole value has been read.
-/

namespace QueryForest.Document

open Json (Fault Fields Observer ReadError Token)
open Number (Single)

/-- The values that a term has where its fields are left out. -/
def standardTerm : Term := { text := "" }

def termFields : Fields Term :=
  Fields.none (fun field text start stop position ignoreField =>
      ({ field, text, start, stop, position, ignoreField } : Term))
    |>.and (.optional "field" standardTerm.field (Json.asOption Json.asString))
    |>.and (.required "text" Json.asString)
    |>.and (.optional "begin" standardTerm.start Json.asUInt64)
    |>.and (.optional "end" standardTerm.stop Json.asUInt64)
    |>.and (.optional "position_increment" standardTerm.position Json.asUInt32)
    |>.and (.optional "ignore_field" standardTerm.ignoreField Json.asBool)

def fuzzyFields : Fields (Leaf Single) :=
  Fields.none Leaf.fuzzy
    |>.and (.required "term" termFields.decode)
    |>.and (.required "similarity" Json.asSingle)
    |>.and (.optional "prefix_length" 0 Json.asUInt32)

def proximityFields : Fields ProximityRecord :=
  Fields.none ProximityRecord.mk
    |>.and (.optional "field" none (Json.asOption Json.asString))
    |>.and (.required "proximity_type" (Json.asChoice ProximityUnit.all ProximityUnit.name))
    |>.and (.optional "distance" noDistance Json.asInt32)
    |>.and (.optional "in_order" false Json.asBool)

/-- A reader of nodes, for the children of a node. -/
abbrev Reader :=
  Json → Except Fault Document

/-- The fields of a node around one child, which may be left out. -/
def wrapperFields (reader : Reader) (around : Fields Wrapper) : Fields Document :=
  (around.map Document.wrapper).and (.optional "child" none (Json.asOption reader))

def compositeFields (reader : Reader)
    (above : Fields (Composite ProximityRecord)) : Fields Document :=
  (above.map Document.composite).and (.optional "children" [] (Json.asList reader))

def shapes (reader : Reader) : List (Variant × Fields Document) :=
  [(.field, termFields.map (.leaf ∘ .field)),
    (.quotedField, termFields.map (.leaf ∘ .quotedField)),
    (.fuzzy, fuzzyFields.map .leaf),
    (.matchAll, .none (.leaf .matchAll)),
    (.matchNone, .none (.leaf .matchNone)),
    (.boolean, compositeFields reader (.none (.junction .implicit))),
    (.conjunction, compositeFields reader (.none (.junction .conjunction))),
    (.disjunction, compositeFields reader (.none (.junction .disjunction))),
    (.group, wrapperFields reader (.none .group)),
    (.modifier, wrapperFields reader
      (.map .modifier (.required "modifier" (Json.asChoice Modifier.all Modifier.name)))),
    (.boost, wrapperFields reader (.map .boost (.required "value" Json.asSingle))),
    (.slop, wrapperFields reader (.map .slop (.required "value" Json.asUInt32))),
    (.tokenizedPhrase, compositeFields reader (.none .tokenizedPhrase)),
    (.multiPhrase, compositeFields reader (.none .multiPhrase)),
    (.proximity, compositeFields reader (.map .proximity proximityFields))]

def variantKey : String := "type"

def variantNamed (name : String) : Except Fault Variant :=
  Json.chosen variants Variant.name name

/-- A variant, by its name or by its place among all variants. -/
def asVariant : Json → Except Fault Variant
  | .string name => variantNamed name
  | .number numeral =>
      match numeral.integer? with
      | some (.ofNat place) =>
          match variants[place]? with
          | some variant => .ok variant
          | none => .error .invalidValue
      | some (.negSucc _) | none => .error .invalidType
  | _ => .error .invalidType

def fieldsOf (reader : Reader) (variant : Variant) :
    Except Fault (Fields Document) :=
  match (shapes reader).lookup variant with
  | some fields => .ok fields
  | none => .error (.unknownVariant variant.name (variants.map Variant.name))

def variantOfMembers (members : List (String × Json)) : Except Fault Variant :=
  match members.filter (·.1 = variantKey) with
  | [] => .error (.missingField variantKey)
  | [(_, value)] => asVariant value
  | (_, value) :: _ => do
      let _ ← asVariant value
      .error (.duplicateField variantKey)

/-! ## Nodes -/

/-- Read a node with so much nesting at most. -/
def decodeWithin : Nat → Reader
  | 0, _ => .error .invalidType
  | nesting + 1, .object members => do
      let fields ← fieldsOf (decodeWithin nesting) (← variantOfMembers members)
      fields.ofMembers (members.filter (·.1 ≠ variantKey))
  | _, .array [] => .error (.missingField variantKey)
  | nesting + 1, .array (head :: tail) => do
      let fields ← fieldsOf (decodeWithin nesting) (← asVariant head)
      fields.ofItems tail
  | _, _ => .error .invalidType

def decode (value : Json) : Except Fault Document :=
  decodeWithin (value.nesting + 1) value

/-- The fault of a token where the variant of the outermost node is due.  A
token that begins no value is left to the reader. -/
def faultOfVariant : Token → Option Fault
  | .string name =>
      match variantNamed name with
      | .ok _ => none
      | .error fault => some fault
  | .null | .bool _ | .number _ | .openArray | .openObject => some .invalidType
  | _ => none

/-- The faults of the outermost node that are found while its text is read: it
is no container, its variant is none, or there are two of them. -/
def observer : Observer Fault
  | .beforeValue [], token =>
      match token with
      | .null | .bool _ | .number _ | .string _ => some .invalidType
      | _ => none
  | .firstItem [], token => faultOfVariant token
  | .beforeValue [.members _ key], token =>
      if key = variantKey then faultOfVariant token else none
  | .beforeKey done [], .string key =>
      if key = variantKey && done.any (·.1 = variantKey) then
        some (.duplicateField variantKey)
      else
        none
  | _, _ => none

def ofText (text : String) : Except (ReadError Fault) Document := do
  let (value, rest) ← Json.readValue observer text
  let document ← (decode value).mapError .stopped
  if rest.isEmpty then pure document else throw .malformed

end QueryForest.Document
