import QueryForest.Json.Value

namespace QueryForest.Json

open Number (Single)

inductive Fault where
  | missingField (key : String)
  | duplicateField (key : String)
  | unknownVariant (name : String) (expected : List String)
  | invalidType
  | invalidValue
  | invalidLength
  deriving DecidableEq, Repr

def quotedName (name : String) : String :=
  "`" ++ name ++ "`"

def Fault.message : Fault → String
  | .missingField key => "missing field " ++ quotedName key
  | .duplicateField key => "duplicate field " ++ quotedName key
  | .unknownVariant name expected =>
      "unknown variant " ++ quotedName name ++ ", expected one of "
        ++ String.intercalate ", " (expected.map quotedName)
  | .invalidType => "invalid type"
  | .invalidValue => "invalid value"
  | .invalidLength => "invalid length"

def asString : Json → Except Fault String
  | .string text => .ok text
  | _ => .error .invalidType

def asBool : Json → Except Fault Bool
  | .bool truth => .ok truth
  | _ => .error .invalidType

def asInteger (least greatest : Int) : Json → Except Fault Int
  | .number numeral =>
      match numeral.integer? with
      | some value =>
          if least ≤ value ∧ value ≤ greatest then .ok value
          else .error .invalidValue
      | none => .error .invalidType
  | _ => .error .invalidType

def asUInt64 (value : Json) : Except Fault UInt64 :=
  return UInt64.ofNat (← value.asInteger 0 0xFFFFFFFFFFFFFFFF).toNat

def asUInt32 (value : Json) : Except Fault UInt32 :=
  return UInt32.ofNat (← value.asInteger 0 0xFFFFFFFF).toNat

def asInt32 (value : Json) : Except Fault Int32 :=
  return Int32.ofInt (← value.asInteger (-0x80000000) 0x7FFFFFFF)

/-- A 32-bit floating-point number, rounded from what is written. -/
def asSingle : Json → Except Fault Single
  | .number numeral =>
      match numeral.quantity? with
      | some quantity => .ok quantity.toSingle
      | none => .error .invalidType
  | _ => .error .invalidType

def asOption {Result : Type} (decode : Json → Except Fault Result) :
    Json → Except Fault (Option Result)
  | .null => .ok none
  | value => some <$> decode value

def asList {Result : Type} (decode : Json → Except Fault Result) :
    Json → Except Fault (List Result)
  | .array items => items.mapM decode
  | _ => .error .invalidType

def chosen {Choice : Type} (choices : List Choice) (nameOf : Choice → String)
    (name : String) : Except Fault Choice :=
  match choices.find? (nameOf · = name) with
  | some choice => .ok choice
  | none => .error (.unknownVariant name (choices.map nameOf))

/-- A choice by its name, or by an object whose only key is the name and whose
value is empty. -/
def asChoice {Choice : Type} (choices : List Choice) (nameOf : Choice → String) :
    Json → Except Fault Choice
  | .string name => chosen choices nameOf name
  | .object [(name, value)] => do
      let choice ← chosen choices nameOf name
      match value with
      | .null | .object [] => .ok choice
      | _ => .error .invalidType
  | .object _ => .error .invalidValue
  | _ => .error .invalidType

end QueryForest.Json
