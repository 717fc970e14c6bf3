import QueryForest.Json.Decode

/-!
# Decoding records

A record is read from the members of an object, in any order, or from the
items of an array, in the order in which the fields are declared.  Members that
the record does not know are passed over.  Of several faults the one that comes
first in the text is reported; fields that are missing come after all of them.
-/

namespace QueryForest.Json

/-- The values that a record is read from, and the fault of leaving out a
field that it needs. -/
structure Source where
  members : List (String × Json)
  leftOut : String → Fault

/-- The names of the fields that a part of a record is read from, and how it
is read.  A fault comes with its place among the members. -/
structure Fields (Part : Type) where
  names : List String
  read : Source → Except (Nat × Fault) Part

def locate (key : String) : List (String × Json) → Option (Nat × Json)
  | [] => none
  | (other, value) :: tail =>
      if other = key then
        some (0, value)
      else
        (locate key tail).map fun (place, found) => (place + 1, found)

/-- The first member whose key is among the given ones and stood before. -/
def repeated? (keys before : List String) :
    List (String × Json) → Option (Nat × String)
  | [] => none
  | (key, _) :: tail =>
      if keys.contains key && before.contains key then
        some (0, key)
      else
        (repeated? keys (key :: before) tail).map fun (place, found) =>
          (place + 1, found)

namespace Fields

variable {Part Whole : Type}

/-- One field, with the value that it has when it is left out, if it may be. -/
def one (name : String) (decode : Json → Except Fault Part)
    (standard : Option Part) : Fields Part where
  names := [name]
  read source :=
    match locate name source.members, standard with
    | some (place, value), _ => (decode value).mapError fun fault => (place, fault)
    | none, some part => .ok part
    | none, none => .error (source.members.length, source.leftOut name)

def required (name : String) (decode : Json → Except Fault Part) : Fields Part :=
  one name decode none

def optional (name : String) (standard : Part)
    (decode : Json → Except Fault Part) : Fields Part :=
  one name decode (some standard)

def none (part : Part) : Fields Part where
  names := []
  read _ := .ok part

/-- Two parts, the fields of the first declared before those of the second.
Of two faults the one that comes first counts. -/
def and (first : Fields (Part → Whole)) (second : Fields Part) : Fields Whole where
  names := first.names ++ second.names
  read source :=
    match first.read source, second.read source with
    | .ok make, .ok part => .ok (make part)
    | .error fault, .ok _ => .error fault
    | .ok _, .error fault => .error fault
    | .error earlier, .error later =>
        .error (if later.1 < earlier.1 then later else earlier)

def map (make : Part → Whole) (part : Fields Part) : Fields Whole :=
  (none make).and part

/-- Read from the members of an object, where no key of the record may come
twice. -/
def ofMembers (fields : Fields Whole) (members : List (String × Json)) :
    Except Fault Whole :=
  let outcome := fields.read ⟨members, .missingField⟩
  match repeated? fields.names [] members, outcome with
  | some (place, key), .error (other, fault) =>
      .error (if other < place then fault else .duplicateField key)
  | some (_, key), .ok _ => .error (.duplicateField key)
  | Option.none, .error (_, fault) => .error fault
  | Option.none, .ok whole => .ok whole

/-- Read from the items of an array, of which there may not be more than
fields. -/
def ofItems (fields : Fields Whole) (items : List Json) : Except Fault Whole :=
  match fields.read ⟨fields.names.zip items, fun _ => .invalidLength⟩ with
  | .error (_, fault) => .error fault
  | .ok whole =>
      if fields.names.length < items.length then .error .invalidLength
      else .ok whole

def decode (fields : Fields Whole) : Json → Except Fault Whole
  | .object members => fields.ofMembers members
  | .array items => fields.ofItems items
  | _ => .error .invalidType

end Fields

end QueryForest.Json
