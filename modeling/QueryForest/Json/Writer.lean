import QueryForest.Json.Value
import QueryForest.Text

namespace QueryForest.Json

def shortEscapes : List (Char × Char) :=
  [('"', '"'), ('\\', '\\'), ('\x08', 'b'), ('\x0c', 'f'), ('\n', 'n'),
    ('\r', 'r'), ('\t', 't')]

/-- A character inside a JSON string: quote, backslash and control characters
are escaped, all others stand for themselves. -/
def characterText (character : Char) : List Char :=
  match shortEscapes.lookup character with
  | some letter => ['\\', letter]
  | none =>
      if character.toNat < 0x20 then
        ['\\', 'u', '0', '0', Nat.digitChar (character.toNat / 16),
          Nat.digitChar (character.toNat % 16)]
      else
        [character]

def stringText (text : String) : String :=
  "\"" ++ String.ofList (text.toList.flatMap characterText) ++ "\""

/-- The blanks of a form: what stands before each item at a depth, before the
closing bracket, and after the colon of a member. -/
structure Spacing where
  beforeItem : Nat → String
  beforeClose : Nat → String
  afterColon : String

def Spacing.compact : Spacing where
  beforeItem _ := ""
  beforeClose _ := ""
  afterColon := ""

/-- A new line, indented for each container around it. -/
def lineAt (depth : Nat) : String :=
  "\n" ++ Text.indentation depth

def Spacing.pretty : Spacing where
  beforeItem depth := lineAt (depth + 1)
  beforeClose := lineAt
  afterColon := " "

/-- Items between brackets; without items nothing stands between them. -/
def enclose (spacing : Spacing) (depth : Nat) (opening closing : String)
    (items : List String) : String :=
  if items.isEmpty then
    opening ++ closing
  else
    opening
      ++ String.intercalate "," (items.map (spacing.beforeItem depth ++ ·))
      ++ spacing.beforeClose depth ++ closing

mutual

def write (spacing : Spacing) (depth : Nat) : Json → String
  | .null => "null"
  | .bool truth => Text.truthWord truth
  | .number numeral => String.ofList numeral.text
  | .string text => stringText text
  | .array items =>
      enclose spacing depth "[" "]" (writeItems spacing (depth + 1) items)
  | .object members =>
      enclose spacing depth "\x7b" "\x7d"
        (writeMembers spacing (depth + 1) members)
termination_by structural value => value

def writeItems (spacing : Spacing) (depth : Nat) : List Json → List String
  | [] => []
  | head :: tail => head.write spacing depth :: writeItems spacing depth tail
termination_by structural items => items

def writeMembers (spacing : Spacing) (depth : Nat) :
    List (String × Json) → List String
  | [] => []
  | head :: tail =>
      writeMember spacing depth head :: writeMembers spacing depth tail
termination_by structural members => members

def writeMember (spacing : Spacing) (depth : Nat) : String × Json → String
  | (key, value) =>
      stringText key ++ ":" ++ spacing.afterColon ++ value.write spacing depth
termination_by structural member => member

end

def compact (value : Json) : String :=
  value.write .compact 0

def pretty (value : Json) : String :=
  value.write .pretty 0

end QueryForest.Json
