import QueryForest.Json.Token
import QueryForest.Json.Value

/-!
# Reading JSON

The reader takes one token after the other and keeps the containers that are
still open on a stack, so reading is plain recursion on the tokens.  An
observer sees every token together with the state in which the reader meets
it, and may end the reading with a fault of its own before the token is taken.
-/

namespace QueryForest.Json

/-- An open container whose next value is being read; what it holds already is
in reverse. -/
inductive Frame where
  | items (done : List Json)
  | members (done : List (String × Json)) (key : String)

/-- What the reader expects, inside the containers of a stack. -/
inductive State where
  | beforeValue (stack : List Frame)
  | firstItem (stack : List Frame)
  | afterItem (done : List Json) (stack : List Frame)
  | firstKey (stack : List Frame)
  | beforeKey (done : List (String × Json)) (stack : List Frame)
  | beforeColon (done : List (String × Json)) (key : String) (stack : List Frame)
  | afterMember (done : List (String × Json)) (stack : List Frame)

inductive Progress where
  | reading (state : State)
  | complete (value : Json)

namespace State

def nestingLimit : Nat := 127

/-- Put a complete value into the container that it was read for. -/
def settle (value : Json) : List Frame → Progress
  | [] => .complete value
  | .items done :: stack => .reading (.afterItem (value :: done) stack)
  | .members done key :: stack =>
      .reading (.afterMember ((key, value) :: done) stack)

def nest (stack : List Frame) (opened : State) : Option Progress :=
  if stack.length < nestingLimit then some (.reading opened) else none

def takeValue (stack : List Frame) : Token → Option Progress
  | .null => settle .null stack
  | .bool value => settle (.bool value) stack
  | .number numeral => settle (.number numeral) stack
  | .string text => settle (.string text) stack
  | .openArray => nest stack (.firstItem stack)
  | .openObject => nest stack (.firstKey stack)
  | _ => none

def take : State → Token → Option Progress
  | .beforeValue stack, token => takeValue stack token
  | .firstItem stack, .closeArray => settle (.array []) stack
  | .firstItem stack, token => takeValue (.items [] :: stack) token
  | .afterItem done stack, .comma => some (.reading (.beforeValue (.items done :: stack)))
  | .afterItem done stack, .closeArray => settle (.array done.reverse) stack
  | .firstKey stack, .closeObject => settle (.object []) stack
  | .firstKey stack, .string key => some (.reading (.beforeColon [] key stack))
  | .beforeKey done stack, .string key => some (.reading (.beforeColon done key stack))
  | .beforeColon done key stack, .colon =>
      some (.reading (.beforeValue (.members done key :: stack)))
  | .afterMember done stack, .comma => some (.reading (.beforeKey done stack))
  | .afterMember done stack, .closeObject => settle (.object done.reverse) stack
  | _, _ => none

end State

/-- Why a text is not read: it is not JSON, or the observer ended the
reading. -/
inductive ReadError (Fault : Type) where
  | malformed
  | stopped (fault : Fault)
  deriving DecidableEq, Repr

/-- A look at a token before it is taken, which may find a fault. -/
abbrev Observer (Fault : Type) :=
  State → Token → Option Fault

/-- Read one value; the result has the tokens behind it. -/
def readFrom {Fault : Type} (observer : Observer Fault) (state : State) :
    List Token → Except (ReadError Fault) (Json × List Token)
  | [] => .error .malformed
  | token :: rest =>
      match observer state token with
      | some fault => .error (.stopped fault)
      | none =>
          match state.take token with
          | none => .error .malformed
          | some (.complete value) => .ok (value, rest)
          | some (.reading next) => readFrom observer next rest

def readValue {Fault : Type} (observer : Observer Fault) (text : String) :
    Except (ReadError Fault) (Json × List Token) :=
  readFrom observer (.beforeValue []) (tokens text)

def parse? (text : String) : Option Json :=
  match readValue (fun _ _ => (none : Option Unit)) text with
  | .ok (value, []) => some value
  | _ => none

end QueryForest.Json
