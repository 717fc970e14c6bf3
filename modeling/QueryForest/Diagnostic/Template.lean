import QueryForest.Number.Digit

/-!
# Message templates

A template is a text with numbered placeholders in braces.  Filling passes
once over the template and never over the arguments, so an argument that
itself contains braces appears as it is.
-/

namespace QueryForest.Diagnostic

/-- A part of a template: text that stands for itself, or the place of an
argument. -/
inductive Piece where
  | text (content : String)
  | argument (index : Nat)
  deriving DecidableEq, Repr

namespace Piece

def written : Piece → List Char
  | .text content => content.toList
  | .argument index => '\x7b' :: Nat.toDigits 10 index ++ ['\x7d']

/-- A piece with its argument put in; without one the placeholder stays. -/
def filled (arguments : List String) : Piece → List Char
  | .text content => content.toList
  | .argument index =>
      match arguments[index]? with
      | some value => value.toList
      | none => written (.argument index)

end Piece

/-- What stands for a placeholder: the argument with the number between the
braces, or the placeholder itself when there is none. -/
def placeholderValue (arguments : List String) (name : List Char) : List Char :=
  match Number.natural? name >>= (arguments[·]?) with
  | some value => value.toList
  | none => '\x7b' :: name ++ ['\x7d']

/-- Fill the rest of a template, where a placeholder may be open with what has
been read of its name, in reverse.  One that is never closed stays. -/
def fillFrom (arguments : List String) (opened : Option (List Char)) :
    List Char → List Char
  | [] =>
      match opened with
      | none => []
      | some name => '\x7b' :: name.reverse
  | head :: tail =>
      match opened with
      | none =>
          if head = '\x7b' then
            fillFrom arguments (some []) tail
          else
            head :: fillFrom arguments none tail
      | some name =>
          if head = '\x7d' then
            placeholderValue arguments name.reverse
              ++ fillFrom arguments none tail
          else
            fillFrom arguments (some (head :: name)) tail

def fill (arguments : List String) (template : List Char) : List Char :=
  fillFrom arguments none template

end QueryForest.Diagnostic
