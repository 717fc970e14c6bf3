import QueryForest.Compile.Standard
import QueryForest.Proofs.Number.Plain
import QueryForest.Text

/-!
# Reading query syntax

A reader of the query syntax that makes queries at once.  A stretch of text is
read to its meaning, which is a query once it is known in which field the
stretch stands: only a term right inside a proximity group takes over the field
of the group.  Clauses with a sign keep it until they are joined, and a junction
of one clause that is not negated is this clause.
-/

namespace QueryForest

/-- The boolean query of some clauses, but one clause that has to match or may
match stands for itself. -/
def Query.joined : List (Occurrence × Query) → Query
  | [(.must, query)] | [(.should, query)] => query
  | clauses => .boolean clauses

mutual

/-- A query in which no boolean query has a single clause that has to match or
may match. -/
def Query.collapsed : Query → Query
  | .boolean clauses => .joined (collapsedClauses clauses)
  | .near clauses nearness inOrder => .near (collapsedAll clauses) nearness inOrder
  | .boost query factor => .boost query.collapsed factor
  | .term single => .term single
  | .phrase terms slop => .phrase terms slop
  | .multiPhrase steps slop => .multiPhrase steps slop
  | .fuzzy single maxEdits exactStart => .fuzzy single maxEdits exactStart
  | .matchAll => .matchAll
  | .matchNone => .matchNone
termination_by structural query => query

def Query.collapsedClauses : List (Occurrence × Query) → List (Occurrence × Query)
  | [] => []
  | head :: tail => Query.collapsedClause head :: Query.collapsedClauses tail
termination_by structural clauses => clauses

def Query.collapsedClause : Occurrence × Query → Occurrence × Query
  | (occurrence, query) => (occurrence, query.collapsed)
termination_by structural clause => clause

def Query.collapsedAll : List Query → List Query
  | [] => []
  | head :: tail => head.collapsed :: Query.collapsedAll tail
termination_by structural queries => queries

end

namespace QueryReader

open Number (Digit Single ofDigits)
open Text (isSpecial unescape)

/-- What stands before the next character of a class, or before the end; a
backslash protects the character behind it. -/
def cut (stops : Char → Bool) : List Char → List Char × List Char
  | '\\' :: escaped :: rest =>
      let (before, behind) := cut stops rest
      ('\\' :: escaped :: before, behind)
  | head :: rest =>
      if stops head then
        ([], head :: rest)
      else
        let (before, behind) := cut stops rest
        (head :: before, behind)
  | [] => ([], [])

def split (separator : Char) : List Char → List (List Char)
  | '\\' :: escaped :: rest => (split separator rest).modifyHead ('\\' :: escaped :: ·)
  | head :: rest =>
      if head = separator then
        [] :: split separator rest
      else
        (split separator rest).modifyHead (head :: ·)
  | [] => [[]]

def behind? (text : String) (chars : List Char) : Option (List Char) :=
  text.toList.isPrefixOf? chars

def word (chars : List Char) : String × List Char :=
  let (raw, rest) := cut isSpecial chars
  (String.ofList (unescape raw), rest)

/-- A keyword at the front, unless it is the name of a field. -/
def keyword? (name : String) (chars : List Char) : Option (List Char) :=
  let (found, rest) := word chars
  if found = name ∧ rest.head? ≠ some ':' then some rest else none

/-- A number goes on up to one of these characters. -/
def endsNumber (character : Char) : Bool :=
  [' ', ')', '^', '~'].contains character

def natural (digits : List Char) : Nat :=
  ofDigits (digits.filterMap Digit.ofChar?)

/-- What a stretch of query syntax means in a field, or in none. -/
abbrev Meaning := Option String → Query

structure Clause where
  sign : Option Occurrence
  meaning : Meaning

/-- Reading a stretch at the front of a text. -/
abbrev Reading (Result : Type) := List Char → Option (Result × List Char)

variable (options : CompileOptions)

/-- A term in its own field or else in the one around it. -/
def termIn (field around : Option String) (text : String) : FieldTerm :=
  ⟨options.resolve (field.or around), text⟩

/-- A text in quotes is a term, or a phrase if there are blanks in it. -/
def quotedMeaning (field : Option String) (text : List Char) : Meaning :=
  match text.splitOn ' ' with
  | [single] => fun around => .term (termIn options field around (String.ofList single))
  | words => fun _ =>
      .phrase (words.mapIdx fun index single =>
        (termIn options field none (String.ofList single), UInt32.ofNat (index + 1))) 0

/-- The slots of a phrase in braces: a question mark is an empty one. -/
def bracedMeaning (field : Option String) (raw : List Char) : Meaning := fun _ =>
  .multiPhrase ((split ' ' raw).zipIdx.filterMap fun (slot, index) =>
    if slot = ['?'] then
      none
    else
      some ⟨UInt32.ofNat (index + 1), (split '|' slot).map fun single =>
        termIn options field none (String.ofList (unescape single))⟩) 0

def fuzzyMeaning (field : Option String) (text : String) (similarity : List Char) : Meaning :=
  fun around => .fuzzy (termIn options field around text)
    (UInt32.ofNat (Standard.editsAllowed (Single.ofText similarity) text.length)) 0

/-- What a clause without a sign contributes to a junction. -/
def unsignedOccurrence : Operator → Occurrence
  | .conjunction => .must
  | .implicit | .disjunction => .should

def junctionQuery (operator : Operator) (clauses : List Clause) : Query :=
  .joined (clauses.map fun clause =>
    (clause.sign.getD (unsignedOccurrence operator), clause.meaning none))

/-! ## The grammar -/

def separator? (chars : List Char) : Option (Operator × List Char) :=
  match behind? " AND " chars, behind? " OR " chars, behind? " )" chars with
  | some rest, _, _ => some (.conjunction, rest)
  | none, some rest, _ => some (.disjunction, rest)
  | none, none, some _ => none
  | none, none, none => (behind? " " chars).map (.implicit, ·)

/-- Further clauses behind the same operator, less than a number of them. -/
def others (clause : Reading Clause) (operator : Operator) :
    Nat → Reading (List Clause)
  | 0, _ => none
  | count + 1, chars =>
      match separator? chars with
      | none => some ([], chars)
      | some (found, rest) =>
          if found = operator then do
            let (first, rest) ← clause rest
            let (more, rest) ← others clause operator count rest
            return (first :: more, rest)
          else
            none

def junction (clause : Reading Clause) (count : Nat) :
    Reading (Operator × List Clause) := fun chars => do
  let (first, rest) ← clause chars
  match separator? rest with
  | none => return ((.implicit, [first]), rest)
  | some (operator, _) =>
      let (more, rest) ← others clause operator count rest
      return ((operator, first :: more), rest)

/-- The clauses of a group, up to its closing parenthesis. -/
def grouped (clause : Reading Clause) (count : Nat) :
    Reading (Operator × List Clause) := fun chars => do
  let (joined, rest) ←
    if chars.head? = some ' ' then some ((.implicit, []), chars) else junction clause count chars
  return (joined, ← behind? " )" rest)

def reach? : Reading Nearness := fun chars =>
  match behind? " PARAGRAPH" chars, behind? " SENTENCE" chars with
  | some rest, _ => some (.paragraph, rest)
  | none, some rest => some (.sentence, rest)
  | none, none => do
      let rest ← behind? " " chars
      let digits := rest.takeWhile (!endsNumber ·)
      return (.words (UInt32.ofNat (natural digits)), rest.dropWhile (!endsNumber ·))

/-- What a proximity group asks for behind its closing parenthesis. -/
def nearness? : Reading (Nearness × Bool) := fun chars => do
  let rest ← keyword? "WITHIN" (← behind? " " chars)
  let (nearness, rest) ← reach? rest
  match behind? " " rest >>= keyword? "INORDER" with
  | some rest => return ((nearness, true), rest)
  | none => return ((nearness, false), rest)

def body (clause : Reading Clause) (count : Nat) (field : Option String) :
    Reading Meaning := fun chars =>
  match chars.head? with
  | some '"' =>
      match cut (· = '"') chars.tail with
      | (raw, _ :: rest) => some (quotedMeaning options field (unescape raw), rest)
      | (_, []) => none
  | some '\x7b' =>
      match cut (· = '\x7d') chars.tail with
      | (raw, _ :: rest) => some (bracedMeaning options field raw, rest)
      | (_, []) => none
  | some '(' => do
      let ((_, clauses), rest) ← grouped clause count (← behind? "(( " chars)
      let ((nearness, inOrder), rest) ← nearness? rest
      return (fun _ => .near (clauses.map (·.meaning field)) nearness inOrder,
        ← behind? ")" rest)
  | _ =>
      let (text, rest) := word chars
      if rest.head? = some '~' then
        some (fuzzyMeaning options field text (rest.tail.takeWhile (!endsNumber ·)),
          rest.tail.dropWhile (!endsNumber ·))
      else
        some (fun around => .term (termIn options field around text), rest)

/-- What a clause is made of, apart from sign and suffixes. -/
def atom (clause : Reading Clause) (count : Nat) : Reading Meaning := fun chars =>
  match chars.head? with
  | some '*' => do return (fun _ => .matchAll, ← behind? "*:*" chars)
  | some '(' =>
      match behind? "( " chars with
      | some rest => do
          let ((operator, clauses), rest) ← grouped clause count rest
          match nearness? rest with
          | some ((nearness, inOrder), rest) =>
              return (fun _ => .near (clauses.map (·.meaning none)) nearness inOrder, rest)
          | none => return (fun _ => junctionQuery operator clauses, rest)
      | none => do
          let (inner, rest) ← clause chars.tail
          return (fun _ => inner.meaning none, ← behind? ")" rest)
  | _ =>
      let (name, rest) := word chars
      if rest.head? = some ':' then
        body options clause count (some name) rest.tail
      else
        body options clause count none chars

def suffixed (meaning : Meaning) (chars : List Char) : Meaning × List Char :=
  match chars with
  | '^' :: rest =>
      suffixed (fun _ => .boost (meaning none)
        (Single.ofText (rest.takeWhile (!endsNumber ·)))) (rest.dropWhile (!endsNumber ·))
  | '~' :: rest =>
      suffixed (fun _ => Standard.withSlop
        (UInt32.ofNat (natural (rest.takeWhile (!endsNumber ·)))) (meaning none))
        (rest.dropWhile (!endsNumber ·))
  | _ => (meaning, chars)
termination_by chars.length
decreasing_by
  all_goals exact Nat.lt_succ_of_le (List.length_dropWhile_le _ _)

def unit (clause : Reading Clause) (count : Nat) : Reading Meaning := fun chars => do
  let (meaning, rest) ← atom options clause count chars
  return suffixed meaning rest

def sign? (chars : List Char) : Option (Occurrence × List Char) :=
  match behind? "+" chars, behind? "-" chars, behind? "NOT " chars with
  | some rest, _, _ => some (.must, rest)
  | none, some rest, _ => some (.mustNot, rest)
  | none, none, some rest => some (.mustNot, rest)
  | none, none, none => none

def signed (clause : Reading Clause) (count : Nat) : Reading Clause := fun chars =>
  match sign? chars with
  | some (sign, rest) => do
      let (meaning, rest) ← unit options clause count rest
      return (⟨some sign, fun _ => meaning none⟩, rest)
  | none => do
      let (meaning, rest) ← unit options clause count chars
      return (⟨none, meaning⟩, rest)

/-- A clause that nests less than a depth. -/
def clauseWithin : Nat → Reading Clause
  | 0 => fun _ => none
  | depth + 1 => signed options (clauseWithin depth) depth

/-- The query that a text shows, down to a depth. -/
def read (depth : Nat) (text : String) : Option Query := do
  let ((operator, clauses), rest) ← junction (clauseWithin options depth) depth text.toList
  if rest.isEmpty then some (junctionQuery operator clauses) else none

end QueryReader

end QueryForest
