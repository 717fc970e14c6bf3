import Mathlib.Data.List.Forall2
import QueryForest.Proofs.Json.Lexing

namespace QueryForest.Json

open Lexer
open Number (Numeral)

mutual

def spelling : Json → List Token
  | .null => [.null]
  | .bool truth => [.bool truth]
  | .number numeral => [numeralToken numeral]
  | .string text => [.string text]
  | .array items =>
      .openArray :: ([.comma].intercalate (spellingOfItems items) ++ [.closeArray])
  | .object members =>
      .openObject :: ([.comma].intercalate (spellingOfMembers members) ++ [.closeObject])
termination_by structural value => value

def spellingOfItems : List Json → List (List Token)
  | [] => []
  | head :: tail => head.spelling :: spellingOfItems tail
termination_by structural items => items

def spellingOfMembers : List (String × Json) → List (List Token)
  | [] => []
  | head :: tail => spellingOfMember head :: spellingOfMembers tail
termination_by structural members => members

def spellingOfMember : String × Json → List Token
  | (key, value) => .string key :: .colon :: value.spelling
termination_by structural member => member

end

mutual

def numerals : Json → List Numeral
  | .number numeral => [numeral]
  | .array items => numeralsOfItems items
  | .object members => numeralsOfMembers members
  | .null | .bool _ | .string _ => []
termination_by structural value => value

def numeralsOfItems : List Json → List Numeral
  | [] => []
  | head :: tail => head.numerals ++ numeralsOfItems tail
termination_by structural items => items

def numeralsOfMembers : List (String × Json) → List Numeral
  | [] => []
  | head :: tail => numeralsOfMember head ++ numeralsOfMembers tail
termination_by structural members => members

def numeralsOfMember : String × Json → List Numeral
  | (_, value) => value.numerals
termination_by structural member => member

end

structure Spacing.IsBlank (spacing : Spacing) : Prop where
  beforeItem : ∀ depth, ∀ c ∈ (spacing.beforeItem depth).toList, isBlank c = true
  beforeClose : ∀ depth, ∀ c ∈ (spacing.beforeClose depth).toList, isBlank c = true
  afterColon : ∀ c ∈ spacing.afterColon.toList, isBlank c = true

theorem isBlank_of_mem_lineAt {depth : Nat} {character : Char}
    (member : character ∈ (lineAt depth).toList) : isBlank character = true := by
  simp only [lineAt, Text.indentation, String.toList_append, String.toList_ofList,
    List.mem_append, List.mem_replicate] at member
  rcases member with first | ⟨_, rfl⟩
  · have first : character = '\n' := by simpa using first
    rw [first]
    rfl
  · rfl

theorem Spacing.isBlank_pretty : Spacing.pretty.IsBlank where
  beforeItem _ _ := isBlank_of_mem_lineAt
  beforeClose _ _ := isBlank_of_mem_lineAt
  afterColon := by simp [pretty, isBlank]

theorem Lexer.delimited_blanks {blanks rest : List Char}
    (allBlank : ∀ c ∈ blanks, isBlank c = true) (delimited : Delimited rest) :
    Delimited (blanks ++ rest) := by
  cases blanks with
  | nil => exact delimited
  | cons head tail =>
      apply delimited_cons _
      simp only [delimits, allBlank head List.mem_cons_self, Bool.true_or]

/-- A text is read as some tokens where a delimiter follows it. -/
def Spells (text : String) (tokens : List Token) : Prop :=
  ∀ rest, Delimited rest →
    scan .blank (text.toList ++ rest) = tokens ++ scan .blank rest

namespace Spells

theorem blanks {blank text : String} {tokens : List Token}
    (allBlank : ∀ c ∈ blank.toList, isBlank c = true) (spells : Spells text tokens) :
    Spells (blank ++ text) tokens := by
  intro rest delimited
  rw [String.toList_append, List.append_assoc, scan_blanks allBlank, spells rest delimited]

theorem numeral {numeral : Numeral} (written : numeral.IsWritten) :
    Spells (String.ofList numeral.text) [numeralToken numeral] := by
  intro rest delimited
  rw [String.toList_ofList]
  exact scan_numeral written delimited

theorem string (text : String) : Spells (stringText text) [.string text] :=
  fun rest _ => scan_stringText text rest

theorem empty : Spells "" [] :=
  fun _ _ => rfl

theorem comma {text others : String} {tokens otherTokens : List Token}
    (first : Spells text tokens) (second : Spells others otherTokens) :
    Spells (text ++ "," ++ others) (tokens ++ [.comma] ++ otherTokens) := by
  intro rest delimited
  have separates : step .blank ',' = .emit .comma := rfl
  have written : (text ++ "," ++ others).toList ++ rest =
      text.toList ++ ',' :: (others.toList ++ rest) := by
    simp
  rw [written, first _ (delimited_cons _ rfl), scan_of_emit separates,
    second rest delimited, List.append_assoc, List.append_assoc]
  rfl

theorem intercalate {texts : List String} {tokens : List (List Token)}
    (each : List.Forall₂ Spells texts tokens) :
    Spells (String.intercalate "," texts) ([.comma].intercalate tokens) := by
  induction each with
  | nil => exact empty
  | cons first others inductionHypothesis =>
      cases others with
      | nil =>
          rw [String.intercalate_singleton, List.intercalate_singleton]
          exact first
      | cons second others =>
          rw [String.intercalate_cons_cons, List.intercalate_cons_cons]
          exact first.comma inductionHypothesis

/-- Items between brackets. -/
theorem enclose {spacing : Spacing} (blank : spacing.IsBlank) (depth : Nat)
    {opening closing : String} {openToken closeToken : Token}
    (opens : ∀ rest,
      scan .blank (opening.toList ++ rest) = openToken :: scan .blank rest)
    (closes : ∀ rest,
      scan .blank (closing.toList ++ rest) = closeToken :: scan .blank rest)
    (delimited : ∀ rest, Delimited (closing.toList ++ rest))
    {texts : List String} {tokens : List (List Token)}
    (each : List.Forall₂ Spells texts tokens) :
    Spells (enclose spacing depth opening closing texts)
      (openToken :: ([.comma].intercalate tokens ++ [closeToken])) := by
  intro rest _
  unfold Json.enclose
  cases each with
  | nil =>
      rw [List.isEmpty_nil, if_pos rfl, String.toList_append, List.append_assoc, opens,
        closes]
      rfl
  | @cons text first texts others spells restSpell =>
      have each : List.Forall₂ Spells (text :: texts) (first :: others) :=
        .cons spells restSpell
      have indented : List.Forall₂ Spells
          ((text :: texts).map (spacing.beforeItem depth ++ ·)) (first :: others) := by
        rw [List.forall₂_map_left_iff]
        exact each.imp fun _ _ => blanks (blank.beforeItem depth)
      have behind : Delimited
          ((spacing.beforeClose depth).toList ++ (closing.toList ++ rest)) :=
        delimited_blanks (blank.beforeClose depth) (delimited rest)
      rw [List.isEmpty_cons, if_neg Bool.false_ne_true]
      simp only [String.toList_append, List.append_assoc]
      rw [opens, intercalate indented _ behind, scan_blanks (blank.beforeClose depth),
        closes, List.cons_append, List.append_assoc]
      rfl

end Spells

/-! ## Writing values -/

theorem Spells.null : Spells "null" [.null] :=
  fun _ _ => rfl

theorem Spells.truthWord (truth : Bool) :
    Spells (Text.truthWord truth) [.bool truth] := by
  intro rest _
  cases truth with
  | false =>
      show scan .blank ('f' :: 'a' :: 'l' :: 's' :: 'e' :: rest) = _
      rfl
  | true => rfl

mutual

/-- A written value is read as its tokens. -/
theorem spells_write {spacing : Spacing} (blank : spacing.IsBlank) :
    (value : Json) → (∀ numeral ∈ value.numerals, numeral.IsWritten) → (depth : Nat) →
      Spells (value.write spacing depth) value.spelling
  | .null, _, _ => .null
  | .bool truth, _, _ => .truthWord truth
  | .number numeral, written, _ => .numeral (written numeral List.mem_cons_self)
  | .string text, _, _ => .string text
  | .array items, written, depth => by
      rw [write, spelling]
      refine .enclose blank depth ?_ ?_ ?_
        (spells_writeItems blank items written (depth + 1))
      · exact fun _ => rfl
      · exact fun _ => rfl
      · exact fun rest => delimited_cons rest rfl
  | .object members, written, depth => by
      rw [write, spelling]
      refine .enclose blank depth ?_ ?_ ?_
        (spells_writeMembers blank members written (depth + 1))
      · exact fun _ => rfl
      · exact fun _ => rfl
      · exact fun rest => delimited_cons rest rfl

theorem spells_writeItems {spacing : Spacing} (blank : spacing.IsBlank) :
    (items : List Json) → (∀ numeral ∈ numeralsOfItems items, numeral.IsWritten) →
      (depth : Nat) →
      List.Forall₂ Spells (writeItems spacing depth items) (spellingOfItems items)
  | [], _, _ => .nil
  | head :: tail, written, depth =>
      .cons
        (spells_write blank head
          (fun numeral member => written numeral (List.mem_append_left _ member)) depth)
        (spells_writeItems blank tail
          (fun numeral member => written numeral (List.mem_append_right _ member)) depth)

theorem spells_writeMembers {spacing : Spacing} (blank : spacing.IsBlank) :
    (members : List (String × Json)) →
      (∀ numeral ∈ numeralsOfMembers members, numeral.IsWritten) → (depth : Nat) →
      List.Forall₂ Spells (writeMembers spacing depth members)
        (spellingOfMembers members)
  | [], _, _ => .nil
  | head :: tail, written, depth =>
      .cons
        (spells_writeMember blank head
          (fun numeral member => written numeral (List.mem_append_left _ member)) depth)
        (spells_writeMembers blank tail
          (fun numeral member => written numeral (List.mem_append_right _ member)) depth)

theorem spells_writeMember {spacing : Spacing} (blank : spacing.IsBlank) :
    (member : String × Json) →
      (∀ numeral ∈ numeralsOfMember member, numeral.IsWritten) → (depth : Nat) →
      Spells (writeMember spacing depth member) (spellingOfMember member)
  | (key, value), written, depth => by
      intro rest delimited
      have separates : step .blank ':' = .emit .colon := rfl
      have colon : ":".toList = [':'] := rfl
      have valueSpells := spells_write blank value written depth
      rw [writeMember, spellingOfMember]
      simp only [String.toList_append, List.append_assoc]
      rw [scan_stringText, colon, List.singleton_append, scan_of_emit separates,
        scan_blanks blank.afterColon, valueSpells rest delimited]
      rfl

end

/-- The tokens of a written value, with blanks behind it. -/
theorem tokens_write {spacing : Spacing} (blank : spacing.IsBlank) {value : Json}
    (written : ∀ numeral ∈ value.numerals, numeral.IsWritten) {ending : String}
    (blankEnding : ∀ c ∈ ending.toList, isBlank c = true) :
    tokens (value.write spacing 0 ++ ending) = value.spelling := by
  have delimited := delimited_blanks blankEnding delimited_nil
  have nothing : scan .blank (ending.toList ++ []) = [] :=
    scan_blanks blankEnding []
  rw [List.append_nil] at delimited nothing
  rw [tokens, String.toList_append, spells_write blank value written 0 _ delimited,
    nothing, List.append_nil]

end QueryForest.Json
