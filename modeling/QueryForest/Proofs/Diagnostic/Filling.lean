import QueryForest.Diagnostic.Basic

/-!
# Placeholders are filled once

Filling goes over a template once: what stands between placeholders stays, a placeholder
gives way to its argument, and what is put in is not read again.  So however a template
is read as pieces, its message is made of the pieces, each filled on its own.
-/

namespace QueryForest.Diagnostic

/-- A piece that is read as it is meant: its text opens no placeholder, and its number
fits 64 bits. -/
def Piece.IsPlain : Piece → Prop
  | .text content => '\x7b' ∉ content.toList
  | .argument index => index < 0x10000000000000000

instance : DecidablePred Piece.IsPlain
  | .text content => inferInstanceAs (Decidable ('\x7b' ∉ content.toList))
  | .argument index => inferInstanceAs (Decidable (index < 0x10000000000000000))

/-- Pieces that a template can be read as. -/
structure Spells (pieces : List Piece) (template : List Char) : Prop where
  written : pieces.flatMap Piece.written = template
  plain : ∀ piece ∈ pieces, piece.IsPlain

variable (arguments : List String)

theorem fill_append_of_not_mem {text : List Char} (plain : '\x7b' ∉ text) (rest : List Char) :
    fill arguments (text ++ rest) = text ++ fill arguments rest := by
  induction text with
  | nil => rfl
  | cons head tail inductionHypothesis =>
      rw [List.mem_cons, not_or] at plain
      rw [List.cons_append, fill, fillFrom, if_neg (Ne.symm plain.1), ← fill,
        inductionHypothesis plain.2, List.cons_append]

/-- An open placeholder is read up to its closing brace. -/
theorem fillFrom_some_append {name : List Char} (closed : '\x7d' ∉ name) (read rest : List Char) :
    fillFrom arguments (some read) (name ++ '\x7d' :: rest) =
      placeholderValue arguments (read.reverse ++ name) ++ fill arguments rest := by
  induction name generalizing read with
  | nil => rw [List.nil_append, fillFrom, if_pos rfl, List.append_nil, fill]
  | cons head tail inductionHypothesis =>
      rw [List.mem_cons, not_or] at closed
      rw [List.cons_append, fillFrom, if_neg (Ne.symm closed.1), inductionHypothesis closed.2,
        List.reverse_cons, List.append_assoc, List.singleton_append]

theorem fill_placeholder {name : List Char} (closed : '\x7d' ∉ name) (rest : List Char) :
    fill arguments ('\x7b' :: name ++ '\x7d' :: rest) =
      placeholderValue arguments name ++ fill arguments rest := by
  rw [List.cons_append, fill, fillFrom, if_pos rfl, fillFrom_some_append arguments closed,
    List.reverse_nil, List.nil_append]

theorem placeholderValue_toDigits {index : Nat} (small : index < 0x10000000000000000) :
    placeholderValue arguments (Nat.toDigits 10 index) =
      Piece.filled arguments (.argument index) := by
  rw [placeholderValue, Number.natural?_toDigits small, Option.bind_eq_bind, Option.bind_some,
    Piece.filled]
  rfl

/-- One piece is filled, and the rest is filled apart from it. -/
theorem fill_written_append {piece : Piece} (plain : piece.IsPlain) (rest : List Char) :
    fill arguments (piece.written ++ rest) = piece.filled arguments ++ fill arguments rest := by
  cases piece with
  | text content => exact fill_append_of_not_mem arguments plain rest
  | argument index =>
      have closed : '\x7d' ∉ Nat.toDigits 10 index := by
        intro member
        have digit := Nat.isDigit_of_mem_toDigits (by decide) (by decide) member
        cases digit
      rw [Piece.written, List.append_assoc, List.singleton_append, fill_placeholder arguments closed,
        placeholderValue_toDigits arguments plain]

/-- Filling a template fills its pieces. -/
theorem Spells.fill_eq {pieces : List Piece} {template : List Char}
    (spells : Spells pieces template) :
    fill arguments template = pieces.flatMap (Piece.filled arguments) := by
  obtain ⟨rfl, plain⟩ := spells
  induction pieces with
  | nil => rfl
  | cons piece rest inductionHypothesis =>
      obtain ⟨ofPiece, ofRest⟩ := List.forall_mem_cons.mp plain
      rw [List.flatMap_cons, fill_written_append arguments ofPiece, inductionHypothesis ofRest,
        List.flatMap_cons]

theorem spells_pieces (code : Code) : Spells code.pieces code.template where
  written := rfl
  plain := by cases code <;> decide

/-- The message of a code is its template with every placeholder replaced by the argument
of its number, as it is, or left where there is no such argument.  This is so however the
template is read as texts and placeholders, and it can be read so. -/
theorem placeholders_are_filled_once (code : Code) :
    Spells code.pieces code.template ∧
    ∀ pieces, Spells pieces code.template → ∀ arguments : List String,
      (Diagnostic.mk code arguments).message.toList =
        pieces.flatMap (Piece.filled arguments) ∧
      ∀ before index behind, pieces = before ++ .argument index :: behind →
        (∀ value, arguments[index]? = some value →
          (Diagnostic.mk code arguments).message.toList =
            before.flatMap (Piece.filled arguments) ++ value.toList ++
              behind.flatMap (Piece.filled arguments)) ∧
        (arguments[index]? = none →
          (Diagnostic.mk code arguments).message.toList =
            before.flatMap (Piece.filled arguments) ++ (Piece.argument index).written ++
              behind.flatMap (Piece.filled arguments)) := by
  refine ⟨spells_pieces code, fun pieces spells arguments => ?_⟩
  have filled : (Diagnostic.mk code arguments).message.toList =
      pieces.flatMap (Piece.filled arguments) := by
    rw [message, String.toList_ofList, spells.fill_eq]
  refine ⟨filled, ?_⟩
  rintro before index behind rfl
  rw [List.flatMap_append, List.flatMap_cons, ← List.append_assoc] at filled
  constructor
  · intro value given
    rw [filled, Piece.filled, given]
  · intro missing
    rw [filled, Piece.filled, missing]

/-- Arguments that look like placeholders, the last of three missing. -/
def bracedArguments : List String :=
  ["\x7b1\x7d", "\x7ba,\x7b0\x7d"]

theorem placeholders_are_filled_once_braces :
    Spells Code.unexpectedArtifact.pieces Code.unexpectedArtifact.template ∧
      Code.unexpectedArtifact.pieces =
        [.text "`", .argument 0, .text "` builder expected a "] ++ .argument 1 ::
          [.text " artifact, found ", .argument 2] ∧
      bracedArguments[1]? = some "\x7ba,\x7b0\x7d" ∧
      (Diagnostic.mk .unexpectedArtifact bracedArguments).message.toList =
        "`\x7b1\x7d` builder expected a ".toList ++ "\x7ba,\x7b0\x7d".toList ++
          " artifact, found \x7b2\x7d".toList := by
  obtain ⟨spells, filled⟩ := placeholders_are_filled_once .unexpectedArtifact
  have read : Code.unexpectedArtifact.pieces =
      [.text "`", .argument 0, .text "` builder expected a "] ++ .argument 1 ::
        [.text " artifact, found ", .argument 2] := rfl
  have message := ((filled _ spells bracedArguments).2 _ _ _ read).1 _ rfl
  exact ⟨spells, read, rfl, message⟩

end QueryForest.Diagnostic
