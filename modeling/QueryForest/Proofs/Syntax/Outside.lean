import QueryForest.Proofs.Syntax.Escapes

/-!
# Outside of quotes and brackets

A reader that counts the open brackets knows where a text is outside of them.  There the
text falls into words, which are separated by bare blanks, and into the parts between
the places of a separator.  Clauses that have no operator among their words are the
parts of what they are joined to.
-/

namespace QueryForest

namespace Text

/-- Where a reader stands, and how many brackets are open around it. -/
structure Place where
  standing : Standing := {}
  depth : Nat := 0
  deriving DecidableEq

def depthBehind (depth : Nat) (mark : Char) : Nat :=
  if mark = '(' ∨ mark = '\x7b' then depth + 1
  else if mark = ')' ∨ mark = '\x7d' then depth - 1
  else depth

namespace Place

def next (place : Place) (character : Char) : Place where
  standing := place.standing.next character
  depth :=
    if place.standing.marks character then depthBehind place.depth character else place.depth

def after (place : Place) (text : List Char) : Place :=
  text.foldl next place

/-- No blank of a text is bare and outside of brackets. -/
def Unspaced (place : Place) : List Char → Prop
  | [] => True
  | head :: tail => (place = {} → head ≠ ' ') ∧ (place.next head).Unspaced tail

/-- Whether a text has such a blank is found by reading it. -/
instance decidableUnspaced : (place : Place) → (text : List Char) → Decidable (place.Unspaced text)
  | _, [] => .isTrue trivial
  | place, head :: tail =>
      have := decidableUnspaced (place.next head) tail
      inferInstanceAs (Decidable ((place = {} → head ≠ ' ') ∧ (place.next head).Unspaced tail))

variable (place : Place)

@[simp]
theorem after_nil : place.after [] = place :=
  rfl

@[simp]
theorem after_cons (head : Char) (tail : List Char) :
    place.after (head :: tail) = (place.next head).after tail :=
  rfl

@[simp]
theorem after_append (first second : List Char) :
    place.after (first ++ second) = (place.after first).after second :=
  List.foldl_append ..

theorem unspaced_append {first second : List Char} :
    place.Unspaced (first ++ second) ↔
      place.Unspaced first ∧ (place.after first).Unspaced second := by
  induction first generalizing place with
  | nil => simp [Unspaced]
  | cons head tail inductionHypothesis =>
      rw [List.cons_append, Unspaced, Unspaced, inductionHypothesis, and_assoc, after_cons]

end Place

/-- The depth counts the brackets that are waited for. -/
theorem depthBehind_of_bracket {awaited rest : List Char} {mark : Char}
    (done : bracket awaited mark = some rest) (around : Nat) :
    depthBehind (around + awaited.length) mark = around + rest.length := by
  unfold bracket at done
  unfold depthBehind
  split at done
  · next round =>
      cases done
      rw [if_pos (.inl round), List.length_cons, Nat.add_assoc]
  · next notRound =>
      split at done
      · next curly =>
          cases done
          rw [if_pos (.inr curly), List.length_cons, Nat.add_assoc]
      · next notCurly =>
          rw [if_neg (not_or.mpr ⟨notRound, notCurly⟩)]
          split at done
          · next closing =>
              rw [if_pos closing]
              cases awaited with
              | nil => cases done
              | cons head tail =>
                  split at done
                  · cases done
                    rw [List.length_cons, List.tail_cons]
                    omega
                  · cases done
          · next plain =>
              cases done
              rw [if_neg plain]

/-- A text that closes its own brackets leaves those around it open, and in them it has no
blank that is outside of brackets. -/
theorem after_of_brackets {standing : Standing} {text awaited rest : List Char}
    (done : brackets awaited (standing.bareMarks text) = some rest) (around : Nat) :
    Place.after ⟨standing, around + awaited.length⟩ text =
        ⟨standing.after text, around + rest.length⟩ ∧
      (around ≠ 0 → Place.Unspaced ⟨standing, around + awaited.length⟩ text) := by
  -- The brackets around the text lie below those that it opens, so its own are closed first.
  induction text generalizing standing awaited with
  | nil =>
      cases done
      simp [Place.Unspaced]
  | cons head tail inductionHypothesis =>
      have inside : around ≠ 0 →
          (⟨standing, around + awaited.length⟩ : Place) = {} → head ≠ ' ' := by
        intro positive outside
        have none : around + awaited.length = 0 := congrArg Place.depth outside
        omega
      rw [Place.after_cons, Place.Unspaced, Place.next, Standing.after_cons]
      rw [Standing.bareMarks] at done
      split at done
      · next marked =>
          rw [brackets, List.foldlM_cons] at done
          obtain ⟨inner, first, later⟩ := Option.bind_eq_some_iff.mp done
          rw [if_pos marked, depthBehind_of_bracket first]
          obtain ⟨behind, hidden⟩ := inductionHypothesis later
          exact ⟨behind, fun positive => ⟨inside positive, hidden positive⟩⟩
      · next unmarked =>
          rw [if_neg unmarked]
          obtain ⟨behind, hidden⟩ := inductionHypothesis done
          exact ⟨behind, fun positive => ⟨inside positive, hidden positive⟩⟩

/-- A text without bare blanks has none outside of brackets. -/
theorem unspaced_of_not_mem {place : Place} {text : List Char}
    (unmarked : ' ' ∉ place.standing.bareMarks text) : place.Unspaced text := by
  induction text generalizing place with
  | nil => trivial
  | cons head tail inductionHypothesis =>
      rw [Standing.bareMarks] at unmarked
      constructor
      · rintro rfl rfl
        rw [if_pos (by decide)] at unmarked
        exact unmarked List.mem_cons_self
      · apply inductionHypothesis
        intro member
        split at unmarked
        · exact unmarked (List.mem_cons_of_mem head member)
        · exact unmarked member

/-! ## Words -/

/-- A text that ends where it begins, outside of quotes and brackets, without a bare blank
there. -/
structure IsOuterWord (text : List Char) : Prop where
  ends : Place.after {} text = {}
  unspaced : Place.Unspaced {} text

instance (text : List Char) : Decidable (IsOuterWord text) :=
  decidable_of_iff (Place.after {} text = {} ∧ Place.Unspaced {} text)
    ⟨fun both => ⟨both.1, both.2⟩, fun word => ⟨word.ends, word.unspaced⟩⟩

namespace IsOuterWord

variable {text other : List Char}

theorem append (word : IsOuterWord text) (later : IsOuterWord other) :
    IsOuterWord (text ++ other) where
  ends := by rw [Place.after_append, word.ends, later.ends]
  unspaced := by
    rw [Place.unspaced_append, word.ends]
    exact ⟨word.unspaced, later.unspaced⟩

theorem of_isBalanced (balanced : IsBalanced text) (unmarked : ' ' ∉ Standing.bareMarks {} text) :
    IsOuterWord text where
  ends := by
    have closed := (after_of_brackets balanced.closes 0).1
    rwa [balanced.ends] at closed
  unspaced := unspaced_of_not_mem unmarked

/-- So is a balanced text in brackets. -/
theorem enclosed (balanced : IsBalanced text) {opening closing : Char}
    (pair : (opening, closing) ∈ [('(', ')'), ('\x7b', '\x7d')]) :
    IsOuterWord (opening :: (text ++ [closing])) := by
  obtain ⟨inside, hidden⟩ := after_of_brackets balanced.closes 1
  rw [balanced.ends] at inside
  have opens : Place.next {} opening = ⟨{}, 1⟩ ∧ opening ≠ ' ' ∧
      Place.next ⟨{}, 1⟩ closing = {} := by
    simp only [List.mem_cons, Prod.mk.injEq, List.not_mem_nil, or_false] at pair
    rcases pair with ⟨rfl, rfl⟩ | ⟨rfl, rfl⟩ <;> decide
  constructor
  · rw [Place.after_cons, opens.1, Place.after_append]
    exact (congrArg (Place.after · [closing]) inside).trans opens.2.2
  · refine ⟨fun _ => opens.2.1, ?_⟩
    rw [opens.1, Place.unspaced_append]
    refine ⟨hidden Nat.one_ne_zero, ?_⟩
    rw [show Place.after ⟨{}, 1⟩ text = ⟨{}, 1⟩ from inside]
    exact ⟨fun outside => absurd outside (by decide), trivial⟩

end IsOuterWord

/-- Words that are separated by single bare blanks, none of which is reserved. -/
inductive IsOuterText (reserved : List (List Char)) : List Char → Prop
  | word {text : List Char} : IsOuterWord text → text ∉ reserved → IsOuterText reserved text
  | cons {text rest : List Char} : IsOuterWord text → text ∉ reserved →
      IsOuterText reserved rest → IsOuterText reserved (text ++ ' ' :: rest)

namespace IsOuterText

variable {reserved : List (List Char)} {text other : List Char}

theorem append (first : IsOuterText reserved text) (second : IsOuterText reserved other) :
    IsOuterText reserved (text ++ ' ' :: other) := by
  induction first with
  | word isWord free => exact .cons isWord free second
  | cons isWord free _ inductionHypothesis =>
      rw [List.append_assoc, List.cons_append]
      exact .cons isWord free inductionHypothesis

theorem mono {others : List (List Char)} (outer : IsOuterText reserved text)
    (fewer : ∀ word ∈ others, word ∈ reserved) : IsOuterText others text := by
  induction outer with
  | word isWord free => exact .word isWord fun member => free (fewer _ member)
  | cons isWord free _ inductionHypothesis =>
      exact .cons isWord (fun member => free (fewer _ member)) inductionHypothesis

/-- A text is unlike all words with a character that none of them has. -/
def IsUnlike (reserved : List (List Char)) (text : List Char) : Prop :=
  ∃ character ∈ text, ∀ word ∈ reserved, character ∉ word

instance (reserved : List (List Char)) (text : List Char) : Decidable (IsUnlike reserved text) :=
  List.decidableBEx _ text

theorem IsUnlike.not_mem (unlike : IsUnlike reserved text) : text ∉ reserved := by
  obtain ⟨character, member, foreign⟩ := unlike
  exact fun listed => foreign text listed member

theorem IsUnlike.append_left (unlike : IsUnlike reserved text) (later : List Char) :
    IsUnlike reserved (text ++ later) := by
  obtain ⟨character, member, foreign⟩ := unlike
  exact ⟨character, List.mem_append_left later member, foreign⟩

theorem IsUnlike.append_right (unlike : IsUnlike reserved text) (earlier : List Char) :
    IsUnlike reserved (earlier ++ text) := by
  obtain ⟨character, member, foreign⟩ := unlike
  exact ⟨character, List.mem_append_right earlier member, foreign⟩

theorem before (outer : IsOuterText reserved text) (isWord : IsOuterWord other)
    (unlike : IsUnlike reserved other) : IsOuterText reserved (other ++ text) := by
  cases outer with
  | word ofText _ => exact .word (isWord.append ofText) (unlike.append_left _).not_mem
  | cons ofText _ rest =>
      rw [← List.append_assoc]
      exact .cons (isWord.append ofText) (unlike.append_left _).not_mem rest

theorem behind (outer : IsOuterText reserved text) (isWord : IsOuterWord other)
    (unlike : IsUnlike reserved other) : IsOuterText reserved (text ++ other) := by
  induction outer with
  | word ofText _ => exact .word (ofText.append isWord) (unlike.append_right _).not_mem
  | cons ofText free _ inductionHypothesis =>
      rw [List.append_assoc, List.cons_append]
      exact .cons ofText free inductionHypothesis

end IsOuterText

def outerPartsFrom (separator : List Char) : Place → Nat → List Char → List (List Char)
  | _, _, [] => [[]]
  | place, left + 1, _ :: tail => outerPartsFrom separator place left tail
  | place, 0, head :: tail =>
      if place = {} ∧ separator.isPrefixOf (head :: tail) then
        [] :: outerPartsFrom separator place (separator.length - 1) tail
      else
        (outerPartsFrom separator (place.next head) 0 tail).modifyHead (head :: ·)

/-- The parts of a text between the places of a separator outside of quotes and
brackets. -/
def outerParts (separator text : List Char) : List (List Char) :=
  outerPartsFrom separator {} 0 text

def spaced (word : List Char) : List Char :=
  ' ' :: (word ++ [' '])

/-- A text without blanks outside of quotes and brackets stays in one part. -/
theorem outerPartsFrom_of_unspaced (following : List Char) {place : Place} {text : List Char}
    (unspaced : place.Unspaced text) (rest : List Char) :
    outerPartsFrom (' ' :: following) place 0 (text ++ rest) =
      (outerPartsFrom (' ' :: following) (place.after text) 0 rest).modifyHead (text ++ ·) := by
  induction text generalizing place with
  | nil =>
      rw [List.nil_append, Place.after_nil]
      generalize outerPartsFrom (' ' :: following) place 0 rest = parts
      cases parts <;> rfl
  | cons head tail inductionHypothesis =>
      have goes : ¬ (place = {} ∧
          (' ' :: following).isPrefixOf (head :: (tail ++ rest)) = true) := by
        rintro ⟨outside, found⟩
        rw [List.isPrefixOf_cons_cons, Bool.and_eq_true, beq_iff_eq] at found
        exact unspaced.1 outside found.1.symm
      rw [List.cons_append, outerPartsFrom, if_neg goes, inductionHypothesis unspaced.2,
        List.modifyHead_modifyHead]
      rfl

theorem outerPartsFrom_append (separator : List Char) (place : Place) (found rest : List Char) :
    outerPartsFrom separator place found.length (found ++ rest) =
      outerPartsFrom separator place 0 rest := by
  induction found with
  | nil => rfl
  | cons head tail inductionHypothesis =>
      rw [List.length_cons, List.cons_append, outerPartsFrom, inductionHypothesis]

/-- A plain word has no blanks, and outside of quotes and brackets the reader stays there. -/
structure IsPlainWord (word : List Char) : Prop where
  outer : IsOuterWord word
  solid : ' ' ∉ word

/-- Where another word stands, a plain word with a blank behind it does not. -/
theorem IsPlainWord.not_prefix {word text rest : List Char} (plain : IsPlainWord word)
    (isWord : IsOuterWord text) (other : text ≠ word)
    (ends : ∀ character ∈ rest.head?, character = ' ') : ¬ word ++ [' '] <+: text ++ rest := by
  rintro ⟨more, same⟩
  rw [List.append_assoc, List.append_eq_append_iff] at same
  rcases same with ⟨longer, rfl, shape⟩ | ⟨longer, rfl, shape⟩
  · cases longer with
    | nil => exact other (List.append_nil word)
    | cons head tail =>
        have blank : head = ' ' := (List.cons.inj shape).1.symm
        have unspaced := (Place.unspaced_append ..).mp isWord.unspaced
        exact unspaced.2.1 plain.outer.ends blank
  · cases longer with
    | nil => exact other (List.append_nil text).symm
    | cons head tail =>
        have blank : head = ' ' := ends head (by simp [shape])
        exact plain.solid (by simp [blank])

theorem IsPlainWord.not_prefix_of_isOuterText {reserved : List (List Char)}
    {word text rest : List Char} (plain : IsPlainWord word) (member : word ∈ reserved)
    (outer : IsOuterText reserved text) (ends : ∀ character ∈ rest.head?, character = ' ') :
    ¬ word ++ [' '] <+: text ++ rest := by
  cases outer with
  | word isWord free => exact plain.not_prefix isWord (fun same => free (same ▸ member)) ends
  | cons isWord free _ =>
      rw [List.append_assoc, List.cons_append]
      exact plain.not_prefix isWord (fun same => free (same ▸ member)) (by simp)

/-- A text without a reserved word among its words stays in one part. -/
theorem outerPartsFrom_of_isOuterText {reserved : List (List Char)} {word text rest : List Char}
    (plain : IsPlainWord word) (member : word ∈ reserved) (outer : IsOuterText reserved text)
    (ends : ∀ character ∈ rest.head?, character = ' ') :
    outerPartsFrom (spaced word) {} 0 (text ++ rest) =
      (outerPartsFrom (spaced word) {} 0 rest).modifyHead (text ++ ·) := by
  induction outer with
  | word isWord _ => rw [spaced, outerPartsFrom_of_unspaced _ isWord.unspaced, isWord.ends]
  | @cons first others isWord _ later inductionHypothesis =>
      have goes : ¬ (({} : Place) = {} ∧
          (spaced word).isPrefixOf (' ' :: (others ++ rest)) = true) := by
        rintro ⟨_, found⟩
        rw [spaced, List.isPrefixOf_cons_cons, Bool.and_eq_true,
          List.isPrefixOf_iff_prefix] at found
        exact plain.not_prefix_of_isOuterText member later ends found.2
      have stays : Place.next {} ' ' = {} := by decide
      rw [List.append_assoc, List.cons_append, spaced,
        outerPartsFrom_of_unspaced _ isWord.unspaced, ← spaced, isWord.ends, outerPartsFrom,
        if_neg goes, stays, inductionHypothesis, List.modifyHead_modifyHead,
        List.modifyHead_modifyHead]
      congr 1
      funext part
      simp

theorem outerPartsFrom_spaced (word rest : List Char) :
    outerPartsFrom (spaced word) {} 0 (spaced word ++ rest) =
      [] :: outerPartsFrom (spaced word) {} 0 rest := by
  have found : ({} : Place) = {} ∧
      (spaced word).isPrefixOf (' ' :: (word ++ [' '] ++ rest)) = true :=
    ⟨rfl, List.isPrefixOf_iff_prefix.mpr (List.prefix_append (spaced word) rest)⟩
  rw [spaced, List.cons_append, ← spaced, outerPartsFrom, if_pos found]
  exact congrArg ([] :: ·) (outerPartsFrom_append (spaced word) {} (word ++ [' ']) rest)

theorem outerParts_eq_singleton {reserved : List (List Char)} {word text : List Char}
    (plain : IsPlainWord word) (member : word ∈ reserved) (outer : IsOuterText reserved text) :
    outerParts (spaced word) text = [text] := by
  have ends : ∀ character ∈ ([] : List Char).head?, character = ' ' := by simp
  have whole := outerPartsFrom_of_isOuterText plain member outer ends
  rw [List.append_nil] at whole
  rw [outerParts, whole, outerPartsFrom]
  simp

/-- Between the blanks outside of quotes and brackets there are no reserved words. -/
theorem not_mem_reserved_of_mem_outerParts {reserved : List (List Char)} {text word : List Char}
    (outer : IsOuterText reserved text) (found : word ∈ outerParts [' '] text) :
    word ∉ reserved := by
  induction outer with
  | @word text isWord free =>
      have whole := outerPartsFrom_of_unspaced [] isWord.unspaced []
      rw [List.append_nil, isWord.ends] at whole
      have same : word = text := by
        rw [outerParts, whole, outerPartsFrom] at found
        simpa using found
      rwa [same]
  | @cons first rest isWord free _ inductionHypothesis =>
      have begins : ({} : Place) = {} ∧ [' '].isPrefixOf (' ' :: rest) = true := ⟨rfl, by simp⟩
      rw [outerParts, outerPartsFrom_of_unspaced [] isWord.unspaced, isWord.ends, outerPartsFrom,
        if_pos begins, List.modifyHead_cons, List.append_nil] at found
      rcases List.mem_cons.mp found with rfl | later
      · exact free
      · exact inductionHypothesis later

/-- Clauses without a reserved word are the parts of what they are joined to by it. -/
theorem outerParts_intercalate {reserved : List (List Char)} {word : List Char}
    (plain : IsPlainWord word) (member : word ∈ reserved) {clauses : List (List Char)}
    (some : clauses ≠ []) (each : ∀ clause ∈ clauses, IsOuterText reserved clause) :
    outerParts (spaced word) ((spaced word).intercalate clauses) = clauses := by
  induction clauses with
  | nil => exact absurd rfl some
  | cons first others inductionHypothesis =>
      obtain ⟨ofFirst, ofOthers⟩ := List.forall_mem_cons.mp each
      cases others with
      | nil => rw [List.intercalate_singleton, outerParts_eq_singleton plain member ofFirst]
      | cons second later =>
          have rest := inductionHypothesis (List.cons_ne_nil second later) ofOthers
          unfold outerParts at rest ⊢
          rw [List.intercalate_cons_cons, List.append_assoc,
            outerPartsFrom_of_isOuterText plain member ofFirst (by simp [spaced]),
            outerPartsFrom_spaced, rest, List.modifyHead_cons, List.append_nil]

/-- What they are joined to has the words of the clauses and the word between them. -/
theorem isOuterText_intercalate {reserved : List (List Char)} {word : List Char}
    (isWord : IsOuterWord word) (free : word ∉ reserved) {clauses : List (List Char)}
    (some : clauses ≠ []) (each : ∀ clause ∈ clauses, IsOuterText reserved clause) :
    IsOuterText reserved ((spaced word).intercalate clauses) := by
  induction clauses with
  | nil => exact absurd rfl some
  | cons first others inductionHypothesis =>
      obtain ⟨ofFirst, ofOthers⟩ := List.forall_mem_cons.mp each
      cases others with
      | nil => rwa [List.intercalate_singleton]
      | cons second later =>
          have rest := inductionHypothesis (List.cons_ne_nil second later) ofOthers
          have joined := ofFirst.append ((IsOuterText.word isWord free).append rest)
          rw [List.intercalate_cons_cons]
          simpa [spaced] using joined

end Text

end QueryForest
