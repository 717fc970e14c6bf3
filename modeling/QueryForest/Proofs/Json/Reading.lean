import QueryForest.Json.Reader
import QueryForest.Proofs.Json.Spelling

/-!
# Reading the tokens of values

From the tokens of a value the reader makes that value again, as long as no
observer stops it, the value is not nested too deeply for the containers that
are open already, and none of its numerals is beyond all finite numbers.
Otherwise it finds the tokens malformed.
-/

namespace QueryForest.Json

open Lexer
open Number (Numeral)

variable {Fault : Type} {observer : Observer Fault}

def State.depth : State → Nat
  | .beforeValue stack => stack.length
  | .firstItem stack | .afterItem _ stack | .firstKey stack | .beforeKey _ stack
  | .beforeColon _ _ stack | .afterMember _ stack => stack.length + 1

/-- An observer lets everything pass from a depth on. -/
def SilentFrom (observer : Observer Fault) (depth : Nat) : Prop :=
  ∀ state token, depth ≤ state.depth → observer state token = none

theorem SilentFrom.mono {low high : Nat} (silent : SilentFrom observer low)
    (deeper : low ≤ high) : SilentFrom observer high :=
  fun state token deep => silent state token (Nat.le_trans deeper deep)

def Progress.resume (observer : Observer Fault) (progress : Progress)
    (rest : List Token) : Except (ReadError Fault) (Json × List Token) :=
  match progress with
  | .complete value => .ok (value, rest)
  | .reading state => readFrom observer state rest

theorem readFrom_of_reading {state next : State} {token : Token}
    (silent : observer state token = none)
    (takes : state.take token = some (.reading next)) (rest : List Token) :
    readFrom observer state (token :: rest) = readFrom observer next rest := by
  simp only [readFrom, silent, takes]

theorem readFrom_of_some {state : State} {token : Token} {progress : Progress}
    (silent : observer state token = none) (takes : state.take token = some progress)
    (rest : List Token) :
    readFrom observer state (token :: rest) = progress.resume observer rest := by
  cases progress with
  | complete value => simp only [readFrom, silent, takes, Progress.resume]
  | reading next => exact readFrom_of_reading silent takes rest

theorem readFrom_of_none {state : State} {token : Token}
    (silent : observer state token = none) (refuses : state.take token = none)
    (rest : List Token) :
    readFrom observer state (token :: rest) = .error .malformed := by
  simp only [readFrom, silent, refuses]

/-- Containers of some nesting have room inside so many open ones, and some
numerals are not beyond all finite numbers. -/
structure Fits (depth nesting : Nat) (numerals : List Numeral) : Prop where
  room : depth + nesting ≤ State.nestingLimit
  finite : ∀ numeral ∈ numerals, numeral.quantity?.isSome = true

theorem fits_append {depth first second : Nat} {numerals others : List Numeral} :
    Fits depth (max first second) (numerals ++ others) ↔
      Fits depth first numerals ∧ Fits depth second others := by
  constructor
  · rintro ⟨room, finite⟩
    refine ⟨⟨by omega, fun numeral member => ?_⟩, ⟨by omega, fun numeral member => ?_⟩⟩
    · exact finite numeral (List.mem_append_left _ member)
    · exact finite numeral (List.mem_append_right _ member)
  · rintro ⟨⟨firstRoom, firstFinite⟩, ⟨secondRoom, secondFinite⟩⟩
    refine ⟨by omega, fun numeral member => ?_⟩
    rcases List.mem_append.mp member with member | member
    · exact firstFinite numeral member
    · exact secondFinite numeral member

theorem fits_scalar {depth : Nat} (room : depth ≤ State.nestingLimit) : Fits depth 0 [] :=
  ⟨room, fun _ member => nomatch member⟩

theorem fits_one {depth : Nat} :
    Fits depth 1 [] ↔ depth + 1 ≤ State.nestingLimit :=
  ⟨Fits.room, fun room => ⟨room, fun _ member => nomatch member⟩⟩

theorem fits_container {depth nesting : Nat} {numerals : List Numeral} :
    (depth + 1 ≤ State.nestingLimit ∧ Fits (depth + 1) nesting numerals) ↔
      Fits depth (nesting + 1) numerals := by
  constructor
  · exact fun ⟨_, room, finite⟩ => ⟨by omega, finite⟩
  · exact fun ⟨room, finite⟩ => ⟨by omega, by omega, finite⟩

/-- Reading goes on where something fits, and stops where it does not. -/
def GoesOn {Result : Type} (fits : Prop)
    (outcome success : Except (ReadError Fault) Result) : Prop :=
  (fits ∧ outcome = success) ∨ (¬ fits ∧ outcome = .error .malformed)

namespace GoesOn

variable {Result : Type} {fits others : Prop}
  {outcome middle success : Except (ReadError Fault) Result}

theorem iff (goes : GoesOn fits outcome success) (same : fits ↔ others) :
    GoesOn others outcome success := by
  rcases goes with ⟨fitting, reads⟩ | ⟨unfit, stops⟩
  · exact .inl ⟨same.mp fitting, reads⟩
  · exact .inr ⟨fun fitting => unfit (same.mpr fitting), stops⟩

theorem trans (first : GoesOn fits outcome middle)
    (second : fits → GoesOn others middle success) :
    GoesOn (fits ∧ others) outcome success := by
  rcases first with ⟨fitting, reads⟩ | ⟨unfit, stops⟩
  · rw [reads]
    exact (second fitting).iff ⟨fun other => ⟨fitting, other⟩, And.right⟩
  · exact .inr ⟨fun both => unfit both.1, stops⟩

end GoesOn

/-! ## Reading values -/

/-- Items behind the first one. -/
theorem intercalate_cons (first : List Token) (others : List (List Token)) :
    [Token.comma].intercalate (first :: others) =
      first ++ others.flatMap (.comma :: ·) := by
  induction others generalizing first with
  | nil => rw [List.intercalate_singleton, List.flatMap_nil, List.append_nil]
  | cons head tail inductionHypothesis =>
      rw [List.intercalate_cons_cons, inductionHypothesis, List.flatMap_cons,
        List.append_assoc]
      rfl

theorem spellingOfMember_eq (member : String × Json) :
    spellingOfMember member =
      .string member.1 :: (.colon :: member.2.spelling) := by
  obtain ⟨key, value⟩ := member
  rw [spellingOfMember]

theorem spelling_array_cons (head : Json) (tail : List Json) (rest : List Token) :
    (array (head :: tail)).spelling ++ rest =
      .openArray :: (head.spelling ++
        ((spellingOfItems tail).flatMap (.comma :: ·) ++ .closeArray :: rest)) := by
  rw [spelling, spellingOfItems, intercalate_cons]
  simp only [List.cons_append, List.append_assoc, List.nil_append]

theorem spelling_object_cons (head : String × Json) (tail : List (String × Json))
    (rest : List Token) :
    (object (head :: tail)).spelling ++ rest =
      .openObject :: (spellingOfMember head ++
        ((spellingOfMembers tail).flatMap (.comma :: ·) ++ .closeObject :: rest)) := by
  rw [spelling, spellingOfMembers, intercalate_cons]
  simp only [List.cons_append, List.append_assoc, List.nil_append]

/-- A value begins with a token that does not close an array. -/
theorem exists_spelling (value : Json) :
    ∃ token rest, value.spelling = token :: rest ∧ token ≠ .closeArray := by
  cases value with
  | null => exact ⟨_, _, rfl, by decide⟩
  | bool truth => exact ⟨_, _, rfl, by simp⟩
  | number numeral =>
      refine ⟨_, _, rfl, ?_⟩
      unfold numeralToken
      split <;> simp
  | string text => exact ⟨_, _, rfl, by simp⟩
  | array items => exact ⟨_, _, rfl, by simp⟩
  | object members => exact ⟨_, _, rfl, by simp⟩

/-- The first item of an array is read like all others. -/
theorem readFrom_firstItem {stack : List Frame}
    (silent : SilentFrom observer (stack.length + 1)) (value : Json)
    (rest : List Token) :
    readFrom observer (.firstItem stack) (value.spelling ++ rest) =
      readFrom observer (.beforeValue (.items [] :: stack)) (value.spelling ++ rest) := by
  obtain ⟨token, others, spelled, opens⟩ := exists_spelling value
  have first : observer (.firstItem stack) token = none :=
    silent _ _ (Nat.le_refl _)
  have second : observer (.beforeValue (.items [] :: stack)) token = none :=
    silent _ _ (Nat.le_refl _)
  have same : (State.firstItem stack).take token =
      (State.beforeValue (.items [] :: stack)).take token := by
    cases token <;> first | rfl | exact absurd rfl opens
  rw [spelled, List.cons_append, readFrom, readFrom, first, second, same]

structure Passes (observer : Observer Fault) (stack : List Frame) (key : String) :
    Prop where
  beforeKey : ∀ done, observer (.beforeKey done stack) (.string key) = none
  beforeColon : ∀ done, observer (.beforeColon done key stack) .colon = none
  beforeValue : ∀ done token,
    observer (.beforeValue (.members done key :: stack)) token = none

theorem SilentFrom.passes {stack : List Frame}
    (silent : SilentFrom observer (stack.length + 1)) (key : String) :
    Passes observer stack key where
  beforeKey _ := silent _ _ (Nat.le_refl _)
  beforeColon _ := silent _ _ (Nat.le_refl _)
  beforeValue _ _ := silent _ _ (Nat.le_refl _)

theorem goesOn_numeral {stack : List Frame}
    (silentHere : ∀ token, observer (.beforeValue stack) token = none)
    (room : stack.length ≤ State.nestingLimit) (numeral : Numeral)
    (rest : List Token) :
    GoesOn (Fits stack.length 0 [numeral])
      (readFrom observer (.beforeValue stack) (numeralToken numeral :: rest))
      ((State.settle (.number numeral) stack).resume observer rest) := by
  unfold numeralToken
  by_cases finite : numeral.quantity?.isSome = true
  · refine .inl ⟨⟨room, fun other member => ?_⟩, ?_⟩
    · rw [List.mem_singleton.mp member]
      exact finite
    · rw [if_pos finite]
      exact readFrom_of_some (silentHere _) rfl rest
  · refine .inr ⟨fun fits => finite (fits.finite numeral List.mem_cons_self), ?_⟩
    rw [if_neg finite]
    exact readFrom_of_none (silentHere _) rfl rest

/-- Opening a container goes on where there is room for one more. -/
theorem goesOn_nest {stack : List Frame} {opening : Token} {opened : State}
    (silentHere : observer (.beforeValue stack) opening = none)
    (takes : (State.beforeValue stack).take opening = State.nest stack opened)
    (rest : List Token) :
    GoesOn (stack.length + 1 ≤ State.nestingLimit)
      (readFrom observer (.beforeValue stack) (opening :: rest))
      (readFrom observer opened rest) := by
  by_cases room : stack.length < State.nestingLimit
  · refine .inl ⟨room, readFrom_of_reading silentHere ?_ rest⟩
    rw [takes, State.nest, if_pos room]
  · refine .inr ⟨room, readFrom_of_none silentHere ?_ rest⟩
    rw [takes, State.nest, if_neg room]

mutual

/-- The tokens of a value are read as that value where it fits. -/
theorem goesOn_value :
    (value : Json) → (stack : List Frame) →
      (∀ token, observer (.beforeValue stack) token = none) →
      SilentFrom observer (stack.length + 1) →
      stack.length ≤ State.nestingLimit → (rest : List Token) →
      GoesOn (Fits stack.length value.nesting value.numerals)
        (readFrom observer (.beforeValue stack) (value.spelling ++ rest))
        ((State.settle value stack).resume observer rest)
  | .null, stack, silentHere, _, room, rest =>
      .inl ⟨fits_scalar room, readFrom_of_some (silentHere _) rfl rest⟩
  | .bool truth, stack, silentHere, _, room, rest =>
      .inl ⟨fits_scalar room, readFrom_of_some (silentHere _) rfl rest⟩
  | .string text, stack, silentHere, _, room, rest =>
      .inl ⟨fits_scalar room, readFrom_of_some (silentHere _) rfl rest⟩
  | .number numeral, stack, silentHere, _, room, rest =>
      goesOn_numeral silentHere room numeral rest
  | .array [], stack, silentHere, silent, _, rest => by
      have opens := goesOn_nest (silentHere .openArray) rfl (.closeArray :: rest)
      have closes : readFrom observer (.firstItem stack) (.closeArray :: rest) =
          (State.settle (.array []) stack).resume observer rest :=
        readFrom_of_some (silent _ _ (Nat.le_refl _)) rfl rest
      rw [closes] at opens
      exact opens.iff fits_one.symm
  | .array (head :: tail), stack, silentHere, silent, _, rest => by
      have opens := goesOn_nest (silentHere .openArray) rfl (head.spelling ++
        ((spellingOfItems tail).flatMap (.comma :: ·) ++ .closeArray :: rest))
      rw [readFrom_firstItem silent] at opens
      rw [spelling_array_cons]
      refine (opens.trans fun room => ?_).iff fits_container
      -- The first item follows the bracket, each of the others a comma.
      have first := goesOn_value head (.items [] :: stack)
        (fun _ => silent _ _ (Nat.le_refl _)) (silent.mono (Nat.le_succ _)) room
        ((spellingOfItems tail).flatMap (.comma :: ·) ++ .closeArray :: rest)
      exact (first.trans fun _ => goesOn_items tail [head] stack silent room rest).iff
        fits_append.symm
  | .object [], stack, silentHere, silent, _, rest => by
      have opens := goesOn_nest (silentHere .openObject) rfl (.closeObject :: rest)
      have closes : readFrom observer (.firstKey stack) (.closeObject :: rest) =
          (State.settle (.object []) stack).resume observer rest :=
        readFrom_of_some (silent _ _ (Nat.le_refl _)) rfl rest
      rw [closes] at opens
      exact opens.iff fits_one.symm
  | .object (head :: tail), stack, silentHere, silent, _, rest => by
      have opens := goesOn_nest (silentHere .openObject) rfl (spellingOfMember head ++
        ((spellingOfMembers tail).flatMap (.comma :: ·) ++ .closeObject :: rest))
      rw [spelling_object_cons]
      refine (opens.trans fun room => ?_).iff fits_container
      have key := readFrom_of_reading
        (silent (.firstKey stack) (.string head.1) (Nat.le_refl _)) rfl
        (.colon :: head.2.spelling ++
          ((spellingOfMembers tail).flatMap (.comma :: ·) ++ .closeObject :: rest))
      have first := goesOn_member head [] stack (silent.passes head.1)
        (silent.mono (Nat.le_succ _)) room
        ((spellingOfMembers tail).flatMap (.comma :: ·) ++ .closeObject :: rest)
      have others := goesOn_members tail [head] stack
        (fun key _ => silent.passes key) (fun _ _ => silent _ _ (Nat.le_refl _))
        (silent.mono (Nat.le_succ _)) room rest
      rw [← key] at first
      rw [spellingOfMember_eq]
      exact (first.trans fun _ => others).iff fits_append.symm

theorem goesOn_items :
    (items : List Json) → (done : List Json) → (stack : List Frame) →
      SilentFrom observer (stack.length + 1) →
      stack.length + 1 ≤ State.nestingLimit → (rest : List Token) →
      GoesOn (Fits (stack.length + 1) (nestingOfItems items) (numeralsOfItems items))
        (readFrom observer (.afterItem done stack)
          ((spellingOfItems items).flatMap (.comma :: ·) ++ .closeArray :: rest))
        ((State.settle (.array (done.reverse ++ items)) stack).resume observer rest)
  | [], done, stack, silent, room, rest => by
      rw [List.append_nil]
      exact .inl ⟨fits_scalar room,
        readFrom_of_some (silent _ _ (Nat.le_refl _)) rfl rest⟩
  | head :: tail, done, stack, silent, room, rest => by
      have separates := readFrom_of_reading
        (silent (.afterItem done stack) .comma (Nat.le_refl _)) rfl
        (head.spelling ++
          ((spellingOfItems tail).flatMap (.comma :: ·) ++ .closeArray :: rest))
      have first := goesOn_value head (.items done :: stack)
        (fun _ => silent _ _ (Nat.le_refl _)) (silent.mono (Nat.le_succ _)) room
        ((spellingOfItems tail).flatMap (.comma :: ·) ++ .closeArray :: rest)
      have others := goesOn_items tail (head :: done) stack silent room rest
      rw [List.reverse_cons, List.append_assoc] at others
      rw [spellingOfItems, List.flatMap_cons, List.append_assoc, List.cons_append,
        separates]
      exact (first.trans fun _ => others).iff fits_append.symm

/-- The members behind those that are done. -/
theorem goesOn_members :
    (members : List (String × Json)) → (done : List (String × Json)) →
      (stack : List Frame) →
      (∀ key, key ∈ members.map Prod.fst → Passes observer stack key) →
      (∀ done token, observer (.afterMember done stack) token = none) →
      SilentFrom observer (stack.length + 2) →
      stack.length + 1 ≤ State.nestingLimit → (rest : List Token) →
      GoesOn
        (Fits (stack.length + 1) (nestingOfMembers members)
          (numeralsOfMembers members))
        (readFrom observer (.afterMember done stack)
          ((spellingOfMembers members).flatMap (.comma :: ·) ++ .closeObject :: rest))
        ((State.settle (.object (done.reverse ++ members)) stack).resume observer rest)
  | [], done, stack, _, after, _, room, rest => by
      rw [List.append_nil]
      exact .inl ⟨fits_scalar room,
        readFrom_of_some (after done _) rfl rest⟩
  | head :: tail, done, stack, passes, after, silent, room, rest => by
      have headPasses := passes head.1 List.mem_cons_self
      have separates := readFrom_of_reading (after done .comma) rfl
        (spellingOfMember head ++
          ((spellingOfMembers tail).flatMap (.comma :: ·) ++ .closeObject :: rest))
      have key := readFrom_of_reading (headPasses.beforeKey done) rfl
        (.colon :: head.2.spelling ++
          ((spellingOfMembers tail).flatMap (.comma :: ·) ++ .closeObject :: rest))
      have first := goesOn_member head done stack headPasses silent room
        ((spellingOfMembers tail).flatMap (.comma :: ·) ++ .closeObject :: rest)
      have others := goesOn_members tail (head :: done) stack
        (fun key member => passes key (List.mem_cons_of_mem _ member)) after silent
        room rest
      rw [List.reverse_cons, List.append_assoc] at others
      rw [spellingOfMembers, List.flatMap_cons, List.append_assoc, List.cons_append,
        separates]
      rw [← key] at first
      rw [spellingOfMember_eq]
      exact (first.trans fun _ => others).iff fits_append.symm

/-- A member whose key has been read. -/
theorem goesOn_member :
    (member : String × Json) → (done : List (String × Json)) →
      (stack : List Frame) → Passes observer stack member.1 →
      SilentFrom observer (stack.length + 2) →
      stack.length + 1 ≤ State.nestingLimit → (rest : List Token) →
      GoesOn
        (Fits (stack.length + 1) (nestingOfMember member) (numeralsOfMember member))
        (readFrom observer (.beforeColon done member.1 stack)
          (.colon :: member.2.spelling ++ rest))
        (readFrom observer (.afterMember (member :: done) stack) rest)
  | (key, value), done, stack, passes, silent, room, rest => by
      have colon := readFrom_of_reading (passes.beforeColon done) rfl
        (value.spelling ++ rest)
      rw [List.cons_append, colon]
      exact goesOn_value value (.members done key :: stack)
        (passes.beforeValue done) silent room rest

end

end QueryForest.Json
