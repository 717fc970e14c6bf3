import QueryForest.Proofs.Syntax.Phrases

namespace QueryForest

open Number (Single)
open Text (isSpecial)

namespace QueryReader

/-- A text at whose front a clause ends: there is nothing more, a closing
parenthesis, or a blank that no nearness stands behind. -/
inductive EndsClause : List Char → Prop
  | nil : EndsClause []
  | closed (rest : List Char) : EndsClause (')' :: rest)
  | blank {rest : List Char} : keyword? "WITHIN" rest = none → keyword? "INORDER" rest = none →
      EndsClause (' ' :: rest)

/-- A text at whose front an atom ends, which can have suffixes. -/
inductive EndsAtom : List Char → Prop
  | clause {rest : List Char} : EndsClause rest → EndsAtom rest
  | boosted (rest : List Char) : EndsAtom ('^' :: rest)
  | slopped (rest : List Char) : EndsAtom ('~' :: rest)

/-- A text at whose front some clauses end: nothing, or the end of a group. -/
inductive EndsClauses : List Char → Prop
  | nil : EndsClauses []
  | closed (rest : List Char) : EndsClauses (' ' :: ')' :: rest)

variable {chars rest : List Char}

theorem EndsAtom.head? (ends : EndsAtom rest) {character : Char}
    (first : rest.head? = some character) : character ∈ [' ', ')', '^', '~'] := by
  cases ends with
  | clause ends =>
      cases ends with
      | nil => exact nomatch first
      | closed _ | blank _ _ => cases first; simp
  | boosted _ | slopped _ => cases first; simp

theorem EndsAtom.endsWord (ends : EndsAtom rest) : EndsWord rest := by
  intro character first
  have known := ends.head? first
  simp only [List.mem_cons, List.not_mem_nil, or_false] at known
  rcases known with rfl | rfl | rfl | rfl <;> decide

theorem EndsAtom.endsNumber (ends : EndsAtom rest) : EndsNumber rest := by
  intro character first
  have known := ends.head? first
  simp only [List.mem_cons, List.not_mem_nil, or_false] at known
  rcases known with rfl | rfl | rfl | rfl <;> decide

theorem EndsAtom.head?_ne_colon (ends : EndsAtom rest) : rest.head? ≠ some ':' :=
  fun first => absurd (ends.head? first) (by decide)

theorem EndsClause.head?_ne_tilde (ends : EndsClause rest) : rest.head? ≠ some '~' := by
  cases ends <;> simp

theorem EndsClause.suffixed (ends : EndsClause rest) (meaning : Meaning) :
    suffixed meaning rest = (meaning, rest) := by
  cases ends <;> simp [QueryReader.suffixed]

theorem keyword?_special {name : String} {first : Char} (filled : name ≠ "")
    (special : isSpecial first = true ∧ first ≠ '\\') :
    keyword? name (first :: rest) = none := by
  unfold keyword?
  rw [word_eq (endsWord_cons rest special)]
  exact if_neg fun found => filled found.1.symm

theorem EndsClauses.endsClause (ends : EndsClauses rest) : EndsClause rest := by
  cases ends with
  | nil => exact .nil
  | closed rest =>
      exact .blank (keyword?_special (by decide) (by decide))
        (keyword?_special (by decide) (by decide))

theorem separator?_eq_none (ends : EndsClauses rest) : separator? rest = none := by
  cases ends with
  | nil => rfl
  | closed rest => rfl

/-- Nothing is said of nearness behind what is no proximity group. -/
theorem nearness?_eq_none (ends : EndsAtom rest) : nearness? rest = none := by
  cases ends with
  | clause ends =>
      cases ends with
      | nil | closed _ => rfl
      | @blank rest within _ =>
          have blank : behind? " " (' ' :: rest) = some rest := behind?_append " " rest
          simp [nearness?, blank, within]
  | boosted _ | slopped _ => rfl

/-! ## Fronts -/

/-- How an atom begins: with a character that opens something, with the name of a
field, or with a word that is no keyword. -/
inductive Front : List Char → Prop
  | opening {character : Char} (rest : List Char) : character ∈ ['"', '\x7b', '(', '*'] →
      Front (character :: rest)
  | field (name : String) (rest : List Char) : Front (wordText name ++ ':' :: rest)
  | word {text : String} {rest : List Char} : EndsWord rest → rest.head? ≠ some ':' →
      text ≠ "WITHIN" ∧ text ≠ "INORDER" → (text = "" → rest.head? = some '~') →
      Front (wordText text ++ rest)

inductive ClauseFront : List Char → Prop
  | unsigned {chars : List Char} : Front chars → ClauseFront chars
  | sign {character : Char} (rest : List Char) : character ∈ ['+', '-'] →
      ClauseFront (character :: rest)
  | negation (rest : List Char) : ClauseFront ('N' :: 'O' :: 'T' :: ' ' :: rest)

/-- A word begins with a special character only if it is empty. -/
theorem head?_wordText_append {text : String} {character : Char}
    (special : isSpecial character = true) (unprotected : character ≠ '\\')
    (first : (wordText text ++ rest).head? = some character) :
    text = "" ∧ rest.head? = some character := by
  have passes : Passes isSpecial (wordText text) := passes_escapeWord (fun _ => id) text.toList
  cases raw : wordText text with
  | nil =>
      have empty : text.toList = [] := by
        rw [← Text.unescape_escapeWord text.toList]
        exact congrArg Text.unescape raw
      rw [raw] at first
      exact ⟨String.toList_eq_nil_iff.mp empty, first⟩
  | cons head tail =>
      rw [raw] at passes first
      cases first
      cases passes with
      | escaped _ => exact absurd rfl unprotected
      | plain _ goes _ => exact absurd special (Bool.eq_false_iff.mp goes)

theorem Front.head? (front : Front chars) {character : Char}
    (first : chars.head? = some character) (special : isSpecial character = true) :
    character ∈ ['\\', '"', '\x7b', '(', '*', ':', '~'] := by
  by_cases unprotected : character = '\\'
  · rw [unprotected]
    decide
  cases front with
  | opening rest opens =>
      cases first
      simp only [List.mem_cons, List.not_mem_nil, or_false] at opens
      rcases opens with rfl | rfl | rfl | rfl <;> decide
  | field name rest =>
      cases (head?_wordText_append special unprotected first).2
      decide
  | word _ _ _ empty =>
      obtain ⟨none, first⟩ := head?_wordText_append special unprotected first
      rw [empty none] at first
      cases first
      decide

theorem Front.ne_nil (front : Front chars) : chars ≠ [] := by
  cases front with
  | opening _ _ => exact List.cons_ne_nil _ _
  | field name rest => exact List.append_ne_nil_of_right_ne_nil _ (List.cons_ne_nil _ _)
  | @word text rest _ _ _ empty =>
      intro none
      obtain ⟨bare, nothing⟩ := List.append_eq_nil_iff.mp none
      have read : text.toList = [] := by
        rw [← Text.unescape_escapeWord text.toList]
        exact congrArg Text.unescape bare
      rw [nothing] at empty
      exact nomatch empty (String.toList_eq_nil_iff.mp read)

theorem passes_operator {operator : List Char} (known : operator ∈ Text.operatorWords) :
    Text.isOperatorWord operator = true ∧ Text.unescape operator = operator ∧
      Passes isSpecial operator := by
  simp only [Text.operatorWords, List.mem_cons, List.not_mem_nil, or_false] at known
  rcases known with rfl | rfl | rfl
  all_goals
    refine ⟨by decide, rfl, ?_⟩
    repeat' first | exact .nil | refine .plain (by decide) (by decide) ?_

theorem keyword?_operator {name : String} (sought : name = "WITHIN" ∨ name = "INORDER")
    {operator : List Char} (known : operator ∈ Text.operatorWords) :
    keyword? name (operator ++ ' ' :: rest) = none := by
  obtain ⟨_, bare, passes⟩ := passes_operator known
  unfold keyword? word
  rw [cut_of_ends passes (endsWord_cons rest (by decide))]
  refine if_neg fun found => ?_
  change String.ofList (Text.unescape operator) = name ∧ _ at found
  rw [bare] at found
  simp only [Text.operatorWords, List.mem_cons, List.not_mem_nil, or_false] at known
  rcases sought with rfl | rfl <;> rcases known with rfl | rfl | rfl <;>
    exact absurd found.1 (by decide)

/-- An atom does not begin with an operator. -/
theorem Front.behind?_operator (front : Front chars) {operator : List Char}
    (known : operator ∈ Text.operatorWords) :
    behind? (String.ofList (operator ++ [' '])) chars = none := by
  obtain ⟨upper, bare, passes⟩ := passes_operator known
  cases front with
  | opening rest opens =>
      cases operator with
      | nil => exact absurd upper (by decide)
      | cons head tail =>
          refine behind?_eq_none (String.toList_ofList) ?_
          intro same
          cases same
          have letter := Text.not_isSpecial_of_operator upper
          simp only [List.mem_cons, List.not_mem_nil, or_false] at opens
          rcases opens with rfl | rfl | rfl | rfl <;> exact absurd letter (by decide)
  | field name rest =>
      exact QueryReader.behind?_operator upper bare passes name (endsWord_cons rest (by decide))
  | @word text rest ends _ _ _ =>
      exact QueryReader.behind?_operator upper bare passes text ends

theorem Front.keyword? (front : Front chars) {name : String}
    (known : name = "WITHIN" ∨ name = "INORDER") : keyword? name chars = none := by
  have filled : name ≠ "" := by rcases known with rfl | rfl <;> decide
  cases front with
  | opening rest opens =>
      refine keyword?_special filled ?_
      simp only [List.mem_cons, List.not_mem_nil, or_false] at opens
      rcases opens with rfl | rfl | rfl | rfl <;> decide
  | field field rest =>
      unfold QueryReader.keyword?
      rw [word_append field (endsWord_cons rest (by decide))]
      exact if_neg fun found => found.2 rfl
  | word ends _ other _ =>
      unfold QueryReader.keyword?
      rw [word_append _ ends]
      refine if_neg fun found => ?_
      rcases known with rfl | rfl
      · exact other.1 found.1
      · exact other.2 found.1

theorem Front.head?_ne (front : Front chars) {character : Char}
    (special : isSpecial character = true)
    (other : character ∉ ['\\', '"', '\x7b', '(', '*', ':', '~']) :
    chars.head? ≠ some character :=
  fun first => other (front.head? first special)

theorem Front.sign? (front : Front chars) : sign? chars = none := by
  have plus : behind? "+" chars = none :=
    behind?_eq_none rfl (front.head?_ne (by decide) (by decide))
  have minus : behind? "-" chars = none :=
    behind?_eq_none rfl (front.head?_ne (by decide) (by decide))
  have negation : behind? "NOT " chars = none :=
    front.behind?_operator (List.mem_of_getElem? (i := 2) rfl)
  rw [QueryReader.sign?, plus, minus, negation]

namespace ClauseFront

theorem ne_nil (front : ClauseFront chars) : chars ≠ [] := by
  cases front with
  | unsigned front => exact front.ne_nil
  | sign _ _ | negation _ => exact List.cons_ne_nil _ _

/-- A clause does not begin with a blank or a closing parenthesis. -/
theorem head?_ne (front : ClauseFront chars) {character : Char}
    (closes : character ∈ [' ', ')']) : chars.head? ≠ some character := by
  simp only [List.mem_cons, List.not_mem_nil, or_false] at closes
  cases front with
  | unsigned front => rcases closes with rfl | rfl <;> exact front.head?_ne (by decide) (by decide)
  | sign rest signs =>
      rintro same
      cases same
      rcases closes with rfl | rfl <;> exact absurd signs (by decide)
  | negation rest => rcases closes with rfl | rfl <;> exact fun same => nomatch same

theorem keyword? (front : ClauseFront chars) {name : String}
    (known : name = "WITHIN" ∨ name = "INORDER") : keyword? name chars = none := by
  have filled : name ≠ "" := by rcases known with rfl | rfl <;> decide
  cases front with
  | unsigned front => exact front.keyword? known
  | sign rest signs =>
      refine keyword?_special filled ?_
      simp only [List.mem_cons, List.not_mem_nil, or_false] at signs
      rcases signs with rfl | rfl <;> decide
  | negation rest =>
      have negation : ['N', 'O', 'T'] ∈ Text.operatorWords := by decide
      exact keyword?_operator known negation

/-- A clause does not begin with the operator of a junction. -/
theorem behind?_operator (front : ClauseFront chars) {operator : List Char}
    (known : operator = ['A', 'N', 'D'] ∨ operator = ['O', 'R']) :
    behind? (String.ofList (operator ++ [' '])) chars = none := by
  cases front with
  | unsigned front =>
      refine front.behind?_operator ?_
      rcases known with rfl | rfl <;> decide
  | sign rest signs =>
      simp only [List.mem_cons, List.not_mem_nil, or_false] at signs
      rcases known with rfl | rfl <;> rcases signs with rfl | rfl <;> rfl
  | negation rest => rcases known with rfl | rfl <;> rfl

/-- Between two clauses their operator is read. -/
theorem separator?_eq (front : ClauseFront chars) (operator : Operator) :
    separator? (operator.separator.toList ++ chars) = some (operator, chars) := by
  unfold separator?
  cases operator with
  | conjunction =>
      have conjunction := behind?_append " AND " chars
      simp only [Operator.separator, conjunction]
  | disjunction =>
      have conjunction : behind? " AND " (" OR ".toList ++ chars) = none := rfl
      have disjunction := behind?_append " OR " chars
      simp only [Operator.separator, conjunction, disjunction]
  | implicit =>
      have conjunction : behind? " AND " (" ".toList ++ chars) = none :=
        front.behind?_operator (.inl rfl)
      have disjunction : behind? " OR " (" ".toList ++ chars) = none :=
        front.behind?_operator (.inr rfl)
      have alone : behind? ")" chars = none :=
        behind?_eq_none rfl (front.head?_ne (by decide))
      have closing : behind? " )" (" ".toList ++ chars) = none := alone
      have blank := behind?_append " " chars
      simp only [Operator.separator, conjunction, disjunction, closing, blank, Option.map_some]

/-- A clause ends where an operator and another clause follow. -/
theorem endsClause (front : ClauseFront chars) (operator : Operator) :
    EndsClause (operator.separator.toList ++ chars) := by
  have conjunction : ['A', 'N', 'D'] ∈ Text.operatorWords := by decide
  have disjunction : ['O', 'R'] ∈ Text.operatorWords := by decide
  cases operator with
  | implicit => exact .blank (front.keyword? (.inl rfl)) (front.keyword? (.inr rfl))
  | conjunction =>
      exact .blank (keyword?_operator (.inl rfl) conjunction)
        (keyword?_operator (.inr rfl) conjunction)
  | disjunction =>
      exact .blank (keyword?_operator (.inl rfl) disjunction)
        (keyword?_operator (.inr rfl) disjunction)

end ClauseFront

end QueryReader

namespace Branch

open QueryReader (ClauseFront EndsAtom EndsClause EndsClauses Front wordText)

/-! ## Fronts of branches -/

theorem IsLinked.child {branch child : Branch} (linked : branch.IsLinked)
    (member : child ∈ branch.children) : child.IsLinked :=
  fun part within => linked part (mem_postOrder_of_child member within)

theorem IsLinked.isBare_child {branch child : Branch} (linked : branch.IsLinked)
    (member : child ∈ branch.children) (other : branch.kind.isGroup = false) :
    child.isBare = false := by
  have above := linked branch branch.self_mem_postOrder child member
  unfold isBare
  rw [above, Option.all_some, other]
  split <;> rfl

/-- Clauses behind another one, with an operator before each. -/
def afterText (operator : Operator) (children : List Branch) : List Char :=
  children.flatMap fun child => operator.separator.toList ++ child.chars

theorem afterText_cons (operator : Operator) (first : Branch) (others : List Branch) :
    afterText operator (first :: others) =
      operator.separator.toList ++ (first.chars ++ afterText operator others) := by
  rw [afterText, List.flatMap_cons, List.append_assoc]
  rfl

theorem joinedText_cons (operator : Operator) (first : Branch) (others : List Branch) :
    joinedText operator (first :: others) = first.chars ++ afterText operator others := by
  unfold joinedText
  induction others generalizing first with
  | nil => rw [List.map_singleton, List.intercalate_singleton]; exact (List.append_nil _).symm
  | cons second others inductionHypothesis =>
      rw [List.map_cons, List.map_cons, List.intercalate_cons_cons, ← List.map_cons,
        inductionHypothesis, afterText_cons, List.append_assoc]

/-- A clause ends where others follow. -/
theorem endsClause_afterText (operator : Operator) {children : List Branch}
    (some : children ≠ [])
    (each : ∀ child ∈ children, ∀ rest, EndsAtom rest → ClauseFront (child.chars ++ rest))
    {rest : List Char} (ends : EndsAtom rest) :
    EndsClause (afterText operator children ++ rest) := by
  induction children with
  | nil => exact absurd rfl some
  | cons first others inductionHypothesis =>
      obtain ⟨ofFirst, ofOthers⟩ := List.forall_mem_cons.mp each
      rw [afterText_cons, List.append_assoc, List.append_assoc]
      refine (ofFirst _ ?_).endsClause operator
      cases others with
      | nil => exact ends
      | cons second others => exact .clause (inductionHypothesis (List.cons_ne_nil _ _) ofOthers)

/-- Joined clauses begin like their first one. -/
theorem clauseFront_joinedText (operator : Operator) {children : List Branch}
    (some : children ≠ [])
    (each : ∀ child ∈ children, ∀ rest, EndsAtom rest → ClauseFront (child.chars ++ rest))
    {rest : List Char} (ends : EndsAtom rest) :
    ClauseFront (joinedText operator children ++ rest) := by
  cases children with
  | nil => exact absurd rfl some
  | cons first others =>
      obtain ⟨ofFirst, ofOthers⟩ := List.forall_mem_cons.mp each
      rw [joinedText_cons, List.append_assoc]
      refine ofFirst _ ?_
      cases others with
      | nil => exact ends
      | cons second others =>
          exact .clause (endsClause_afterText operator (List.cons_ne_nil _ _) ofOthers ends)

theorem front_fieldText {field : Option String} {body rest : List Char}
    (bare : field = none → Front (body ++ rest)) : Front (fieldText field body ++ rest) := by
  cases field with
  | none => exact bare rfl
  | some name =>
      rw [fieldText, List.append_assoc]
      exact .field name _

/-- How a branch begins, whatever stands behind its end: like a clause, and like an
atom if it has neither a sign nor lacks parentheses. -/
structure Begins (branch : Branch) : Prop where
  clause : ∀ rest, EndsAtom rest → ClauseFront (branch.chars ++ rest)
  atom : branch.sign = none → branch.isBare = false →
    ∀ rest, EndsAtom rest → Front (branch.chars ++ rest)

theorem Begins.of_front {branch : Branch}
    (front : ∀ rest, EndsAtom rest → Front (branch.chars ++ rest)) : branch.Begins :=
  ⟨fun rest ends => .unsigned (front rest ends), fun _ _ => front⟩

theorem Begins.chars_ne_nil {branch : Branch} (begins : branch.Begins) : branch.chars ≠ [] := by
  have front := begins.clause [] (.clause .nil)
  rw [List.append_nil] at front
  exact front.ne_nil

theorem front_word {term : Term} {rest : List Char} (noKeyword : term.IsNoKeyword)
    (ends : EndsAtom rest)
    (filled : term.shownField = none → term.text = "" → rest.head? = some '~') :
    Front (fieldText term.shownField (wordText term.text) ++ rest) :=
  front_fieldText fun bare =>
    .word ends.endsWord ends.head?_ne_colon (noKeyword bare) (filled bare)

theorem sign_eq_none {branch : Branch} (plain : branch.kind.isModifier = false) :
    branch.sign = none := by
  unfold sign
  split
  · next kind => exact absurd (kind ▸ plain) (by decide)
  · next kind => exact absurd (kind ▸ plain) (by decide)
  · rfl

theorem exists_head?_eq_some {Item : Type} {items : List Item} (some : items ≠ []) :
    ∃ first, items.head? = Option.some first := by
  cases items with
  | nil => exact absurd rfl some
  | cons first others => exact ⟨first, rfl⟩

section Shapes

variable {id : NodeId} {enclosing : Option Kind} {child : Branch} {children others : List Branch}

theorem begins_stacked (modifier : Modifier) (stacked : child.kind.isModifier = true) :
    (node id (.wrapper (.modifier modifier)) enclosing (child :: others)).Begins := by
  have text := chars_stacked id enclosing others modifier stacked
  refine ⟨fun rest _ => ?_, fun unsigned _ rest _ => ?_⟩
  · rw [text]
    cases modifier with
    | neutral => exact .unsigned (.opening _ (by decide))
    | negated | required => exact .sign _ (by decide)
  · rw [text]
    cases modifier with
    | neutral => exact .opening _ (by decide)
    | negated | required => exact nomatch unsigned

theorem begins_signed {modifier : Modifier} (sign : modifier ≠ .neutral)
    (plain : child.kind.isModifier = false) :
    (node id (.wrapper (.modifier modifier)) enclosing (child :: others)).Begins := by
  refine ⟨fun rest _ => ?_, fun unsigned => ?_⟩
  · rw [chars_modifier modifier plain]
    cases modifier with
    | neutral => exact absurd rfl sign
    | negated =>
        split
        · exact .negation _
        · exact .sign _ (by decide)
    | required => split <;> exact .sign _ (by decide)
  · cases modifier with
    | neutral => exact absurd rfl sign
    | negated | required => exact nomatch unsigned

/-- The text of a wrapper that begins with its child begins like an atom, as the child does. -/
theorem begins_of_child {wrapper : Wrapper} {behind : List Char}
    (linked : (node id (.wrapper wrapper) enclosing (child :: others)).IsLinked)
    (begins : child.IsLinked → child.Begins) (unsigned : child.sign = none)
    (plain : (Kind.wrapper wrapper).isGroup = false)
    (text : (node id (.wrapper wrapper) enclosing (child :: others)).chars =
      child.chars ++ behind)
    (ends : ∀ rest, EndsAtom rest → EndsAtom (behind ++ rest)) :
    (node id (.wrapper wrapper) enclosing (child :: others)).Begins := by
  have member : child ∈ (node id (.wrapper wrapper) enclosing (child :: others)).children :=
    List.mem_cons_self
  refine .of_front fun rest restEnds => ?_
  rw [text, List.append_assoc]
  exact (begins (linked.child member)).atom unsigned (linked.isBare_child member plain) _
    (ends rest restEnds)

/-- At the top and directly below a group a junction has no parentheses of its own. -/
theorem begins_junction (operator : Operator) (some : children ≠ [])
    (each : ∀ child ∈ children, child.Begins) :
    (node id (.composite (.junction operator)) enclosing children).Begins := by
  have text := chars_junction id enclosing operator some
    fun child member => (each child member).chars_ne_nil
  by_cases bare : enclosing.all Kind.isGroup = true
  · rw [if_pos bare] at text
    refine ⟨fun rest ends => ?_, fun _ boxed => ?_⟩
    · rw [text]
      exact clauseFront_joinedText operator some
        (fun child member => (each child member).clause) ends
    · exact absurd (bare.symm.trans boxed) (by decide)
  · rw [if_neg bare] at text
    refine .of_front fun rest _ => ?_
    rw [text]
    exact .opening _ (by decide)

theorem begins_tokenizedPhrase (some : terms children ≠ []) :
    (node id (.composite .tokenizedPhrase) enclosing children).Begins := by
  obtain ⟨first, head⟩ := exists_head?_eq_some some
  refine .of_front fun rest _ => ?_
  rw [chars_tokenizedPhrase head]
  exact front_fieldText fun _ => .opening _ (by decide)

theorem begins_multiPhrase (some : terms children ≠ []) :
    (node id (.composite .multiPhrase) enclosing children).Begins := by
  obtain ⟨first, head⟩ := exists_head?_eq_some some
  refine .of_front fun rest _ => ?_
  rw [chars_multiPhrase head]
  exact front_fieldText fun _ => .opening _ (by decide)

theorem begins_proximity (near : Proximity) :
    (node id (.composite (.proximity near)) enclosing children).Begins := by
  refine .of_front fun rest _ => ?_
  rw [chars_proximity]
  cases namedField near.field with
  | none => exact .opening _ (by decide)
  | some name =>
      rw [List.append_assoc]
      exact .field name _

end Shapes

/-- A legible branch begins like a clause or like an atom. -/
theorem IsLegible.begins {around : Option String} {slopped : Bool} {branch : Branch}
    (legible : IsLegible around slopped branch) (linked : branch.IsLinked) :
    branch.Begins := by
  induction legible with
  | field placed noKeyword filled =>
      refine .of_front fun rest ends => ?_
      rw [chars_field]
      exact front_word noKeyword ends fun bare empty => absurd empty (filled bare)
  | quotedField placed whole =>
      refine .of_front fun rest ends => ?_
      rw [chars_quotedField]
      exact front_fieldText fun _ => .opening _ (by decide)
  | fuzzy placed noKeyword =>
      refine .of_front fun rest ends => ?_
      rw [chars_fuzzy, List.append_assoc]
      exact front_word noKeyword (.slopped _) fun _ _ => rfl
  | matchAll =>
      refine .of_front fun rest _ => ?_
      rw [chars_matchAll]
      exact .opening _ (by decide)
  | group unsigned legible inductionHypothesis =>
      refine .of_front fun rest _ => ?_
      rw [chars_group]
      exact .opening _ (by decide)
  | @stacked _ _ id modifier enclosing child others stacked legible inductionHypothesis =>
      exact begins_stacked modifier stacked
  | neutral plain legible inductionHypothesis =>
      refine begins_of_child linked inductionHypothesis (sign_eq_none plain) rfl
        ((chars_neutral plain).trans (List.append_nil _).symm) ?_
      exact fun _ ends => ends
  | signed sign plain legible inductionHypothesis => exact begins_signed sign plain
  | boost unsigned legible number inductionHypothesis =>
      exact begins_of_child linked inductionHypothesis unsigned rfl (chars_boost _)
        fun _ _ => .boosted _
  | slop unsigned word legible inductionHypothesis =>
      exact begins_of_child linked inductionHypothesis unsigned rfl (chars_slop _)
        fun _ _ => .slopped _
  | @junction _ _ id operator enclosing children some few legible inductionHypothesis =>
      exact begins_junction operator some
        fun child member => inductionHypothesis child member (linked.child member)
  | tokenizedPhrase several whole numbered same =>
      exact begins_tokenizedPhrase
        (List.ne_nil_of_length_pos (Nat.lt_of_lt_of_le Nat.two_pos several))
  | multiPhrase some positive same => exact begins_multiPhrase some
  | @proximity _ _ id near enclosing children legible inductionHypothesis =>
      exact begins_proximity near

end Branch

end QueryForest
