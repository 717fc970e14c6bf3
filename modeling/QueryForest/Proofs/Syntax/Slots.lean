import QueryForest.Proofs.Compile.Made
import QueryForest.Proofs.Syntax.Phrases

/-!
# Slots and steps

A phrase with alternatives is written as numbered slots and compiled to steps, and
each of the two gathers the terms by position for itself.  The slots have the
numbers of the steps, and what is between them has a question mark.
-/

namespace QueryForest

open QueryReader (split)

variable {groups : List (UInt32 × List Term)}

/-- A slot behind a number of slots is that of the group with its number, or there
is no such group. -/
theorem mem_zipIdx_slotTexts {passed : Nat}
    (ascending : (groups.map Prod.fst).Pairwise (· < ·))
    (above : ∀ group ∈ groups, passed < group.1.toNat) {slot : List Char} {number : Nat}
    (member : (slot, number) ∈ (slotTexts passed groups).zipIdx (passed + 1)) :
    (∃ group ∈ groups, group.1.toNat = number ∧ slot = slotText group.2) ∨
      (slot = ['?'] ∧ ∀ group ∈ groups, group.1.toNat ≠ number) := by
  induction groups generalizing passed with
  | nil => cases member
  | cons group tail inductionHypothesis =>
      obtain ⟨first, _⟩ := List.forall_mem_cons.mp above
      obtain ⟨later, ordered⟩ := ascending_tail ascending
      have reached : passed + 1 +
          (List.replicate (group.1.toNat - (passed + 1)) ['?']).length = group.1.toNat := by
        rw [List.length_replicate]
        omega
      -- The slots are the marks up to the first group, its own slot, and the later ones.
      rw [slotTexts, List.zipIdx_append, reached, List.zipIdx_cons] at member
      rcases List.mem_append.mp member with skipped | behind
      · refine .inr ⟨List.eq_of_mem_replicate (List.fst_mem_of_mem_zipIdx skipped), ?_⟩
        have early : number < group.1.toNat := reached ▸ List.snd_lt_add_of_mem_zipIdx skipped
        refine List.forall_mem_cons.mpr ⟨early.ne', fun other inside => ?_⟩
        exact (early.trans (later other inside)).ne'
      · rcases List.mem_cons.mp behind with same | behind
        · cases same
          exact .inl ⟨group, List.mem_cons_self, rfl, rfl⟩
        · have past : group.1.toNat + 1 ≤ number := List.le_snd_of_mem_zipIdx behind
          rcases inductionHypothesis ordered later behind with
            ⟨other, inside, numbered, same⟩ | ⟨mark, none⟩
          · exact .inl ⟨other, List.mem_cons_of_mem group inside, numbered, same⟩
          · exact .inr ⟨mark, List.forall_mem_cons.mpr ⟨by omega, none⟩⟩

/-- The last slot has the greatest of the positions. -/
theorem max?_position_slotTexts {passed : Nat} (some : groups ≠ [])
    (ascending : (groups.map Prod.fst).Pairwise (· < ·))
    (above : ∀ group ∈ groups, passed < group.1.toNat) :
    (groups.map fun group => group.1.toNat).max? =
      .some (passed + (slotTexts passed groups).length) := by
  induction groups generalizing passed with
  | nil => exact absurd rfl some
  | cons group tail inductionHypothesis =>
      obtain ⟨first, _⟩ := List.forall_mem_cons.mp above
      obtain ⟨later, ordered⟩ := ascending_tail ascending
      have length : passed + (slotTexts passed (group :: tail)).length =
          group.1.toNat + (slotTexts group.1.toNat tail).length := by
        rw [slotTexts, List.length_append, List.length_replicate, List.length_cons]
        omega
      rw [length, List.map_cons, List.max?_cons]
      cases tail with
      | nil => rfl
      | cons second others =>
          rw [inductionHypothesis (List.cons_ne_nil second others) ordered later]
          exact congrArg Option.some (by simp)

/-! ## What slots tell -/

/-- Slots that are numbered from one tell what the steps of a phrase search for:
there are as many as the greatest position, and each has the texts of the step at
its number, or a question mark if there is no such step. -/
structure SlotsTell (slots : List (List Char)) (steps : List PhraseStep) : Prop where
  count : (steps.map fun step => step.position.toNat).max? = some slots.length
  gap : ∀ slot number, (slot, number) ∈ slots.zipIdx 1 →
    (slot = ['?'] ↔ ∀ step ∈ steps, step.position.toNat ≠ number)
  alternatives : ∀ slot number, (slot, number) ∈ slots.zipIdx 1 →
    ∀ step ∈ steps, step.position.toNat = number →
      ((split '|' slot).map fun single => String.ofList (Text.unescape single)) =
        step.terms.map FieldTerm.text

theorem texts_slotText {terms : List Term} (some : terms ≠ []) :
    ((split '|' (slotText terms)).map fun single => String.ofList (Text.unescape single)) =
      terms.map Term.text := by
  rw [split_slotText some, List.map_map]
  refine List.map_congr_left fun term _ => ?_
  show String.ofList (Text.unescape (Text.escapeWord _)) = _
  rw [Text.unescape_escapeWord, String.ofList_toList]

theorem slotsTell_slotTexts (options : CompileOptions) (some : groups ≠ [])
    (ascending : (groups.map Prod.fst).Pairwise (· < ·))
    (above : ∀ group ∈ groups, 0 < group.1.toNat) (filled : ∀ group ∈ groups, group.2 ≠ []) :
    SlotsTell (slotTexts 0 groups)
      (groups.map fun group => ⟨group.1, group.2.map (Standard.fieldTerm options)⟩) where
  count := by
    rw [List.map_map, ← Nat.zero_add (slotTexts 0 groups).length]
    exact max?_position_slotTexts some ascending above
  gap := by
    intro slot number member
    rw [List.forall_mem_map]
    rcases mem_zipIdx_slotTexts ascending above member with
      ⟨group, inside, numbered, rfl⟩ | ⟨mark, none⟩
    · exact iff_of_false (slotText_ne_mark (filled group inside))
        fun none => none group inside numbered
    · exact iff_of_true mark none
  alternatives := by
    intro slot number member
    refine List.forall_mem_map.mpr fun other within numberedToo => ?_
    rcases mem_zipIdx_slotTexts ascending above member with
      ⟨group, inside, numbered, rfl⟩ | ⟨_, none⟩
    · have distinct : (groups.map Prod.fst).Nodup := ascending.imp UInt32.ne_of_lt
      have same : group = other := List.inj_on_of_nodup_map distinct inside within
        (UInt32.toNat_inj.mp (numbered.trans numberedToo.symm))
      subst same
      rw [texts_slotText (filled group inside), List.map_map]
      rfl
    · exact absurd numberedToo (none other within)

/-- The slots of some terms tell the steps that the terms are compiled to. -/
theorem slotsTell_phraseSteps (options : CompileOptions) {terms : List Term} (some : terms ≠ [])
    (positive : ∀ term ∈ terms, term.position ≠ 0) :
    SlotsTell (split ' ' ([' '].intercalate (slotTexts 0 (groupedTerms terms))))
      (Standard.phraseSteps options terms) := by
  have gathered : ∀ group ∈ groupedTerms terms, IsGathered (fun _ (_ : Term) => True) group :=
    isGathered_groupByPosition fun _ _ => trivial
  rw [split_slotTexts (groupedTerms_ne_nil some), Standard.phraseSteps_eq_map]
  exact slotsTell_slotTexts options (groupedTerms_ne_nil some) (ascending_groupByPosition _)
    (position_groupedTerms positive) fun group member => (gathered group member).1

namespace Standard

variable {options : CompileOptions}

theorem eq_fieldTerm_of_leafQuery {bottom : Leaf Similarity} {term : Term} {found : FieldTerm}
    (termed : bottom.term? = some term) (same : Query.term found = leafQuery options bottom) :
    found = fieldTerm options term := by
  cases bottom with
  | field _ | quotedField _ =>
      cases termed
      cases same
      rfl
  -- A fuzzy leaf has a term as well, but what is built from it is no term.
  | fuzzy _ _ _ => cases same
  | matchAll | matchNone => cases termed

/-- The terms of children that each have one, with their positions. -/
theorem eq_map_terms {children : List Branch} {items : List (UInt32 × FieldTerm)}
    (each : List.Forall₂ (fun child item => ∃ term, child.term? = some term ∧
      item = (term.position, fieldTerm options term)) children items) :
    items = (Branch.terms children).map fun term => (term.position, fieldTerm options term) := by
  induction each with
  | nil => rfl
  | cons first _ inductionHypothesis =>
      obtain ⟨term, termed, rfl⟩ := first
      rw [Branch.terms, List.filterMap_cons_some termed, List.map_cons, inductionHypothesis]
      rfl

/-- Leaves and phrases with alternatives are built from the terms below them. -/
structure BuiltOfTerms (options : CompileOptions) (part : Branch) (query : Query) : Prop where
  leaf : ∀ bottom, part.kind = .leaf bottom → query = leafQuery options bottom
  phrase : part.kind = .composite .multiPhrase →
    query = .multiPhrase (phraseSteps options (Branch.terms part.children)) 0
  whole : part.kind = .composite .multiPhrase →
    (Branch.terms part.children).length = part.children.length

theorem builtOfTerms_of_makes {forest : Forest} {artifacts : Annotations Table Query} {part : Branch}
    {query : Query} (covers : Compiler.Covers (BuiltOfTerms options) artifacts part.children)
    (made : (compiler options).Makes forest artifacts part query) :
    BuiltOfTerms options part query := by
  have phrased (kind : part.kind = .composite .multiPhrase) :
      query = .multiPhrase (phraseSteps options (Branch.terms part.children)) 0 ∧
        (Branch.terms part.children).length = part.children.length := by
    obtain ⟨items, rfl, found⟩ := made_of_multiPhrase made kind
    have each : List.Forall₂ (fun child item => ∃ term, child.term? = some term ∧
        item = (term.position, fieldTerm options term)) part.children items := by
      refine (forall₂_members found).imp fun child item listed => ?_
      obtain ⟨member, _, present, term, termed, positioned⟩ := listed
      obtain ⟨artifact, also, built⟩ := covers child member
      rw [present] at also
      cases also
      refine ⟨term, termed, Prod.ext positioned.symm ?_⟩
      cases kind : child.kind with
      | leaf bottom =>
          rw [Branch.term?, kind] at termed
          exact eq_fieldTerm_of_leafQuery termed (built.leaf bottom kind)
      | wrapper _ | composite _ | extension _ =>
          rw [Branch.term?, kind] at termed
          cases termed
    have length := each.length_eq
    rw [eq_map_terms each, List.length_map] at length
    rw [eq_map_terms each]
    exact ⟨rfl, length.symm⟩
  exact ⟨fun _ kind => made_of_leaf made kind, fun kind => (phrased kind).1,
    fun kind => (phrased kind).2⟩

end Standard

namespace QueryStyle

/-- A field is written as it is escaped, or not at all. -/
theorem exists_writtenField (style : QueryStyle) (field : Option String) :
    ∃ written : Option String, (∀ name ∈ written, field = some name) ∧
      style.writtenField field = written.map style.escaper.escape := by
  cases field with
  | none => exact ⟨none, by simp, rfl⟩
  | some name =>
      by_cases quiet : (name = plainField || style.defaultField = some name) = true
      · exact ⟨none, by simp, if_pos quiet⟩
      · exact ⟨some name, fun _ same => same, if_neg quiet⟩

/-- The field of a term stands in front of a body, or no field does. -/
theorem exists_fieldText {style : QueryStyle} (standard : style.escaper = .standard)
    (term : Term) (body : String) :
    ∃ field : Option String, (∀ name ∈ field, term.field = some name) ∧
      (style.inFieldOf term body).toList = fieldText field body.toList := by
  unfold inFieldOf
  cases term.ignoreField with
  | true => exact ⟨none, by simp, rfl⟩
  | false =>
      obtain ⟨field, same, written⟩ := style.exists_writtenField term.field
      refine ⟨field, same, ?_⟩
      show (style.inField term.field body).toList = _
      rw [inField, written, standard]
      cases field with
      | none => rfl
      | some name =>
          simp only [Option.map_some, String.toList_append, List.append_assoc]
          exact congrArg (· ++ (":".toList ++ body.toList)) (toList_escape name)

theorem exists_toList_multiPhrase {style : QueryStyle} (standard : style.escaper = .standard)
    {terms : List Term} (some : terms ≠ []) :
    ∃ field : Option String, (∀ name ∈ field, terms.head?.bind Term.field = .some name) ∧
      (style.multiPhrase terms).toList = fieldText field ('\x7b' ::
        ([' '].intercalate (slotTexts 0 (groupedTerms terms)) ++ ['\x7d'])) := by
  obtain ⟨first, others, rfl⟩ := List.exists_cons_of_ne_nil some
  rw [multiPhrase_eq_inFieldOf standard List.head?_cons]
  obtain ⟨field, same, written⟩ := exists_fieldText standard first _
  exact ⟨field, same, written.trans (congrArg (fieldText field) String.toList_ofList)⟩

end QueryStyle

/-- A phrase with alternatives that is compiled to steps is written, with the standard
escaping, as slots that tell those steps. -/
theorem Branch.slotsTell_of_compileNode {forest : Forest} {id : NodeId} {branch : Branch}
    (read : forest.branch id = .ok branch) (kind : branch.kind = .composite .multiPhrase)
    (some : branch.children ≠ [])
    (positions : ∀ term ∈ terms branch.children,
      1 ≤ term.position.toNat ∧ term.position.toNat ≤ 2 ^ 32 - 2)
    {options : CompileOptions} {steps : List PhraseStep} {slop : UInt32}
    (compiled : (Standard.compiler options).compileNode forest id = .ok (.multiPhrase steps slop))
    (defaultField : Option String) :
    ∃ (field : Option String) (body : List Char),
      (∀ name ∈ field, (terms branch.children).head?.bind Term.field = .some name) ∧
      (branch.write { escaper := .standard, defaultField }).toList =
        fieldText field ('\x7b' :: (body ++ ['\x7d'])) ∧
      SlotsTell (split ' ' body) steps := by
  have built : Standard.BuiltOfTerms options branch (.multiPhrase steps slop) :=
    Compiler.holds_of_compileNode compiled read
      fun _ _ _ covers _ made => Standard.builtOfTerms_of_makes covers made
  have whole := built.whole kind
  cases built.phrase kind
  obtain ⟨id, _, enclosing, children⟩ := branch
  cases kind
  change children ≠ [] at some
  have several : terms children ≠ [] := by
    intro none
    rw [Branch.children, none] at whole
    exact some (List.eq_nil_of_length_eq_zero whole.symm)
  have positive : ∀ term ∈ terms children, term.position ≠ 0 := by
    intro term member zero
    have counted := (positions term member).1
    rw [zero] at counted
    exact absurd counted (by decide)
  let style : QueryStyle := { escaper := .standard, defaultField }
  obtain ⟨field, same, written⟩ :=
    QueryStyle.exists_toList_multiPhrase (show style.escaper = .standard from rfl) several
  exact ⟨field, _, same, written, slotsTell_phraseSteps options several positive⟩

def markTerm : Term :=
  { field := some "a:b", text := "?", position := 4 }

def emptyTerm : Term :=
  { text := "", position := 4 }

def spacedTerm : Term :=
  { text := "x |", position := 2 }

/-- A phrase with gaps before both of its positions. -/
def gappedForest : Forest :=
  Operation.runAll .empty
    [.add (.leaf (.field markTerm)), .add (.leaf (.quotedField emptyTerm)),
      .add (.leaf (.field spacedTerm)), .addWithChildren (.composite .multiPhrase) [0, 1, 2]]

def gappedTree : Branch :=
  .node 3 (.composite .multiPhrase) none
    [.node 0 (.leaf (.field markTerm)) (some (.composite .multiPhrase)) [],
      .node 1 (.leaf (.quotedField emptyTerm)) (some (.composite .multiPhrase)) [],
      .node 2 (.leaf (.field spacedTerm)) (some (.composite .multiPhrase)) []]

def gappedSteps : List PhraseStep :=
  [⟨2, [⟨plainField, "x |"⟩]⟩, ⟨4, [⟨"a:b", "?"⟩, ⟨plainField, ""⟩]⟩]

theorem Branch.slotsTell_of_compileNode_gapped :
    gappedForest.branch 3 = .ok gappedTree ∧ gappedTree.children ≠ [] ∧
      (∀ term ∈ Branch.terms gappedTree.children,
        1 ≤ term.position.toNat ∧ term.position.toNat ≤ 2 ^ 32 - 2) ∧
      (Standard.compiler).compileNode gappedForest 3 = .ok (.multiPhrase gappedSteps 0) ∧
      gappedTree.standardText = "a\\:b:\x7b? x\\ \\| ? \\?|\x7d" ∧
      ∃ field body, gappedTree.standardText.toList =
          fieldText field ('\x7b' :: (body ++ ['\x7d'])) ∧
        SlotsTell (split ' ' body) gappedSteps := by
  have read : gappedForest.branch 3 = .ok gappedTree := rfl
  have some : gappedTree.children ≠ [] := List.cons_ne_nil _ _
  have positions : ∀ term ∈ Branch.terms gappedTree.children,
      1 ≤ term.position.toNat ∧ term.position.toNat ≤ 2 ^ 32 - 2 := by decide
  have compiled : (Standard.compiler).compileNode gappedForest 3 =
      .ok (.multiPhrase gappedSteps 0) := rfl
  obtain ⟨field, body, _, written, told⟩ :=
    Branch.slotsTell_of_compileNode read rfl some positions compiled none
  exact ⟨read, some, positions, compiled, by decide +kernel, field, body, written, told⟩

end QueryForest
