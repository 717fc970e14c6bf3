import Mathlib.Data.List.Induction
import QueryForest.Compile.Registry
import QueryForest.Proofs.Sequence

/-!
# The latest registration counts

A registry is the outcome of its history, a list of registrations.  Which builder a
node gets depends on the history through the latest registration of each variant and
of each field only, and a further registration of a variant reaches only the nodes
that come to that variant before any other registered one.
-/

namespace QueryForest

/-- A registration of a builder, or of a function that serves as one. -/
inductive Registration (Artifact : Type) where
  | variant (variant : Variant) (builder : Builder Artifact)
  | field (field : String) (builder : Builder Artifact)

namespace Registration

variable {Artifact : Type}

def forVariant? (sought : Variant) : Registration Artifact → Option (Builder Artifact)
  | .variant named builder => if named = sought then some builder else none
  | .field _ _ => none

def forField? (sought : String) : Registration Artifact → Option (Builder Artifact)
  | .variant _ _ => none
  | .field named builder => if named = sought then some builder else none

/-- The builder that was last registered for a variant. -/
def lastForVariant (history : List (Registration Artifact)) (sought : Variant) :
    Option (Builder Artifact) :=
  (history.filterMap (forVariant? sought)).getLast?

def lastForField (history : List (Registration Artifact)) (sought : String) :
    Option (Builder Artifact) :=
  (history.filterMap (forField? sought)).getLast?

end Registration

/-- The variants that a node can be built as: its own, and then those that it can be
treated as, nearest first. -/
def Kind.chain (kind : Kind) : List Variant :=
  kind.variant :: kind.fallbacks

/-- The field of the term that a field, quoted or fuzzy leaf searches for. -/
def Kind.termField? (kind : Kind) : Option String :=
  kind.term?.bind Term.field

namespace Registry

open Registration (lastForField lastForVariant)

variable {Artifact : Type}

def enter (registry : Registry Artifact) : Registration Artifact → Registry Artifact
  | .variant variant builder => registry.register variant builder
  | .field field builder => registry.registerField field builder

/-- The registry after several registrations, empty at first. -/
def ofHistory (history : List (Registration Artifact)) : Registry Artifact :=
  history.foldl enter .empty

theorem ofHistory_concat (history : List (Registration Artifact))
    (registration : Registration Artifact) :
    ofHistory (history ++ [registration]) = (ofHistory history).enter registration := by
  simp [ofHistory]

theorem get?_variants_ofHistory (history : List (Registration Artifact)) (variant : Variant) :
    (ofHistory history).variants.get? variant = lastForVariant history variant := by
  induction history using List.reverseRecOn with
  | nil => rfl
  | append_singleton earlier registration inductionHypothesis =>
      rw [ofHistory_concat, lastForVariant, getLast?_filterMap_concat, ← lastForVariant,
        ← inductionHypothesis]
      cases registration with
      | variant other builder =>
          rw [enter, register, Table.get?_insert, Registration.forVariant?]
          by_cases same : other = variant
          · rw [if_pos same, if_pos same.symm, Option.some_or]
          · rw [if_neg same, if_neg (Ne.symm same), Option.none_or]
      | field _ _ => rfl

theorem get?_fields_ofHistory (history : List (Registration Artifact)) (field : String) :
    (ofHistory history).fields.get? field = lastForField history field := by
  induction history using List.reverseRecOn with
  | nil => rfl
  | append_singleton earlier registration inductionHypothesis =>
      rw [ofHistory_concat, lastForField, getLast?_filterMap_concat, ← lastForField,
        ← inductionHypothesis]
      cases registration with
      | variant _ _ => rfl
      | field other builder =>
          rw [enter, registerField, Table.get?_insert, Registration.forField?]
          by_cases same : other = field
          · rw [if_pos same, if_pos same.symm, Option.some_or]
          · rw [if_neg same, if_neg (Ne.symm same), Option.none_or]

/-- The field of a term comes first, and the chain of its node second. -/
theorem builder?_eq_or (registry : Registry Artifact) (kind : Kind) :
    registry.builder? kind =
      (kind.termField?.bind registry.fields.get?).or
        (kind.chain.findSome? registry.variants.get?) := by
  have named : registry.fieldBuilder? kind = kind.termField?.bind registry.fields.get? := by
    rw [fieldBuilder?, Kind.termField?, Option.bind_assoc]
    rfl
  rw [builder?, named]
  cases kind.termField?.bind registry.fields.get? <;> rfl

theorem builder?_ofHistory (history : List (Registration Artifact)) (kind : Kind) :
    (ofHistory history).builder? kind =
      (kind.termField?.bind (lastForField history)).or
        (kind.chain.findSome? (lastForVariant history)) := by
  rw [builder?_eq_or, funext (get?_variants_ofHistory history),
    funext (get?_fields_ofHistory history)]

/-- A node comes to a variant: no builder is registered for its field, and none for the
variants in its chain before this one. -/
def ComesTo (history : List (Registration Artifact)) (variant : Variant) (kind : Kind) : Prop :=
  kind.termField?.bind (lastForField history) = none ∧
    ∃ before after, kind.chain = before ++ variant :: after ∧
      ∀ earlier ∈ before, lastForVariant history earlier = none

theorem lastForVariant_concat (history : List (Registration Artifact)) (variant : Variant)
    (builder : Builder Artifact) (other : Variant) :
    lastForVariant (history ++ [.variant variant builder]) other =
      if variant = other then some builder else lastForVariant history other := by
  rw [lastForVariant, getLast?_filterMap_concat, Registration.forVariant?]
  split
  · rw [Option.some_or]
  · rw [Option.none_or, lastForVariant]

theorem lastForField_concat (history : List (Registration Artifact)) (variant : Variant)
    (builder : Builder Artifact) :
    lastForField (history ++ [.variant variant builder]) = lastForField history := by
  funext field
  rw [lastForField, getLast?_filterMap_concat, Registration.forField?, Option.none_or, lastForField]

/-- Of keys that are looked up in turn, a key that is changed decides if those before it
have no value. -/
theorem findSome?_changed {Key Value : Type} [DecidableEq Key] {held : Key → Option Value}
    {key : Key} {before : List Key} (unknown : ∀ earlier ∈ before, held earlier = none)
    (value : Value) (after : List Key) :
    (before ++ key :: after).findSome?
      (fun other => if key = other then some value else held other) = some value := by
  induction before with
  | nil => rw [List.nil_append, List.findSome?_cons, if_pos rfl]
  | cons head tail inductionHypothesis =>
      obtain ⟨ofHead, ofTail⟩ := List.forall_mem_cons.mp unknown
      rw [List.cons_append, List.findSome?_cons, ofHead, inductionHypothesis ofTail]
      split <;> simp_all

/-- Otherwise the change is not noticed. -/
theorem findSome?_unchanged {Key Value : Type} [DecidableEq Key] {held : Key → Option Value}
    {key : Key} {keys : List Key}
    (hidden : ∀ before after, keys = before ++ key :: after →
      ∃ earlier ∈ before, held earlier ≠ none) (value : Value) :
    keys.findSome? (fun other => if key = other then some value else held other) =
      keys.findSome? held := by
  induction keys with
  | nil => rfl
  | cons head tail inductionHypothesis =>
      have other : key ≠ head := by
        rintro rfl
        obtain ⟨_, absurdity, _⟩ := hidden [] tail rfl
        cases absurdity
      rw [List.findSome?_cons, List.findSome?_cons, if_neg other]
      cases found : held head with
      | some known => rfl
      | none =>
          apply inductionHypothesis
          rintro before after rfl
          obtain ⟨earlier, member, known⟩ := hidden (head :: before) after rfl
          rcases List.mem_cons.mp member with rfl | later
          · exact absurd found known
          · exact ⟨earlier, later, known⟩

theorem builder?_of_comesTo {history : List (Registration Artifact)} {variant : Variant}
    {kind : Kind} (comes : ComesTo history variant kind) (builder : Builder Artifact) :
    (ofHistory (history ++ [.variant variant builder])).builder? kind = some builder := by
  obtain ⟨unnamed, before, after, chain, unregistered⟩ := comes
  rw [builder?_ofHistory, lastForField_concat, unnamed, Option.none_or,
    funext (lastForVariant_concat history variant builder), chain]
  exact findSome?_changed unregistered builder after

/-- It is not found by others. -/
theorem builder?_of_not_comesTo {history : List (Registration Artifact)} {variant : Variant}
    {kind : Kind} (passes : ¬ ComesTo history variant kind) (builder : Builder Artifact) :
    (ofHistory (history ++ [.variant variant builder])).builder? kind =
      (ofHistory history).builder? kind := by
  rw [builder?_ofHistory, builder?_ofHistory, lastForField_concat]
  cases unnamed : kind.termField?.bind (lastForField history) with
  | some forField => rw [Option.some_or, Option.some_or]
  | none =>
      rw [Option.none_or, Option.none_or, funext (lastForVariant_concat history variant builder)]
      apply findSome?_unchanged
      intro before after chain
      by_contra unregistered
      push Not at unregistered
      exact passes ⟨unnamed, before, after, chain, unregistered⟩

/-- Every node gets the builder that was last registered for the field of its term, and
else for the first variant in its chain that was ever registered.  So histories with the
same last registrations choose the same builders, and a further registration of a
variant is noticed by those who come to that variant and by nobody else. -/
theorem latest_registration_counts (history : List (Registration Artifact)) :
    (∀ kind, (ofHistory history).builder? kind =
      (kind.termField?.bind (lastForField history)).or
        (kind.chain.findSome? (lastForVariant history))) ∧
    (∀ other, lastForVariant other = lastForVariant history →
      lastForField other = lastForField history →
        ∀ kind, (ofHistory other).builder? kind = (ofHistory history).builder? kind) ∧
    ∀ variant builder kind,
      (ComesTo history variant kind →
        (ofHistory (history ++ [.variant variant builder])).builder? kind = some builder) ∧
      (¬ ComesTo history variant kind →
        (ofHistory (history ++ [.variant variant builder])).builder? kind =
          (ofHistory history).builder? kind) := by
  refine ⟨builder?_ofHistory history, fun other variants fields kind => ?_,
    fun variant builder kind => ⟨fun comes => ?_, fun passes => ?_⟩⟩
  · rw [builder?_ofHistory, builder?_ofHistory, variants, fields]
  · exact builder?_of_comesTo comes builder
  · exact builder?_of_not_comesTo passes builder

def labelled (label : String) : Builder String :=
  fun _ _ => .ok label

def revisedHistory : List (Registration String) :=
  [.variant .boolean (labelled "old"), .field "title" (labelled "title"),
    .variant .boolean (labelled "new"), .variant .field (labelled "field")]

/-- A node that can be treated as a junction, and as something that nobody builds. -/
def spanning : Kind :=
  .extension ⟨⟨"near"⟩, [⟨"span"⟩, .boolean, .field, .boolean], .many, "near", [],
    fun clauses _ => String.intercalate " " clauses⟩

theorem latest_registration_counts_spanning :
    (ofHistory revisedHistory).builder? spanning = some (labelled "new") ∧
      ComesTo revisedHistory ⟨"span"⟩ spanning ∧
      (ofHistory (revisedHistory ++ [.variant ⟨"span"⟩ (labelled "span")])).builder? spanning =
        some (labelled "span") ∧
      ¬ ComesTo revisedHistory .field spanning ∧
      (ofHistory (revisedHistory ++ [.variant .field (labelled "other")])).builder? spanning =
        some (labelled "new") := by
  obtain ⟨chosen, _, added⟩ := latest_registration_counts revisedHistory
  have junction : (ofHistory revisedHistory).builder? spanning = some (labelled "new") :=
    chosen spanning
  have comes : ComesTo revisedHistory ⟨"span"⟩ spanning :=
    ⟨rfl, [⟨"near"⟩], [.boolean, .field, .boolean], rfl, List.forall_mem_singleton.mpr rfl⟩
  have passes : ¬ ComesTo revisedHistory .field spanning := by
    rintro ⟨_, before, after, chain, unregistered⟩
    have hidden : Variant.boolean ∈ before := by
      rcases before with _ | ⟨first, _ | ⟨second, _ | ⟨third, others⟩⟩⟩ <;>
        simp_all [spanning, Kind.chain, Kind.variant, Kind.fallbacks, Variant.field,
          Variant.boolean]
    cases unregistered .boolean hidden
  exact ⟨junction, comes, (added _ _ _).1 comes, passes, ((added _ _ _).2 passes).trans junction⟩

end Registry

end QueryForest
