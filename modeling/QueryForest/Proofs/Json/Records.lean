import QueryForest.Json.Record
import QueryForest.Proofs.Sequence

/-!
# What records are read from members

A record that is read without a fault is put together from what is read for
its fields, and each field depends on the one member with its name only.
Which of several faults is reported plays no part here.
-/

namespace QueryForest

section Results

variable {Error Item Result : Type}

theorem toOption_bind (first : Except Error Item)
    (next : Item → Except Error Result) :
    (first >>= next).toOption = first.toOption.bind fun item => (next item).toOption := by
  cases first <;> rfl

theorem toOption_map (make : Item → Result) (outcome : Except Error Item) :
    (make <$> outcome).toOption = outcome.toOption.map make := by
  cases outcome <;> rfl

theorem toOption_mapM (step : Item → Except Error Result) (items : List Item) :
    (items.mapM step).toOption = items.mapM fun item => (step item).toOption := by
  induction items with
  | nil => rfl
  | cons head tail inductionHypothesis =>
      rw [List.mapM_cons, List.mapM_cons, toOption_bind]
      refine congrArg _ (funext fun first => ?_)
      rw [toOption_bind, inductionHypothesis]
      rfl

end Results

namespace Json

variable {Part Whole : Type}

def valueOf? (key : String) (members : List (String × Json)) : Option Json :=
  (locate key members).map Prod.snd

@[simp]
theorem valueOf?_nil (key : String) : valueOf? key [] = none :=
  rfl

@[simp]
theorem valueOf?_cons (key other : String) (value : Json)
    (members : List (String × Json)) :
    valueOf? key ((other, value) :: members) =
      if other = key then some value else valueOf? key members := by
  unfold valueOf?
  rw [locate]
  by_cases same : other = key
  · rw [if_pos same, if_pos same]
    rfl
  · rw [if_neg same, if_neg same, Option.map_map]
    rfl

theorem repeated?_eq_none {keys before : List String}
    {members : List (String × Json)} (nodup : (members.map Prod.fst).Nodup)
    (apart : ∀ key ∈ members.map Prod.fst, key ∉ before) :
    repeated? keys before members = none := by
  induction members generalizing before with
  | nil => rfl
  | cons head tail inductionHypothesis =>
      obtain ⟨key, value⟩ := head
      rw [List.map_cons, List.nodup_cons] at nodup
      have unseen : before.contains key = false := by
        simpa using apart key List.mem_cons_self
      have rest : repeated? keys (key :: before) tail = none := by
        apply inductionHypothesis nodup.2
        intro other member seen
        rcases List.mem_cons.mp seen with rfl | seen
        · exact nodup.1 member
        · exact apart other (List.mem_cons_of_mem key member) seen
      rw [repeated?, unseen, Bool.and_false, if_neg Bool.false_ne_true, rest]
      rfl

namespace Fields

/-- What the fields are read as from members, if there is no fault. -/
def found? (fields : Fields Part) (members : List (String × Json)) : Option Part :=
  (fields.read ⟨members, .missingField⟩).toOption

variable (members : List (String × Json))

@[simp]
theorem found?_none (part : Part) : (Fields.none part).found? members = some part :=
  rfl

theorem found?_one (name : String) (decode : Json → Except Fault Part)
    (standard : Option Part) :
    (one name decode standard).found? members =
      match valueOf? name members with
      | some value => (decode value).toOption
      | Option.none => standard := by
  unfold found? one valueOf?
  dsimp only
  cases found : locate name members with
  | none => cases standard <;> rfl
  | some located =>
      obtain ⟨place, value⟩ := located
      show ((decode value).mapError fun fault => (place, fault)).toOption =
        (decode value).toOption
      cases decode value <;> rfl

@[simp]
theorem found?_required (name : String) (decode : Json → Except Fault Part) :
    (required name decode).found? members =
      (valueOf? name members).bind fun value => (decode value).toOption := by
  rw [required, found?_one]
  cases valueOf? name members <;> rfl

@[simp]
theorem found?_optional (name : String) (standard : Part)
    (decode : Json → Except Fault Part) :
    (optional name standard decode).found? members =
      match valueOf? name members with
      | some value => (decode value).toOption
      | Option.none => some standard := by
  rw [optional, found?_one]

@[simp]
theorem found?_and (first : Fields (Part → Whole)) (second : Fields Part) :
    (first.and second).found? members =
      (first.found? members).bind fun make => (second.found? members).map make := by
  unfold found? Fields.and
  dsimp only
  cases first.read ⟨members, .missingField⟩ <;>
    cases second.read ⟨members, .missingField⟩ <;> rfl

@[simp]
theorem found?_map (make : Part → Whole) (part : Fields Part) :
    (part.map make).found? members = (part.found? members).map make := by
  rw [Fields.map, found?_and, found?_none, Option.bind_some]

theorem toOption_ofMembers (fields : Fields Whole) {members : List (String × Json)}
    (nodup : (members.map Prod.fst).Nodup) :
    (fields.ofMembers members).toOption = fields.found? members := by
  have once : repeated? fields.names [] members = Option.none :=
    repeated?_eq_none nodup fun _ _ => List.not_mem_nil
  unfold ofMembers found?
  rw [once]
  cases fields.read ⟨members, .missingField⟩ <;> rfl

end Fields

end Json

end QueryForest
