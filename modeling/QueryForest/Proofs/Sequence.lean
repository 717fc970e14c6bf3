import Mathlib.Data.List.Forall2

namespace QueryForest

variable {Error Item Result Other : Type}

theorem bind_eq_ok {first : Except Error Item} {next : Item → Except Error Result}
    {result : Result} :
    first >>= next = .ok result ↔
      ∃ item, first = .ok item ∧ next item = .ok result := by
  cases first with
  | error error =>
      refine iff_of_false (fun stopped => ?_) ?_
      · cases stopped
      · rintro ⟨_, done, _⟩
        cases done
  | ok item =>
      constructor
      · exact fun done => ⟨item, rfl, done⟩
      · rintro ⟨_, same, done⟩
        cases same
        exact done

theorem toOption_eq_some {outcome : Except Error Result} {result : Result} :
    outcome.toOption = some result ↔ outcome = .ok result := by
  cases outcome with
  | error error => simp [Except.toOption]
  | ok other => simp [Except.toOption]

/-- Each result belongs to its item. -/
theorem mapM_eq_ok {step : Item → Except Error Result} {items : List Item}
    {results : List Result} :
    items.mapM step = .ok results ↔
      List.Forall₂ (fun item result => step item = .ok result) items results := by
  induction items generalizing results with
  | nil =>
      rw [List.mapM_nil, List.forall₂_nil_left_iff]
      constructor
      · intro done
        cases done
        rfl
      · rintro rfl
        rfl
  | cons head tail inductionHypothesis =>
      rw [List.mapM_cons, bind_eq_ok, List.forall₂_cons_left_iff]
      constructor
      · rintro ⟨first, firstDone, rest⟩
        obtain ⟨others, othersDone, same⟩ := bind_eq_ok.mp rest
        cases same
        exact ⟨first, others, firstDone, inductionHypothesis.mp othersDone, rfl⟩
      · rintro ⟨first, others, firstDone, othersDone, rfl⟩
        refine ⟨first, firstDone, bind_eq_ok.mpr ⟨others, ?_, rfl⟩⟩
        exact inductionHypothesis.mpr othersDone

/-- Results can be changed one by one or in the end. -/
theorem mapM_map_result (step : Item → Except Error Result) (change : Result → Other)
    (items : List Item) :
    items.mapM (fun item => (step item).map change) =
      (items.mapM step).map (List.map change) := by
  induction items with
  | nil => rfl
  | cons head tail inductionHypothesis =>
      rw [List.mapM_cons, List.mapM_cons, inductionHypothesis]
      cases step head with
      | error error => rfl
      | ok first => cases tail.mapM step <;> rfl

/-- In related lists, each item of the first has a related one in the second. -/
theorem exists_related_of_mem {related : Item → Result → Prop}
    {items : List Item} {results : List Result}
    (each : List.Forall₂ related items results) {item : Item} (member : item ∈ items) :
    ∃ result ∈ results, related item result := by
  induction each with
  | nil => cases member
  | cons first _ inductionHypothesis =>
      rcases List.mem_cons.mp member with rfl | later
      · exact ⟨_, List.mem_cons_self, first⟩
      · obtain ⟨result, resultMember, itemRelated⟩ := inductionHypothesis later
        exact ⟨result, List.mem_cons_of_mem _ resultMember, itemRelated⟩

/-- In related lists it is members that are related. -/
theorem forall₂_members {related : Item → Result → Prop} {items : List Item}
    {results : List Result} (each : List.Forall₂ related items results) :
    List.Forall₂ (fun item result => item ∈ items ∧ result ∈ results ∧ related item result)
      items results := by
  induction each with
  | nil => exact .nil
  | cons first _ inductionHypothesis =>
      refine .cons ⟨List.mem_cons_self, List.mem_cons_self, first⟩ (inductionHypothesis.imp ?_)
      rintro item result ⟨member, resultMember, pair⟩
      exact ⟨List.mem_cons_of_mem _ member, List.mem_cons_of_mem _ resultMember, pair⟩

theorem map_eq_map_of_forall₂ {related : Item → Result → Prop} {first : Item → Other}
    {second : Result → Other} {items : List Item} {results : List Result}
    (each : List.Forall₂ related items results)
    (same : ∀ item result, related item result → first item = second result) :
    items.map first = results.map second := by
  rw [← List.forall₂_eq_eq_eq, List.forall₂_map_left_iff, List.forall₂_map_right_iff]
  exact each.imp same

/-- Related lists have different images if one item differs from what it is related
to. -/
theorem map_ne_map_of_forall₂ {related : Item → Result → Prop} {first : Item → Other}
    {second : Result → Other} {items : List Item} {results : List Result}
    (each : List.Forall₂ related items results) {item : Item} (member : item ∈ items)
    (differs : ∀ result, related item result → first item ≠ second result) :
    items.map first ≠ results.map second := by
  intro same
  induction each with
  | nil => cases member
  | cons pair _ inductionHypothesis =>
      obtain ⟨headSame, tailSame⟩ := List.cons.inj same
      rcases List.mem_cons.mp member with rfl | later
      · exact differs _ pair headSame
      · exact inductionHypothesis later tailSame

theorem exists_item_of_mem {step : Item → Except Error Result}
    {items : List Item} {results : List Result}
    (done : items.mapM step = .ok results) {result : Result}
    (member : result ∈ results) :
    ∃ item ∈ items, step item = .ok result :=
  exists_related_of_mem (mapM_eq_ok.mp done).flip member

/-- Results that name their items give the items back. -/
theorem map_eq_of_mapM {step : Item → Except Error Result}
    {name : Result → Item} {items : List Item} {results : List Result}
    (done : items.mapM step = .ok results)
    (named : ∀ item result, step item = .ok result → name result = item) :
    results.map name = items := by
  have each := mapM_eq_ok.mp done
  clear done
  induction each with
  | nil => rfl
  | cons first _ inductionHypothesis =>
      rw [List.map_cons, named _ _ first, inductionHypothesis]

/-- Items that have results one by one have them in a row. -/
theorem exists_forall₂ {related : Item → Result → Prop} {items : List Item}
    (each : ∀ item ∈ items, ∃ result, related item result) :
    ∃ results, List.Forall₂ related items results := by
  induction items with
  | nil => exact ⟨[], .nil⟩
  | cons head tail inductionHypothesis =>
      obtain ⟨first, firstRelated⟩ := each head List.mem_cons_self
      obtain ⟨others, othersRelated⟩ :=
        inductionHypothesis fun item member =>
          each item (List.mem_cons_of_mem head member)
      exact ⟨first :: others, .cons firstRelated othersRelated⟩

theorem exists_mapM_eq_ok {step : Item → Except Error Result}
    {items : List Item} (each : ∀ item ∈ items, ∃ result, step item = .ok result) :
    ∃ results, items.mapM step = .ok results := by
  obtain ⟨results, related⟩ := exists_forall₂ each
  exact ⟨results, mapM_eq_ok.mpr related⟩

theorem mapM_eq_map {step : Item → Except Error Result} {known : Item → Result}
    {items : List Item} (each : ∀ item ∈ items, step item = .ok (known item)) :
    items.mapM step = .ok (items.map known) := by
  rw [mapM_eq_ok, List.forall₂_map_right_iff, List.forall₂_same]
  exact each

theorem getLast?_filterMap_concat (step : Item → Option Result) (items : List Item) (last : Item) :
    ((items ++ [last]).filterMap step).getLast? =
      (step last).or (items.filterMap step).getLast? := by
  rw [List.filterMap_append, List.getLast?_append]
  cases found : step last <;> simp [found]

end QueryForest
