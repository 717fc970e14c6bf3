import QueryForest.Proofs.Forest.Moving

/-!
# Moves keep forests sound

A move may break what ties the two directions of links together in the middle,
but not as a whole: each of the four moves keeps a forest sound, provided that
no node comes below itself and that a new parent has room for its child.
-/

namespace QueryForest.Forest

variable {forest : Forest}

namespace Sound

/-- A forest is sound when its views are. -/
theorem of_views
    (rootLt : ∀ root, forest.root = some root → root < forest.size)
    (memIff : ∀ parent child,
      child ∈ forest.childrenOf parent ↔ forest.parentOf child = some parent)
    (nodup : ∀ parent, (forest.childrenOf parent).Nodup)
    (ends : ∀ id, forest.EndsAbove id)
    (room : ∀ id kind, forest.kindOf id = some kind →
      kind.arity.admits (forest.childrenOf id).length) : forest.Sound where
  root_lt := rootLt
  mem_childrenOf_iff := memIff
  nodup_childrenOf := nodup
  endsAbove := ends
  admits id node present := by
    rw [← childrenOf_of_getElem? present]
    exact room id node.kind (kindOf_of_getElem? present)

theorem not_mem_childrenOf_of_parentless (sound : forest.Sound)
    {child : NodeId} (parentless : forest.parentOf child = none)
    (parent : NodeId) : child ∉ forest.childrenOf parent := by
  intro member
  have linked := (sound.mem_childrenOf_iff parent child).mp member
  rw [parentless] at linked
  cases linked

/-! ## Leaving a parent -/

/-- Leaving a parent keeps a forest sound. -/
theorem severed (sound : forest.Sound) (child : NodeId) :
    (forest.severed child).Sound := by
  refine of_views ?_ ?_ ?_ ?_ ?_
  · intro root rooted
    rw [size_severed]
    exact sound.root_lt root rooted
  · intro parent other
    rw [childrenOf_severed, parentOf_severed, List.mem_filter,
      sound.mem_childrenOf_iff]
    by_cases same : other = child
    · simp [same]
    · simp [same]
  · intro parent
    rw [childrenOf_severed]
    exact (sound.nodup_childrenOf parent).filter _
  · intro id
    apply (sound.endsAbove id).of_fewer
    intro other parent linked
    rw [parentOf_severed] at linked
    by_cases same : other = child
    · rw [if_pos same] at linked
      cases linked
    · rwa [if_neg same] at linked
  · intro id kind known
    rw [kindOf_severed] at known
    rw [childrenOf_severed]
    exact (sound.admits_childrenOf known).mono (List.length_filter_le ..)

/-- A node without a parent is nobody's child, so it leaves nothing. -/
theorem severed_eq_self (sound : forest.Sound) {child : NodeId}
    (parentless : forest.parentOf child = none) :
    forest.severed child = forest := by
  unfold Forest.severed
  apply revise_eq_self
  intro id node present
  have absent : child ∉ node.children := by
    rw [← childrenOf_of_getElem? present]
    exact sound.not_mem_childrenOf_of_parentless parentless id
  have kept : node.children.filter (· != child) = node.children := by
    apply List.filter_eq_self.mpr
    intro other member
    simp only [bne_iff_ne, ne_eq]
    rintro rfl
    exact absent member
  have alone : (if id = child then none else node.parent) = node.parent := by
    by_cases same : id = child
    · subst same
      rw [if_pos rfl, ← parentOf_of_getElem? present, parentless]
    · rw [if_neg same]
  rw [kept, alone]

theorem unrooted (sound : forest.Sound) (id : NodeId) :
    (forest.unrooted id).Sound where
  root_lt root rooted := by
    have rooted : (if forest.root = some id then none else forest.root)
        = some root := rooted
    by_cases same : forest.root = some id
    · rw [if_pos same] at rooted
      cases rooted
    · rw [if_neg same] at rooted
      exact sound.root_lt root rooted
  mem_childrenOf_iff := sound.mem_childrenOf_iff
  nodup_childrenOf := sound.nodup_childrenOf
  endsAbove other := (sound.endsAbove other).of_fewer fun _ _ linked => linked
  admits := sound.admits

/-- Any node of the arena can be the root. -/
theorem rooted (sound : forest.Sound) {root : NodeId}
    (inside : root < forest.size) :
    ({ forest with root := some root } : Forest).Sound where
  root_lt other rooted := by
    cases rooted
    exact inside
  mem_childrenOf_iff := sound.mem_childrenOf_iff
  nodup_childrenOf := sound.nodup_childrenOf
  endsAbove other := (sound.endsAbove other).of_fewer fun _ _ linked => linked
  admits := sound.admits

/-! ## Going to a parent -/

/-- A node can go to a parent that is not below it and has room for it. -/
theorem placed (sound : forest.Sound) {parent child : NodeId}
    (parentInside : parent < forest.size) (childInside : child < forest.size)
    (apart : ¬ forest.IsAbove child parent)
    (room : ∀ kind, forest.kindOf parent = some kind →
      kind.arity.admits
        (((forest.childrenOf parent).filter (· != child)).length + 1)) :
    (forest.placed parent child).Sound := by
  have parents := fun id => parentOf_placed forest child parent id childInside
  have lists := fun id => childrenOf_placed forest child parent id parentInside
  refine of_views ?_ ?_ ?_ ?_ ?_
  · intro root rooted
    rw [size_placed]
    exact (sound.unrooted child).root_lt root rooted
  · intro other id
    rw [lists, parents, List.mem_append, List.mem_filter,
      sound.mem_childrenOf_iff]
    by_cases sameChild : id = child
    · subst sameChild
      by_cases sameParent : other = parent
      · simp [sameParent]
      · have different : parent ≠ other := Ne.symm sameParent
        simp [sameParent, different]
    · by_cases sameParent : other = parent
      · simp [sameChild, sameParent]
      · simp [sameChild, sameParent]
  · intro other
    rw [lists]
    have kept := (sound.nodup_childrenOf other).filter (· != child)
    by_cases sameParent : other = parent
    · rw [if_pos sameParent]
      refine List.nodup_append.mpr ⟨kept, List.nodup_singleton _, ?_⟩
      intro former member added addedMember
      rw [List.mem_singleton.mp addedMember]
      simpa using (List.mem_filter.mp member).2
    · rwa [if_neg sameParent, List.append_nil]
  · apply endsAbove_of_moved sound.endsAbove apart
    exact fun id other linked => parentOf_of_placement ((parents id).symm.trans linked)
  · intro id kind known
    rw [kindOf_placed] at known
    rw [lists, List.length_append]
    by_cases sameParent : id = parent
    · subst sameParent
      rw [if_pos rfl, List.length_singleton]
      exact room kind known
    · rw [if_neg sameParent, List.length_nil, Nat.add_zero]
      exact (sound.admits_childrenOf known).mono (List.length_filter_le ..)

/-- Losing all children keeps a forest sound. -/
theorem orphaned (sound : forest.Sound) (parent : NodeId) :
    (forest.orphaned parent).Sound := by
  refine of_views ?_ ?_ ?_ ?_ ?_
  · intro root rooted
    rw [size_orphaned]
    exact sound.root_lt root rooted
  · intro other id
    rw [childrenOf_orphaned, parentOf_orphaned]
    by_cases sameParent : other = parent
    · subst sameParent
      by_cases linked : forest.parentOf id = some other
      · simp [linked]
      · simp [linked]
    · rw [if_neg sameParent, sound.mem_childrenOf_iff]
      by_cases linked : forest.parentOf id = some parent
      · have different : parent ≠ other := Ne.symm sameParent
        simp [linked, different]
      · simp [linked]
  · intro other
    rw [childrenOf_orphaned]
    by_cases sameParent : other = parent
    · rw [if_pos sameParent]
      exact List.nodup_nil
    · rw [if_neg sameParent]
      exact sound.nodup_childrenOf other
  · intro id
    apply (sound.endsAbove id).of_fewer
    intro child other linked
    rw [parentOf_orphaned] at linked
    by_cases former : forest.parentOf child = some parent
    · rw [if_pos former] at linked
      cases linked
    · rwa [if_neg former] at linked
  · intro id kind known
    rw [kindOf_orphaned] at known
    rw [childrenOf_orphaned]
    by_cases sameParent : id = parent
    · rw [if_pos sameParent]
      exact kind.arity.admits_zero
    · rw [if_neg sameParent]
      exact sound.admits_childrenOf known

/-! ## Taking a place -/

section Exchange

variable {siblings : List NodeId} {former replacement : NodeId}

/-- Who is in a list where a replacement, which leaves its old place, stands for
another member. -/
theorem mem_exchanged_iff (different : former ≠ replacement) (listed : former ∈ siblings)
    (id : NodeId) :
    id ∈ (siblings.filter (· != replacement)).map
        (fun child => if child = former then replacement else child) ↔
      id ≠ former ∧ (id = replacement ∨ id ∈ siblings) := by
  simp only [List.mem_map, List.mem_filter, bne_iff_ne]
  constructor
  · rintro ⟨child, ⟨member, _⟩, rfl⟩
    by_cases isFormer : child = former
    · rw [if_pos isFormer]
      exact ⟨Ne.symm different, .inl rfl⟩
    · rw [if_neg isFormer]
      exact ⟨isFormer, .inr member⟩
  · rintro ⟨notFormer, member⟩
    by_cases isReplacement : id = replacement
    · exact ⟨former, ⟨listed, different⟩, (if_pos rfl).trans isReplacement.symm⟩
    · exact ⟨id, ⟨member.resolve_left isReplacement, isReplacement⟩, if_neg notFormer⟩

theorem nodup_exchanged (nodup : siblings.Nodup) :
    ((siblings.filter (· != replacement)).map
      fun child => if child = former then replacement else child).Nodup := by
  apply (nodup.filter _).map_on
  intro first firstMember second secondMember same
  have firstStays : first ≠ replacement := by
    simpa using (List.mem_filter.mp firstMember).2
  have secondStays : second ≠ replacement := by
    simpa using (List.mem_filter.mp secondMember).2
  by_cases firstFormer : first = former
  · by_cases secondFormer : second = former
    · rw [firstFormer, secondFormer]
    · rw [if_pos firstFormer, if_neg secondFormer] at same
      exact absurd same.symm secondStays
  · by_cases secondFormer : second = former
    · rw [if_neg firstFormer, if_pos secondFormer] at same
      exact absurd same firstStays
    · rwa [if_neg firstFormer, if_neg secondFormer] at same

end Exchange

/-- A node can take the place of a child of a node that is not below it. -/
theorem substituted (sound : forest.Sound)
    {parent former replacement : NodeId}
    (inside : replacement < forest.size) (different : former ≠ replacement)
    (linked : forest.parentOf former = some parent)
    (apart : ¬ forest.IsAbove replacement parent) :
    (forest.substituted parent former replacement).Sound := by
  have parents := fun id =>
    parentOf_substituted forest parent former replacement id inside
  have lists := fun id =>
    childrenOf_substituted forest parent former replacement id
  have listed : former ∈ forest.childrenOf parent :=
    (sound.mem_childrenOf_iff parent former).mpr linked
  refine of_views ?_ ?_ ?_ ?_ ?_
  · intro root rooted
    rw [size_substituted]
    exact sound.root_lt root rooted
  · intro other id
    rw [lists, parents]
    by_cases sameParent : other = parent
    · subst sameParent
      rw [if_pos rfl, mem_exchanged_iff different listed, sound.mem_childrenOf_iff]
      by_cases sameFormer : id = former
      · simp [sameFormer]
      · by_cases sameReplacement : id = replacement
        · simp [sameReplacement, Ne.symm different]
        · simp [sameFormer, sameReplacement]
    · rw [if_neg sameParent, List.mem_filter, sound.mem_childrenOf_iff]
      have otherParent : parent ≠ other := Ne.symm sameParent
      by_cases sameFormer : id = former
      · subst sameFormer
        simp [linked, otherParent]
      · by_cases sameReplacement : id = replacement
        · simp [sameReplacement, Ne.symm different, otherParent]
        · simp [sameFormer, sameReplacement]
  · intro other
    rw [lists]
    by_cases sameParent : other = parent
    · rw [if_pos sameParent]
      exact nodup_exchanged (sound.nodup_childrenOf other)
    · rw [if_neg sameParent]
      exact (sound.nodup_childrenOf other).filter _
  · apply endsAbove_of_moved sound.endsAbove apart
    exact fun id other nowLinked => parentOf_of_exchange ((parents id).symm.trans nowLinked)
  · intro id kind known
    rw [kindOf_substituted] at known
    have fewer := (sound.admits_childrenOf known).mono
      (List.length_filter_le (· != replacement) _)
    rw [lists]
    by_cases sameParent : id = parent
    · rwa [if_pos sameParent, List.length_map]
    · rwa [if_neg sameParent]

/-- A change of kind that keeps the arity keeps a forest sound. -/
theorem rekinded (sound : forest.Sound) (id : NodeId)
    {change : Kind → Kind} (sameArity : ∀ kind, (change kind).arity = kind.arity) :
    (forest.rekinded id change).Sound := by
  refine of_views ?_ ?_ ?_ ?_ ?_
  · intro root rooted
    rw [size_rekinded]
    exact sound.root_lt root rooted
  · intro parent child
    rw [childrenOf_rekinded, parentOf_rekinded]
    exact sound.mem_childrenOf_iff parent child
  · intro parent
    rw [childrenOf_rekinded]
    exact sound.nodup_childrenOf parent
  · intro other
    exact (sound.endsAbove other).congr (parentOf_rekinded forest id · change)
  · intro other kind known
    rw [kindOf_rekinded] at known
    obtain ⟨former, formerKnown, becomes⟩ := Option.map_eq_some_iff.mp known
    have arityKept : kind.arity = former.arity := by
      rw [← becomes]
      by_cases same : other = id
      · rw [if_pos same, sameArity]
      · rw [if_neg same]
    rw [arityKept, childrenOf_rekinded]
    exact sound.admits_childrenOf formerKnown

theorem bound (sound : forest.Sound) (parent child : NodeId) :
    (forest.bound parent child).Sound :=
  sound.rekinded child (Kind.arity_bound _)

end Sound

end QueryForest.Forest
