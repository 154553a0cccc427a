import ArchiveLedger.Catalog.Queries

/-!
# What a selection looks at

A clause of a selection looks at one object and at the copies of that object only
(`Clause.Local`), and all clauses but those of Location groups look at the object
alone (`Clause.Static`).  A group without an age does not look at the time either
(`selectionPredicate_timeless`).
-/

namespace ArchiveLedger

open Relational Transition

/-- The clause looks at the object alone. -/
def Clause.Static (clause : Clause) : Prop := ∀ c d o, clause c o = clause d o

/-- The two catalogs have the same copies of the object. -/
def SameCopies (c d : Catalog) (o : ObjectRow) : Prop :=
  ∀ f, f.objectId = o.objectId → (f ∈ c.files.rows ↔ f ∈ d.files.rows)

/-- The clause looks at the object and its copies. -/
def Clause.Local (clause : Clause) : Prop := ∀ c d o, SameCopies c d o → clause c o = clause d o

theorem Clause.Static.isLocal {clause : Clause} (h : clause.Static) : clause.Local :=
  fun c d o _ => h c d o

theorem holds_eq_of_local {selection : CatalogSelection}
    (h : ∀ clause ∈ selection.clauses, clause.Local) {c d : Catalog} {o : ObjectRow}
    (hsame : SameCopies c d o) : selection.holds c o = selection.holds d o := by
  unfold CatalogSelection.holds
  rw [Bool.eq_iff_iff, List.all_eq_true, List.all_eq_true]
  exact forall_congr' fun clause => ⟨fun hc hm => by rw [← h clause hm c d o hsame]; exact hc hm,
    fun hd hm => by rw [h clause hm c d o hsame]; exact hd hm⟩

theorem holds_eq_of_static {selection : CatalogSelection}
    (h : ∀ clause ∈ selection.clauses, clause.Static) (c d : Catalog) (o : ObjectRow) :
    selection.holds c o = selection.holds d o := by
  unfold CatalogSelection.holds
  rw [Bool.eq_iff_iff, List.all_eq_true, List.all_eq_true]
  exact forall₂_congr fun clause hc => by rw [h clause hc c d]

/-! ### The clauses of a filter -/

theorem collectionClauses_static {collection : Option String} {clause : Clause}
    (h : clause ∈ collectionClauses collection) : clause.Static := by
  cases collection with
  | none => cases h
  | some id =>
    obtain rfl := List.mem_singleton.mp h
    exact fun _ _ _ => rfl

theorem objectClauses_static {object : Option String} {clause : Clause}
    (h : clause ∈ objectClauses object) : clause.Static := by
  cases object with
  | none => cases h
  | some id =>
    obtain rfl := List.mem_singleton.mp h
    exact fun _ _ _ => rfl

theorem identityClauses_static {state : Option String} {clauses : List Clause} {clause : Clause}
    (hok : identityClauses state = .ok clauses) (h : clause ∈ clauses) : clause.Static := by
  unfold identityClauses at hok
  split at hok
  · split at hok
    · cases hok
      obtain rfl := List.mem_singleton.mp h
      exact fun _ _ _ => rfl
    · split at hok
      · cases hok
        obtain rfl := List.mem_singleton.mp h
        exact fun _ _ _ => rfl
      · cases hok
  · cases hok
    cases h

theorem prefixClauses_static {bytes : Bytes} {clause : Clause} (h : clause ∈ prefixClauses bytes) :
    clause.Static := by
  unfold prefixClauses at h
  split at h
  · rcases List.mem_cons.mp h with rfl | h
    · exact fun _ _ _ => rfl
    · obtain rfl := List.mem_singleton.mp h
      exact fun _ _ _ => rfl
  · obtain rfl := List.mem_singleton.mp h
    exact fun _ _ _ => rfl

theorem pathClauses_static {exactPath pathPrefix : Option EncodedPath} {clause : Clause}
    (h : clause ∈ pathClauses exactPath pathPrefix) : clause.Static := by
  unfold pathClauses at h
  split at h
  · rcases List.mem_cons.mp h with rfl | h
    · exact fun _ _ _ => rfl
    · obtain rfl := List.mem_singleton.mp h
      exact fun _ _ _ => rfl
  · rcases List.mem_cons.mp h with rfl | h
    · exact fun _ _ _ => rfl
    · exact prefixClauses_static h
  · cases h

theorem resolvedClauses_static {groups : List FileLocationGroup} {clause : Clause}
    (h : clause ∈ resolvedClauses groups) : clause.Static := by
  unfold resolvedClauses at h
  split at h
  · cases h
  · obtain rfl := List.mem_singleton.mp h
    exact fun _ _ _ => rfl

theorem groupClause_local (asOf : Nat) (group : FileLocationGroup) :
    (groupClause asOf group).Local := by
  intro c d o hsame
  have hany : ∀ t u : Table fileSchema, (∀ f, f.objectId = o.objectId → (f ∈ t.rows → f ∈ u.rows)) →
      t.rows.any (healthyCopy group asOf o) = true → u.rows.any (healthyCopy group asOf o) = true := by
    intro t u h ht
    obtain ⟨f, hf, hhealthy⟩ := List.any_eq_true.mp ht
    have hid : f.objectId = o.objectId := by
      simp only [healthyCopy, Bool.and_eq_true, decide_eq_true_eq] at hhealthy
      exact hhealthy.1.1.1.1.1.1
    exact List.any_eq_true.mpr ⟨f, h f hid hf, hhealthy⟩
  have : c.files.rows.any (healthyCopy group asOf o) = d.files.rows.any (healthyCopy group asOf o) := by
    rw [Bool.eq_iff_iff]
    exact ⟨hany _ _ fun f hf => (hsame f hf).mp, hany _ _ fun f hf => (hsame f hf).mpr⟩
  rw [groupClause, groupClause, this]

theorem groupClauses_eq_ok {asOf : Nat} {groups : List FileLocationGroup} {clauses : List Clause} :
    groupClauses asOf groups = .ok clauses ↔
      (∀ g ∈ groups, g.locationIds ≠ []) ∧ clauses = groups.map (groupClause asOf) := by
  induction groups generalizing clauses with
  | nil => exact ⟨fun h => ⟨nofun, (Except.ok.inj h).symm⟩, fun h => congrArg Except.ok h.2.symm⟩
  | cons g rest ih =>
    rw [groupClauses]
    constructor
    · intro h
      split at h
      · cases h
      · rename_i hne
        obtain ⟨more, hmore, h⟩ := bind_eq_ok.mp h
        cases h
        obtain ⟨hall, rfl⟩ := ih.mp hmore
        exact ⟨List.forall_mem_cons.mpr ⟨hne, hall⟩, rfl⟩
    · rintro ⟨hall, rfl⟩
      obtain ⟨hne, hall⟩ := List.forall_mem_cons.mp hall
      rw [if_neg hne, bind_eq_ok]
      exact ⟨_, ih.mpr ⟨hall, rfl⟩, rfl⟩

/-! ### The selection of a filter -/

/-- The checks of a filter that do not concern single clauses. -/
def CatalogFileFilter.Bounded (filter : CatalogFileFilter) : Prop :=
  ¬ (filter.exactPath.isSome = true ∧ filter.pathPrefix.isSome = true) ∧
    ¬ (filter.locationGroups.length > 32 ∨
      (filter.locationGroups.map fun g => g.locationIds.length).sum > 2048)

theorem selectionPredicate_eq_ok {filter : CatalogFileFilter} {time : Nat}
    {selection : CatalogSelection} :
    selectionPredicate filter time = .ok selection ↔
      time ≤ i64Max ∧ filter.Bounded ∧ (∀ g ∈ filter.locationGroups, g.locationIds ≠ []) ∧
        ∃ identity, identityClauses filter.identityState = .ok identity ∧
          selection = ⟨collectionClauses filter.collectionId ++ objectClauses filter.objectId ++
            identity ++ pathClauses filter.exactPath filter.pathPrefix ++
            resolvedClauses filter.locationGroups ++
            filter.locationGroups.map (groupClause time)⟩ := by
  unfold selectionPredicate CatalogFileFilter.Bounded
  cases ht : sqlInteger time with
  | none =>
    have hgt : ¬ time ≤ i64Max := fun hle => by
      rw [sqlInteger_eq_some.mpr ⟨hle, rfl⟩] at ht
      cases ht
    simp [hgt]
  | some t =>
    obtain ⟨hle, rfl⟩ := sqlInteger_eq_some.mp ht
    dsimp only
    constructor
    · intro h
      split at h
      · cases h
      · rename_i hpath
        split at h
        · cases h
        · rename_i hmany
          obtain ⟨identity, hidentity, h⟩ := bind_eq_ok.mp h
          obtain ⟨groups, hgroups, h⟩ := bind_eq_ok.mp h
          cases h
          obtain ⟨hne, rfl⟩ := groupClauses_eq_ok.mp hgroups
          exact ⟨hle, ⟨hpath, hmany⟩, hne, identity, hidentity, rfl⟩
    · rintro ⟨-, ⟨hpath, hmany⟩, hne, identity, hidentity, rfl⟩
      rw [if_neg hpath, if_neg hmany, bind_eq_ok]
      refine ⟨identity, hidentity, ?_⟩
      rw [bind_eq_ok]
      exact ⟨_, groupClauses_eq_ok.mpr ⟨hne, rfl⟩, rfl⟩

theorem selectionPredicate_local {filter : CatalogFileFilter} {time : Nat}
    {selection : CatalogSelection} (h : selectionPredicate filter time = .ok selection) :
    ∀ clause ∈ selection.clauses, clause.Local := by
  obtain ⟨-, -, -, identity, hidentity, rfl⟩ := selectionPredicate_eq_ok.mp h
  intro clause hclause
  simp only [List.mem_append] at hclause
  rcases hclause with ((((hclause | hclause) | hclause) | hclause) | hclause) | hclause
  · exact (collectionClauses_static hclause).isLocal
  · exact (objectClauses_static hclause).isLocal
  · exact (identityClauses_static hidentity hclause).isLocal
  · exact (pathClauses_static hclause).isLocal
  · exact (resolvedClauses_static hclause).isLocal
  · obtain ⟨g, -, rfl⟩ := List.mem_map.mp hclause
    exact groupClause_local time g

/-- Without Location groups a selection looks at the objects alone. -/
theorem selectionPredicate_static {filter : CatalogFileFilter} {time : Nat}
    {selection : CatalogSelection} (hgroups : filter.locationGroups = [])
    (h : selectionPredicate filter time = .ok selection) :
    ∀ clause ∈ selection.clauses, clause.Static := by
  obtain ⟨-, -, -, identity, hidentity, rfl⟩ := selectionPredicate_eq_ok.mp h
  intro clause hclause
  simp only [hgroups, List.map_nil, List.append_nil, List.mem_append] at hclause
  rcases hclause with (((hclause | hclause) | hclause) | hclause) | hclause
  · exact collectionClauses_static hclause
  · exact objectClauses_static hclause
  · exact identityClauses_static hidentity hclause
  · exact pathClauses_static hclause
  · exact resolvedClauses_static hclause

/-- Without ages the time does not matter. -/
theorem selectionPredicate_timeless {filter : CatalogFileFilter} {time time' : Nat}
    {selection : CatalogSelection} (hages : ∀ g ∈ filter.locationGroups, g.verifiedWithinMs = none)
    (h : selectionPredicate filter time = .ok selection) (ht : time' ≤ i64Max) :
    selectionPredicate filter time' = .ok selection := by
  obtain ⟨-, hbounded, hne, identity, hidentity, rfl⟩ := selectionPredicate_eq_ok.mp h
  refine selectionPredicate_eq_ok.mpr ⟨ht, hbounded, hne, identity, hidentity, ?_⟩
  have hclauses : filter.locationGroups.map (groupClause time) =
      filter.locationGroups.map (groupClause time') := by
    refine List.map_congr_left fun g hg => ?_
    funext c o
    have hhealthy : healthyCopy g time o = healthyCopy g time' o := by
      funext f
      simp [healthyCopy, hages g hg]
    rw [groupClause, groupClause, hhealthy]
  rw [hclauses]

/-- A filter with a Collection selects objects of this Collection only. -/
theorem collection_of_holds {filter : CatalogFileFilter} {time : Nat} {selection : CatalogSelection}
    {c : Catalog} {o : ObjectRow} {collection : String}
    (h : selectionPredicate filter time = .ok selection) (hcol : filter.collectionId = some collection)
    (ho : selection.holds c o = true) : o.path.collectionId = collection := by
  obtain ⟨-, -, -, identity, -, rfl⟩ := selectionPredicate_eq_ok.mp h
  simp only [CatalogSelection.holds, hcol, collectionClauses, List.all_append, List.all_cons,
    List.all_nil, Bool.and_true, Bool.and_eq_true, decide_eq_true_eq] at ho
  exact ho.1.1.1.1.1

end ArchiveLedger
