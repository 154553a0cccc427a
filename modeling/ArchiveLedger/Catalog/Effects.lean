import ArchiveLedger.Catalog.WritesSpec

/-!
# What a step does to objects, files and history

A step of a run does one of three things to the three tables that evidence is
about (`Effect`): it records an observation, it declares copies missing, or it
keeps objects and files and writes history about no object.  `change_effect` is
the inversion lemma all invariants of these tables are derived from.
-/

namespace ArchiveLedger

open Relational Transition

/-! ### Lookups after an observation -/

/-- The expectation an object holds; none as well when there is no such object. -/
def expectedOf (c : Catalog) (id : String) : Option Digest :=
  (c.objects.get? id).bind ObjectRow.expectedBlake3

theorem expectedOf_congr {c d : Catalog} (h : d.objects = c.objects) (id : String) :
    expectedOf d id = expectedOf c id := by rw [expectedOf, expectedOf, h]

theorem locateObject_cases (newId : String) (c : Catalog) (path : ObjectPath) :
    (∃ r, c.objectAt path = some r ∧ locateObject newId c path = (r.objectId, r.expectedBlake3)) ∨
      (c.objectAt path = none ∧ locateObject newId c path = (newId, none)) := by
  unfold locateObject
  cases c.objectAt path with
  | some r => exact Or.inl ⟨r, rfl, rfl⟩
  | none => exact Or.inr ⟨rfl, rfl⟩

/-- With an unused identifier the expectation found is the one the object holds. -/
theorem locateObject_expected {newId : String} {c : Catalog} (hnew : c.objects.get? newId = none)
    (path : ObjectPath) :
    (locateObject newId c path).2 = expectedOf c (locateObject newId c path).1 := by
  rcases locateObject_cases newId c path with ⟨r, hr, hl⟩ | ⟨_, hl⟩
  · have hget : c.objects.get? r.objectId = some r :=
      Table.get?_of_mem (Catalog.objectAt_eq_some.mp hr).1
    rw [hl, expectedOf, hget]
    rfl
  · rw [hl, expectedOf, hnew]
    rfl

/-- The row of an object after a decision. -/
def IdentityDecision.apply (decision : IdentityDecision) (r : ObjectRow) : ObjectRow :=
  match decision.stored with
  | some (blake3, sizeBytes) => r.expect blake3 sizeBytes
  | none => r

theorem get?_recordIdentity_of_ne {t : Table objectSchema} {id k : String} {path : ObjectPath}
    {display : String} {decision : IdentityDecision} (h : id ≠ k) :
    (recordIdentity t id path display decision).get? k = t.get? k := by
  have hrow : (t.insertOrIgnore ⟨id, path, display, none, none⟩).get? k = t.get? k :=
    Table.get?_insertOrIgnore_of_ne t h
  unfold recordIdentity
  split
  · rw [storeExpectation, Table.get?_modify, hrow]
    cases hg : t.get? k with
    | none => rfl
    | some r =>
      have : r.objectId ≠ id := fun e => h (e.symm.trans (Table.key_of_get? hg))
      simp [this]
  · exact hrow

/-- The object of an observation afterwards: the one at its path, or a new one. -/
theorem get?_recordIdentity {t : Table objectSchema} {id : String} {path : ObjectPath}
    {display : String} {decision : IdentityDecision} {r : ObjectRow}
    (h : (t.get? id = some r ∧ r.path = path) ∨
      (t.get? id = none ∧ (∀ s ∈ t.rows, s.path ≠ path) ∧ r = ⟨id, path, display, none, none⟩)) :
    (recordIdentity t id path display decision).get? id = some (decision.apply r) := by
  have hrow : (t.insertOrIgnore ⟨id, path, display, none, none⟩).get? id = some r := by
    rcases h with ⟨hr, hp⟩ | ⟨hnone, hfree, rfl⟩
    · rw [Table.insertOrIgnore_of_not, hr]
      intro hadm
      exact (hadm r (Table.mem_of_get? hr)).1 (Table.key_of_get? hr)
    · rw [Table.get?_insert (Table.insertOrIgnore_of_admits ?_)]
      · exact if_pos rfl
      intro s hs
      refine ⟨fun e => Table.get?_eq_none.mp hnone s hs e, ?_⟩
      simpa [objectSchema] using hfree s hs
  have hid : r.objectId = id := Table.key_of_get? hrow
  unfold recordIdentity IdentityDecision.apply
  cases hs : decision.stored with
  | none => exact hrow
  | some stored =>
    obtain ⟨blake3, sizeBytes⟩ := stored
    dsimp only
    rw [storeExpectation, Table.get?_modify, hrow]
    simp [hid]

/-- What a decision stores is the expectation it leaves. -/
theorem expected_decideIdentity (expected : Option Digest) (acceptChange : Bool)
    (result : ObservationResult) :
    (decideIdentity expected acceptChange result).expected =
      ((decideIdentity expected acceptChange result).stored.map Prod.fst).or expected := by
  cases result with
  | checksum blake3 sizeBytes =>
    unfold decideIdentity
    dsimp only
    split <;> rfl
  | _ => rfl

/-- The object an observation is about, as it finds it: the one at its path, or one
without an expectation. -/
def objectBefore (newId : String) (c : Catalog) (path : ObjectPath) (display : String) : ObjectRow :=
  (c.objectAt path).getD ⟨newId, path, display, none, none⟩

section Recorded

variable {newId : String} {c : Catalog} {o : CatalogObservation} {path : ObjectPath} {time : Nat}

/-- The identity decision of an observation. -/
def decisionAt (newId : String) (c : Catalog) (o : CatalogObservation) (path : ObjectPath) :
    IdentityDecision :=
  decideIdentity (locateObject newId c path).2 o.acceptChange o.result

/-- What an observation found. -/
def findingAt (newId : String) (c : Catalog) (o : CatalogObservation) (path : ObjectPath) : Finding :=
  judge (decisionAt newId c o path).expected o.result

theorem recordAt_objectId :
    (recordAt newId c o path time).1.objectId = (locateObject newId c path).1 := rfl

theorem get?_recordAt_of_ne {id : String} (h : (locateObject newId c path).1 ≠ id) :
    (recordAt newId c o path time).2.objects.get? id = c.objects.get? id :=
  get?_recordIdentity_of_ne h

theorem get?_recordAt (hnew : c.objects.get? newId = none) :
    (recordAt newId c o path time).2.objects.get? (locateObject newId c path).1 =
      some ((decisionAt newId c o path).apply (objectBefore newId c path o.path.display)) := by
  refine get?_recordIdentity ?_
  rcases locateObject_cases newId c path with ⟨r, hr, hl⟩ | ⟨hnone, hl⟩
  · obtain ⟨hmem, hpath⟩ := Catalog.objectAt_eq_some.mp hr
    refine Or.inl ⟨?_, ?_⟩
    · rw [hl, objectBefore, hr]
      exact Table.get?_of_mem hmem
    · rw [objectBefore, hr]
      exact hpath
  · refine Or.inr ⟨by rw [hl]; exact hnew, Catalog.objectAt_eq_none.mp hnone, ?_⟩
    rw [objectBefore, hnone, hl]
    rfl

theorem expected_objectBefore (display : String) :
    (objectBefore newId c path display).expectedBlake3 = (locateObject newId c path).2 := by
  unfold objectBefore locateObject
  cases c.objectAt path <;> rfl

/-- The row an observation leaves holds the expectation it decides. -/
theorem expected_apply_decisionAt :
    ((decisionAt newId c o path).apply (objectBefore newId c path o.path.display)).expectedBlake3 =
      (decisionAt newId c o path).expected := by
  rw [decisionAt, expected_decideIdentity, ← expected_objectBefore o.path.display,
    IdentityDecision.apply]
  cases (decideIdentity (objectBefore newId c path o.path.display).expectedBlake3
    o.acceptChange o.result).stored <;> rfl

@[simp] theorem IdentityDecision.path_apply (decision : IdentityDecision) (r : ObjectRow) :
    (decision.apply r).path = r.path := by
  unfold IdentityDecision.apply
  split <;> rfl

theorem path_objectBefore (display : String) : (objectBefore newId c path display).path = path := by
  unfold objectBefore
  cases h : c.objectAt path with
  | some r => exact (Catalog.objectAt_eq_some.mp h).2
  | none => rfl

/-- An observation moves the expectation of its own object only, to what it decides. -/
theorem expectedOf_recordAt (hnew : c.objects.get? newId = none) (id : String) :
    expectedOf (recordAt newId c o path time).2 id =
      if id = (locateObject newId c path).1 then (decisionAt newId c o path).expected
      else expectedOf c id := by
  by_cases hid : id = (locateObject newId c path).1
  · rw [if_pos hid, hid, expectedOf, get?_recordAt hnew, Option.bind_some]
    exact expected_apply_decisionAt
  · rw [if_neg hid, expectedOf, expectedOf, get?_recordAt_of_ne (Ne.symm hid)]

/-- The objects by path: an observation rewrites the one at its path. -/
theorem objectAt_recordAt (hnew : c.objects.get? newId = none) (path' : ObjectPath) :
    (recordAt newId c o path time).2.objectAt path' =
      if path' = path then
        some ((decisionAt newId c o path).apply (objectBefore newId c path o.path.display))
      else c.objectAt path' := by
  have hget := @get?_recordAt newId c o path time hnew
  by_cases hp : path' = path
  · rw [if_pos hp, hp, Catalog.objectAt_eq_some]
    exact ⟨Table.mem_of_get? hget, by rw [IdentityDecision.path_apply, path_objectBefore]⟩
  · rw [if_neg hp]
    ext r
    rw [Catalog.objectAt_eq_some, Catalog.objectAt_eq_some]
    refine and_congr_left fun hr => ?_
    by_cases hid : (locateObject newId c path).1 = r.objectId
    · -- the row under the observed object's identifier has the observed path
      constructor
      · intro hmem
        have hr' : (recordAt newId c o path time).2.objects.get? (locateObject newId c path).1
            = some r := Table.get?_eq_some.mpr ⟨hmem, hid.symm⟩
        rw [hget, Option.some.injEq] at hr'
        rw [← hr', IdentityDecision.path_apply, path_objectBefore] at hr
        exact absurd hr.symm hp
      · intro hmem
        rcases locateObject_cases newId c path with ⟨s, hs, hl⟩ | ⟨-, hl⟩
        · obtain ⟨hsmem, hspath⟩ := Catalog.objectAt_eq_some.mp hs
          rw [hl] at hid
          have : s = r := Table.eq_of_key hsmem hmem hid
          exact absurd (hr.symm.trans (this ▸ hspath)) hp
        · rw [hl] at hid
          exact absurd hid.symm (Table.get?_eq_none.mp hnew r hmem)
    · have hsame := @get?_recordAt_of_ne newId c o path time _ hid
      rw [Table.mem_rows_iff, Table.mem_rows_iff]
      exact iff_of_eq (congrArg (· = some r) hsame)

/-! ### Copies after an observation -/

theorem get?_forgetSuccesses (t : Table fileSchema) (objectId : String) (k : String × String) :
    (forgetSuccesses t objectId).get? k =
      if k.1 = objectId then (t.get? k).map FileRow.forgetSuccess else t.get? k := by
  rw [forgetSuccesses, Table.get?_modify]
  cases hg : t.get? k with
  | none => simp
  | some f =>
    have hk : f.objectId = k.1 := congrArg Prod.fst (Table.key_of_get? hg)
    by_cases h : k.1 = objectId <;> simp [hk, h]

/-- The row of a copy after a finding. -/
def Finding.copy (finding : Finding) (objectId locationId : String) (time : Nat)
    (old : Option FileRow) : FileRow :=
  match finding with
  | .metadata .present => (old.map FileRow.sight).getD (.unchecked objectId locationId .present)
  | .metadata presence => old.getD (.unchecked objectId locationId presence)
  | .check j => (old.map (FileRow.recheck time j)).getD (.ofCheck objectId locationId time j)

theorem get?_recordFinding (t : Table fileSchema) (objectId locationId : String) (time : Nat)
    (finding : Finding) (k : String × String) :
    (recordFinding t objectId locationId time finding).get? k =
      if (objectId, locationId) = k then
        some (finding.copy objectId locationId time (t.get? k))
      else t.get? k := by
  cases finding with
  | metadata presence =>
    cases presence with
    | present => rw [recordFinding, Table.get?_upsert]; rfl
    | _ => exact Table.get?_insertOrIgnore (fun _ _ => rfl) _ _ _
  | check j => rw [recordFinding, Table.get?_upsert]; rfl

/-- The copy before the finding: an accepted change made it forget its success. -/
def copyBefore (newId : String) (c : Catalog) (o : CatalogObservation) (path : ObjectPath)
    (k : String × String) : Option FileRow :=
  if (decisionAt newId c o path).accepted ∧ k.1 = (locateObject newId c path).1 then
    (c.files.get? k).map FileRow.forgetSuccess
  else c.files.get? k

theorem get?_recordAt_files (k : String × String) :
    (recordAt newId c o path time).2.files.get? k =
      if ((locateObject newId c path).1, o.locationId) = k then
        some ((findingAt newId c o path).copy (locateObject newId c path).1 o.locationId time
          (copyBefore newId c o path k))
      else copyBefore newId c o path k := by
  have hbefore : (if (decisionAt newId c o path).accepted
      then forgetSuccesses c.files (locateObject newId c path).1 else c.files).get? k =
        copyBefore newId c o path k := by
    unfold copyBefore
    by_cases ha : (decisionAt newId c o path).accepted = true
    · rw [if_pos ha, get?_forgetSuccesses]
      simp only [ha, true_and]
    · rw [if_neg ha]
      simp [ha]
  have hfiles : (recordAt newId c o path time).2.files =
      recordFinding (if (decisionAt newId c o path).accepted
        then forgetSuccesses c.files (locateObject newId c path).1 else c.files)
        (locateObject newId c path).1 o.locationId time (findingAt newId c o path) := rfl
  rw [hfiles, get?_recordFinding, hbefore]

theorem recordAt_history :
    (recordAt newId c o path time).2.history = c.history ++
      observationHistory o (locateObject newId c path).1 time (locateObject newId c path).2
        (decisionAt newId c o path) (findingAt newId c o path) := rfl

end Recorded

/-! ### Declarations -/

/-- The history row is about the copy of the object at the Location. -/
def HistoryRow.concerns (objectId locationId : String) (r : HistoryRow) : Bool :=
  r.objectId = some objectId && r.locationId = some locationId

/-- How a declaration rewrites a row, and the history row it writes for it. -/
structure Declaration (time : Nat) (declare : FileRow → FileRow) (entry : FileRow → HistoryRow) :
    Prop where
  objectId : ∀ f, (declare f).objectId = f.objectId
  locationId : ∀ f, (declare f).locationId = f.locationId
  presence : ∀ f, (declare f).presence = .missing
  integrity : ∀ f, (declare f).integrity = .unverified
  lastCheckTime : ∀ f, (declare f).lastCheckTimeUtcMs = some time
  lastCheckResult : ∀ f, (declare f).lastCheckResult = some .missing
  observed : ∀ f, (declare f).observedBlake3 = (entry f).observedBlake3
  lastSuccess : ∀ f, (declare f).lastSuccessTimeUtcMs = f.lastSuccessTimeUtcMs
  entry_objectId : ∀ f, (entry f).objectId = some f.objectId
  entry_locationId : ∀ f, (entry f).locationId = some f.locationId
  entry_time : ∀ f, (entry f).timeUtcMs = time
  entry_checkResult : ∀ f, (entry f).checkResult = some .missing
  entry_kind : ∀ f, (entry f).kind ≠ .expectedChecksumChanged

/-- The rows that satisfy `p`, none of them checked after `time`, are declared, each
with one history row. -/
structure Declared (c d : Catalog) (time : Nat) (p : FileRow → Bool) (declare : FileRow → FileRow)
    (entry : FileRow → HistoryRow) : Prop where
  objects : d.objects = c.objects
  files : ∀ k, d.files.get? k = (c.files.get? k).map fun f => if p f then declare f else f
  current : ∀ f ∈ c.files.rows, p f = true → ∀ prior ∈ f.lastCheckTimeUtcMs, prior ≤ time
  history : ∃ rows, d.history = c.history ++ rows ∧
    (∀ r ∈ rows, r.objectId = none ∨ ∃ f ∈ c.files.rows, r = entry f) ∧
    ∀ i l, rows.filter (HistoryRow.concerns i l) = (((c.files.get? (i, l)).filter p).map entry).toList

/-- An observation was recorded by this step. -/
def Event.records : Event → Bool
  | .submitted _ _ _ fresh => fresh
  | .committed _ => false

inductive Effect (c : Catalog) : Event → Catalog → Prop
  | observed {newId : String} {o : CatalogObservation} {path : ObjectPath} {time : Nat} {d : Catalog}
      (admitted : Admitted newId c o path time)
      (objects : d.objects = (recordAt newId c o path time).2.objects)
      (files : d.files = (recordAt newId c o path time).2.files)
      (history : d.history = (recordAt newId c o path time).2.history) :
      Effect c (.submitted newId o (recordAt newId c o path time).1 true) d
  | declared {op : Op} {d : Catalog} (time : Nat) (p : FileRow → Bool)
      (declare : FileRow → FileRow) (entry : FileRow → HistoryRow)
      (declaration : Declaration time declare entry)
      (declared : Declared c d time p declare entry) : Effect c (.committed op) d
  | kept {e : Event} {d : Catalog} (event : e.records = false) (objects : d.objects = c.objects)
      (files : d.files = c.files)
      (history : ∃ rows, d.history = c.history ++ rows ∧ ∀ r ∈ rows, r.objectId = none) :
      Effect c e d

/-! ### Scans and removals declare -/

theorem declaration_scan (c : Catalog) (jobId : String) (time : Nat) :
    Declaration time (FileRow.declareMissing time) (scanMissingHistory c jobId time) where
  objectId _ := rfl
  locationId _ := rfl
  presence _ := rfl
  integrity _ := rfl
  lastCheckTime _ := rfl
  lastCheckResult _ := rfl
  observed _ := rfl
  lastSuccess _ := rfl
  entry_objectId _ := rfl
  entry_locationId _ := rfl
  entry_time _ := rfl
  entry_checkResult _ := rfl
  entry_kind _ := nofun

/-- The `file_removed` history row as a function of the copy alone. -/
def removalEntry (c : Catalog) (time : Nat) (f : FileRow) : HistoryRow where
  objectId := some f.objectId
  locationId := some f.locationId
  timeUtcMs := time
  kind := .fileRemoved
  checkResult := some .missing
  expectedBlake3 := expectedOf c f.objectId
  observedBlake3 := f.observedBlake3
  details := .removed f.presence f.integrity

theorem declaration_removal (c : Catalog) (time : Nat) :
    Declaration time (FileRow.declareRemoved time) (removalEntry c time) where
  objectId _ := rfl
  locationId _ := rfl
  presence _ := rfl
  integrity _ := rfl
  lastCheckTime _ := rfl
  lastCheckResult _ := rfl
  observed _ := rfl
  lastSuccess _ := rfl
  entry_objectId _ := rfl
  entry_locationId _ := rfl
  entry_time _ := rfl
  entry_checkResult _ := rfl
  entry_kind _ := nofun

/-- Among the history rows of declared copies, those of one copy. -/
theorem filter_concerns_entries {time : Nat} {declare : FileRow → FileRow}
    {entry : FileRow → HistoryRow} (h : Declaration time declare entry) (t : Table fileSchema)
    (p : FileRow → Bool) (i l : String) :
    ((t.rows.filter p).map entry).filter (HistoryRow.concerns i l) =
      (((t.get? (i, l)).filter p).map entry).toList := by
  have hkey : ∀ f, (HistoryRow.concerns i l ∘ entry) f = decide (fileSchema.key f = (i, l)) := by
    intro f
    simp only [Function.comp, HistoryRow.concerns, h.entry_objectId, h.entry_locationId,
      Option.some.injEq, Prod.mk.injEq, Bool.decide_and]
  rw [List.filter_map, funext hkey, List.filter_filter]
  have hcomm : (fun f => decide (fileSchema.key f = (i, l)) && p f) =
      fun f => p f && decide (fileSchema.key f = (i, l)) := funext fun f => Bool.and_comm _ _
  rw [hcomm, ← List.filter_filter, Table.filter_key]
  cases t.get? (i, l) with
  | none => rfl
  | some f => cases hp : p f <;> simp [hp, Option.filter_some]

theorem declared_scan {c d : Catalog} {jobId collectionId locationId : String} {time missing : Nat}
    {summary : Json}
    (h : finishCatalogScan c jobId collectionId locationId true time summary = .ok (missing, d)) :
    Declared c d time (scanMisses c jobId collectionId locationId) (.declareMissing time)
      (scanMissingHistory c jobId time) := by
  obtain ⟨-, -, hcurrent, -, hd⟩ := finishCatalogScan_complete.mp h
  have hfiles : d.files = c.files.modify (scanMisses c jobId collectionId locationId)
      (.declareMissing time) := by rw [hd]; rfl
  refine ⟨by rw [hd]; rfl, fun k => by rw [hfiles, Table.get?_modify], ?_, ?_⟩
  · intro f hf hp prior hprior
    simp only [scanPredatesCheck, List.any_eq_false, Bool.and_eq_true, decide_eq_true_eq,
      not_and] at hcurrent
    simp only [scanMisses, Bool.and_eq_true, decide_eq_true_eq] at hp
    have hnone := hcurrent f hf ⟨hp.1.2, hp.1.1.1⟩
    rw [Option.mem_def.mp hprior] at hnone
    simpa using hnone
  · refine ⟨(c.files.rows.filter (scanMisses c jobId collectionId locationId)).map
      (scanMissingHistory c jobId time) ++
        [jobHistory time .jobFinished (.jobFinished jobId .complete summary)], ?_, ?_, ?_⟩
    · rw [hd]
      exact List.append_assoc _ _ _
    · intro r hr
      rcases List.mem_append.mp hr with hr | hr
      · obtain ⟨f, hf, rfl⟩ := List.mem_map.mp hr
        exact Or.inr ⟨f, List.mem_of_mem_filter hf, rfl⟩
      · rw [List.mem_singleton.mp hr]
        exact Or.inl rfl
    · intro i l
      rw [List.filter_append, filter_concerns_entries (declaration_scan c jobId time)]
      simp [HistoryRow.concerns, jobHistory]

/-- The objects a removal changes are among those of the catalog. -/
theorem mem_removedObjects {c : Catalog} {selection : RemovalSelection} {o : ObjectRow} :
    o ∈ removedObjects c selection ↔
      o ∈ c.objects.rows ∧ selection.predicate.holds c o = true ∧
        ∃ f, c.files.get? (o.objectId, selection.target) = some f ∧ f.presence ≠ .missing := by
  have hlast : (affectedPredicate selection).holds c o =
      (selection.predicate.holds c o && removableCopy selection.target c o) := by
    simp [affectedPredicate, CatalogSelection.holds]
  rw [removedObjects, List.mem_filter, hlast, Bool.and_eq_true, removableCopy]
  cases c.files.get? (o.objectId, selection.target) with
  | none => simp
  | some f => simp

theorem isRemoved_iff {c : Catalog} {selection : RemovalSelection} {f : FileRow} :
    isRemoved (removedObjects c selection) selection.target f = true ↔
      f.locationId = selection.target ∧
        ∃ o ∈ removedObjects c selection, o.objectId = f.objectId := by
  simp [isRemoved]

/-- The copies a removal changes, in the order of the selected objects. -/
theorem removed_copies (c : Catalog) (selection : RemovalSelection) :
    List.Perm (((removedObjects c selection).map ObjectRow.objectId).filterMap fun id =>
        c.files.get? (id, selection.target))
      (c.files.rows.filter (isRemoved (removedObjects c selection) selection.target)) := by
  have hids : ((removedObjects c selection).map ObjectRow.objectId).Nodup :=
    c.objects.keys_nodup.sublist (List.filter_sublist.map _)
  refine (List.perm_ext_iff_of_nodup ?_ (c.files.rows_nodup.filter _)).mpr ?_
  · refine hids.filterMap ?_
    intro i j f hi hj
    exact congrArg Prod.fst ((Table.key_of_get? hi).symm.trans (Table.key_of_get? hj))
  · intro f
    rw [List.mem_filterMap, List.mem_filter, isRemoved_iff]
    constructor
    · rintro ⟨id, hid, hf⟩
      obtain ⟨o, ho, rfl⟩ := List.mem_map.mp hid
      have hkey := Table.key_of_get? hf
      exact ⟨Table.mem_of_get? hf, congrArg Prod.snd hkey, o, ho, (congrArg Prod.fst hkey).symm⟩
    · rintro ⟨hf, htarget, o, ho, hid⟩
      exact ⟨o.objectId, List.mem_map.mpr ⟨o, ho, rfl⟩,
        Table.get?_eq_some.mpr ⟨hf, Prod.ext hid.symm htarget⟩⟩

/-- The history rows of a removal are the entries of the copies it changes. -/
theorem removal_entries (c : Catalog) (selection : RemovalSelection) (time : Nat) :
    List.Perm
      ((removedObjects c selection).filterMap fun o =>
        (c.files.get? (o.objectId, selection.target)).map (removedHistory time o))
      ((c.files.rows.filter (isRemoved (removedObjects c selection) selection.target)).map
        (removalEntry c time)) := by
  refine List.Perm.trans (List.Perm.of_eq ?_) ((removed_copies c selection).map _)
  rw [List.filterMap_map, List.map_filterMap]
  refine List.filterMap_congr fun o ho => ?_
  obtain ⟨hmem, -, f, hf, -⟩ := mem_removedObjects.mp ho
  have hid : f.objectId = o.objectId := congrArg Prod.fst (Table.key_of_get? hf)
  have hget : c.objects.get? o.objectId = some o := Table.get?_of_mem hmem
  simp [hf, removedHistory, removalEntry, hid, expectedOf, hget]

theorem declared_removal {c d : Catalog} {selection : RemovalSelection} {time : Nat}
    (hcurrent : removalPredatesCheck c (removedObjects c selection) selection.target time = false)
    (hd : d = (declareRemoved c (removedObjects c selection) selection.target time).bumpRevision) :
    Declared c d time (isRemoved (removedObjects c selection) selection.target)
      (.declareRemoved time) (removalEntry c time) := by
  have hfiles : d.files = c.files.modify
      (isRemoved (removedObjects c selection) selection.target) (.declareRemoved time) := by
    rw [hd]; rfl
  refine ⟨by rw [hd]; rfl, fun k => by rw [hfiles, Table.get?_modify], ?_, ?_⟩
  · intro f hf hp prior hprior
    obtain ⟨htarget, o, ho, hid⟩ := isRemoved_iff.mp hp
    rw [removalPredatesCheck, List.any_eq_false] at hcurrent
    have hlate := hcurrent o ho
    have hget : c.files.get? (o.objectId, selection.target) = some f :=
      Table.get?_eq_some.mpr ⟨hf, Prod.ext hid.symm htarget⟩
    rw [checkedAfter, hget, Option.bind_some, Option.mem_def.mp hprior] at hlate
    simpa using hlate
  · refine ⟨(removedObjects c selection).filterMap fun o =>
      (c.files.get? (o.objectId, selection.target)).map (removedHistory time o), by rw [hd]; rfl, ?_, ?_⟩
    · intro r hr
      obtain ⟨f, hf, rfl⟩ := List.mem_map.mp ((removal_entries c selection time).mem_iff.mp hr)
      exact Or.inr ⟨f, List.mem_of_mem_filter hf, rfl⟩
    · intro i l
      have hperm := (removal_entries c selection time).filter (HistoryRow.concerns i l)
      rw [filter_concerns_entries (declaration_removal c time)] at hperm
      cases hopt : ((c.files.get? (i, l)).filter
          (isRemoved (removedObjects c selection) selection.target)).map (removalEntry c time) with
      | none =>
        rw [hopt] at hperm
        exact List.perm_nil.mp hperm
      | some r =>
        rw [hopt] at hperm
        exact List.perm_singleton.mp hperm

/-! ### Registry changes -/

/-- The tables that registry changes never touch. -/
structure RegistryFrame (c d : Catalog) : Prop where
  archiveId : d.archiveId = c.archiveId
  objects : d.objects = c.objects
  files : d.files = c.files
  catalogJobs : d.catalogJobs = c.catalogJobs
  catalogScanSeen : d.catalogScanSeen = c.catalogScanSeen
  catalogWriteOperations : d.catalogWriteOperations = c.catalogWriteOperations
  catalogJobItems : d.catalogJobItems = c.catalogJobItems
  revision : d.revision = c.revision
  history : ∃ rows, d.history = c.history ++ rows ∧ ∀ r ∈ rows, r.objectId = none

theorem RegistryFrame.refl (c : Catalog) : RegistryFrame c c :=
  ⟨rfl, rfl, rfl, rfl, rfl, rfl, rfl, rfl, [], by simp, by simp⟩

/-- A catalog that differs in registry tables only. -/
theorem registryFrame_of {c d : Catalog} (harchive : d.archiveId = c.archiveId)
    (hobjects : d.objects = c.objects) (hfiles : d.files = c.files)
    (hjobs : d.catalogJobs = c.catalogJobs) (hseen : d.catalogScanSeen = c.catalogScanSeen)
    (hops : d.catalogWriteOperations = c.catalogWriteOperations)
    (hitems : d.catalogJobItems = c.catalogJobItems) (hrevision : d.revision = c.revision)
    (hhistory : d.history = c.history) : RegistryFrame c d ∧ d.history = c.history :=
  ⟨⟨harchive, hobjects, hfiles, hjobs, hseen, hops, hitems, hrevision, [],
    by rw [hhistory, List.append_nil], by simp⟩, hhistory⟩

theorem RegistryFrame.trans {c d e : Catalog} (h : RegistryFrame c d) (h' : RegistryFrame d e) :
    RegistryFrame c e := by
  obtain ⟨rows, hrows, hnone⟩ := h.history
  obtain ⟨rows', hrows', hnone'⟩ := h'.history
  exact ⟨h'.archiveId.trans h.archiveId, h'.objects.trans h.objects, h'.files.trans h.files,
    h'.catalogJobs.trans h.catalogJobs, h'.catalogScanSeen.trans h.catalogScanSeen,
    h'.catalogWriteOperations.trans h.catalogWriteOperations,
    h'.catalogJobItems.trans h.catalogJobItems, h'.revision.trans h.revision, rows ++ rows',
    by rw [hrows', hrows, List.append_assoc],
    fun r hr => (List.mem_append.mp hr).elim (hnone r) (hnone' r)⟩

theorem applyDevice_frame {tx d : Catalog} {action : RegistryAction} {v : DeviceSnapshot} {time : Nat}
    (h : applyDevice tx action v time = .ok d) : RegistryFrame tx d ∧ d.history = tx.history := by
  obtain ⟨devices, -, h⟩ := bind_eq_ok.mp h
  dsimp only at h
  split at h
  · split at h
    · obtain ⟨sites, -, h⟩ := bind_eq_ok.mp h
      cases h
      exact registryFrame_of rfl rfl rfl rfl rfl rfl rfl rfl rfl
    · cases h
      exact registryFrame_of rfl rfl rfl rfl rfl rfl rfl rfl rfl
  · cases h
    exact registryFrame_of rfl rfl rfl rfl rfl rfl rfl rfl rfl

theorem applyLocation_frame {tx d : Catalog} {v : LocationSnapshot}
    (h : applyLocation tx v = .ok d) : RegistryFrame tx d ∧ d.history = tx.history := by
  obtain ⟨bytes, -, h⟩ := bind_eq_ok.mp h
  split at h
  · cases h
    exact registryFrame_of rfl rfl rfl rfl rfl rfl rfl rfl rfl
  · cases h

theorem applyDeviceMount_frame {tx d : Catalog} {v : DeviceMount} {host : String} {time : Nat}
    (h : applyDeviceMount tx v host time = .ok d) : RegistryFrame tx d ∧ d.history = tx.history := by
  unfold applyDeviceMount at h
  split at h
  · cases h
  · obtain ⟨mounts, -, h⟩ := bind_eq_ok.mp h
    cases h
    exact registryFrame_of rfl rfl rfl rfl rfl rfl rfl rfl rfl

/-- Applying a change writes registry tables only, and no history. -/
theorem apply_frame {tx d : Catalog} {change : RegistryChange} {host kind : String} {time : Nat}
    (h : apply tx change host time = .ok (kind, d)) : RegistryFrame tx d ∧ d.history = tx.history := by
  cases change with
  | site action v =>
    obtain ⟨k, -, h⟩ := bind_eq_ok.mp h
    cases h
    exact registryFrame_of rfl rfl rfl rfl rfl rfl rfl rfl rfl
  | policy action v =>
    obtain ⟨k, -, h⟩ := bind_eq_ok.mp h
    obtain ⟨version, -, h⟩ := bind_eq_ok.mp h
    cases h
    exact registryFrame_of rfl rfl rfl rfl rfl rfl rfl rfl rfl
  | collection action v =>
    obtain ⟨k, -, h⟩ := bind_eq_ok.mp h
    cases h
    exact registryFrame_of rfl rfl rfl rfl rfl rfl rfl rfl rfl
  | device action v =>
    obtain ⟨k, -, h⟩ := bind_eq_ok.mp h
    obtain ⟨e, he, h⟩ := bind_eq_ok.mp h
    cases h
    exact applyDevice_frame he
  | archiveRoot action v =>
    obtain ⟨k, -, h⟩ := bind_eq_ok.mp h
    obtain ⟨bytes, -, h⟩ := bind_eq_ok.mp h
    obtain ⟨roots, -, h⟩ := bind_eq_ok.mp h
    cases h
    exact registryFrame_of rfl rfl rfl rfl rfl rfl rfl rfl rfl
  | location action v =>
    obtain ⟨k, -, h⟩ := bind_eq_ok.mp h
    obtain ⟨e, he, h⟩ := bind_eq_ok.mp h
    cases h
    exact applyLocation_frame he
  | riskDomain action v =>
    obtain ⟨k, -, h⟩ := bind_eq_ok.mp h
    cases h
    exact registryFrame_of rfl rfl rfl rfl rfl rfl rfl rfl rfl
  | assignRisk v =>
    obtain ⟨assigned, -, h⟩ := bind_eq_ok.mp h
    cases h
    exact registryFrame_of rfl rfl rfl rfl rfl rfl rfl rfl rfl
  | unassignRisk v =>
    cases h
    exact registryFrame_of rfl rfl rfl rfl rfl rfl rfl rfl rfl
  | deviceCheckIn v =>
    cases h
    exact registryFrame_of rfl rfl rfl rfl rfl rfl rfl rfl rfl
  | deviceMount v =>
    obtain ⟨e, he, h⟩ := bind_eq_ok.mp h
    cases h
    exact applyDeviceMount_frame he

/-- One change of a batch, taken apart. -/
theorem recordChange_eq_ok {host : String} {time : Nat} {tx d : Catalog} {change : RegistryChange} :
    recordChange host time tx change = .ok d ↔
      validateChangeOn tx change = .ok () ∧ ∃ kind e, apply tx change host time = .ok (kind, e) ∧
        d = { e with history := e.history ++ [registryHistory kind change host time] } := by
  rw [recordChange, bind_eq_ok]
  constructor
  · rintro ⟨_, hvalid, h⟩
    obtain ⟨⟨kind, e⟩, happly, h⟩ := bind_eq_ok.mp h
    cases h
    refine ⟨?_, kind, e, happly, rfl⟩
    cases hv : validateChangeOn tx change with
    | ok u => rfl
    | error e => rw [hv] at hvalid; cases hvalid
  · rintro ⟨hvalid, kind, e, happly, rfl⟩
    refine ⟨(), by rw [hvalid]; rfl, ?_⟩
    rw [bind_eq_ok]
    exact ⟨_, happly, rfl⟩

theorem recordChange_frame {host : String} {time : Nat} {tx d : Catalog} {change : RegistryChange}
    (h : recordChange host time tx change = .ok d) : RegistryFrame tx d := by
  obtain ⟨-, kind, e, happly, rfl⟩ := recordChange_eq_ok.mp h
  obtain ⟨hframe, hhist⟩ := apply_frame happly
  exact ⟨hframe.archiveId, hframe.objects, hframe.files, hframe.catalogJobs, hframe.catalogScanSeen,
    hframe.catalogWriteOperations, hframe.catalogJobItems, hframe.revision,
    [registryHistory kind change host time], by rw [hhist], by simp [registryHistory]⟩

/-- A batch of registry changes, taken apart. -/
theorem recordBatch_eq_ok {c d : Catalog} {changes : List RegistryChange} {host : String} {time : Nat}
    {commit : RegistryBatchCommit} (h : recordBatch c changes host time = .ok (commit, d)) :
    changes ≠ [] ∧ time ≤ i64Max ∧
      ∃ tx, commitAll (recordChange host time) c changes = .ok tx ∧ d = tx.bumpRevision := by
  unfold recordBatch at h
  split at h
  · cases h
  · rename_i hne
    obtain ⟨t, ht, h⟩ := bind_eq_ok.mp h
    obtain ⟨tx, htx, h⟩ := bind_eq_ok.mp h
    cases h
    have htime : sqlInteger time = some t := by
      unfold registryInteger at ht
      split at ht
      · rename_i v hv
        cases ht
        exact hv
      · cases ht
    obtain ⟨hle, rfl⟩ := sqlInteger_eq_some.mp htime
    exact ⟨by simpa using hne, hle, tx, htx, rfl⟩

theorem recordBatch_frame {c d : Catalog} {changes : List RegistryChange} {host : String} {time : Nat}
    {commit : RegistryBatchCommit} (h : recordBatch c changes host time = .ok (commit, d)) :
    ∃ tx, RegistryFrame c tx ∧ d = tx.bumpRevision := by
  obtain ⟨-, -, tx, htx, rfl⟩ := recordBatch_eq_ok h
  refine ⟨tx, ?_, rfl⟩
  exact commitAll_invariant (fun s i t hs ht => hs.trans (recordChange_frame ht))
    (RegistryFrame.refl c) htx

/-! ### Every step has one of the effects -/

theorem renameArchive_eq_ok {c d : Catalog} {name : String} {time : Nat}
    (h : renameArchive c name time = .ok d) :
    ∃ t, d = { c with
      displayName := name
      revision := c.revision + 1
      history := c.history ++ [jobHistory t .archiveRenamed (.renamed c.displayName name)] } := by
  unfold renameArchive at h
  split at h
  · cases h
  · obtain ⟨t, -, h⟩ := bind_eq_ok.mp h
    cases h
    exact ⟨t, rfl⟩

theorem beginCatalogJob_eq_ok {c d : Catalog} {id kind : String} {parameters : Json} {time : Nat}
    {status : JobStatus} (h : beginCatalogJob c id kind parameters time = .ok (status, d)) :
    (∃ job, c.catalogJobs.get? id = some job ∧ d = c) ∨
      (c.catalogJobs.get? id = none ∧ status = .running ∧ ∃ t, d = { c with
        revision := c.revision + 1
        catalogJobs := c.catalogJobs.insertOrIgnore
          ⟨id, kind, parameters, .running, t, none, .obj []⟩
        history := c.history ++ [jobHistory t .jobStarted (.jobStarted id kind parameters)] }) := by
  unfold beginCatalogJob at h
  split at h
  · rename_i job hjob
    split at h
    · cases h
    · cases h
      exact Or.inl ⟨job, hjob, rfl⟩
  · rename_i hnone
    obtain ⟨t, -, h⟩ := bind_eq_ok.mp h
    cases h
    exact Or.inr ⟨hnone, rfl, t, rfl⟩

theorem resetScanCoverage_eq_ok {c d : Catalog} {jobId : String} :
    resetScanCoverage c jobId = .ok d ↔ Running c jobId ∧
      d = { c with catalogScanSeen := c.catalogScanSeen.delete fun r => r.jobId = jobId } := by
  rw [resetScanCoverage, bind_eq_ok]
  constructor
  · rintro ⟨_, hrun, h⟩
    exact ⟨requireRunningJob_eq_ok.mp hrun, (Except.ok.inj h).symm⟩
  · rintro ⟨hrun, rfl⟩
    exact ⟨(), requireRunningJob_eq_ok.mpr hrun, rfl⟩

theorem checkpointCatalogJob_eq_ok {c d : Catalog} {jobId : String} {progress : Json} :
    checkpointCatalogJob c jobId progress = .ok d ↔ Running c jobId ∧
      d = { c with
        catalogJobs := c.catalogJobs.modify (fun r => r.jobId = jobId)
          fun r => { r with progress := progress } } := by
  rw [checkpointCatalogJob, bind_eq_ok]
  constructor
  · rintro ⟨_, hrun, h⟩
    exact ⟨requireRunningJob_eq_ok.mp hrun, (Except.ok.inj h).symm⟩
  · rintro ⟨hrun, rfl⟩
    exact ⟨(), requireRunningJob_eq_ok.mpr hrun, rfl⟩

theorem finishCatalogJob_eq_ok {c d : Catalog} {jobId status : String} {time : Nat} {summary : Json}
    (h : finishCatalogJob c jobId status time summary = .ok d) :
    d = c ∨ ∃ terminal, JobStatus.ofTerminal status = some terminal ∧ Running c jobId ∧
      time ≤ i64Max ∧ d = (closeJob c jobId terminal time summary).bumpRevision := by
  unfold finishCatalogJob at h
  split at h
  · cases h
  · rename_i terminal hterminal
    split at h
    · cases h
      exact Or.inl rfl
    · obtain ⟨_, hrun, h⟩ := bind_eq_ok.mp h
      obtain ⟨e, he, h⟩ := bind_eq_ok.mp h
      obtain ⟨hle, rfl⟩ := finishJob_eq_ok.mp he
      cases h
      exact Or.inr ⟨terminal, hterminal, requireRunningJob_eq_ok.mp hrun, hle, rfl⟩

theorem effect_submitted {newId : String} {c : Catalog} {o : CatalogObservation} {s : Submission}
    (h : submit newId c o = .ok s) : Effect c (.submitted newId o s.outcome s.fresh) s.tx := by
  rcases submit_eq_ok.mp h with ⟨key, stored, -, -, -, -, rfl⟩ | ⟨-, path, time, hadm, hstore, hout, hfresh⟩
  · exact .kept rfl rfl rfl ⟨[], (List.append_nil _).symm, by simp⟩
  · rw [hout, hfresh]
    rcases storeOutcome_eq_ok.mp hstore with ⟨-, htx⟩ | ⟨key, t, -, -, htx⟩
    · rw [htx]
      exact .observed hadm rfl rfl rfl
    · rw [htx]
      exact .observed hadm rfl rfl rfl

theorem effect_committed {c d : Catalog} {op : Op} (h : Change c (.committed op) d) :
    Effect c (.committed op) d := by
  have hnone : ∃ rows, c.history = c.history ++ rows ∧ ∀ r ∈ rows, r.objectId = none :=
    ⟨[], (List.append_nil _).symm, by simp⟩
  cases op with
  | observeBatch newIds observations =>
    rcases h with rfl | rfl
    · exact .kept rfl rfl rfl hnone
    · exact .kept rfl rfl rfl hnone
  | beginCatalogJob id kind parameters time =>
    obtain ⟨⟨status, e⟩, he, rfl⟩ := Option.map_eq_some_iff.mp h
    rcases beginCatalogJob_eq_ok (toOption_eq_some.mp he) with ⟨job, -, rfl⟩ | ⟨-, -, t, rfl⟩
    · exact .kept rfl rfl rfl hnone
    · exact .kept rfl rfl rfl ⟨_, rfl, by simp [jobHistory]⟩
  | resetScanCoverage jobId =>
    obtain ⟨-, rfl⟩ := resetScanCoverage_eq_ok.mp (toOption_eq_some.mp h)
    exact .kept rfl rfl rfl hnone
  | checkpointCatalogJob jobId progress =>
    obtain ⟨-, rfl⟩ := checkpointCatalogJob_eq_ok.mp (toOption_eq_some.mp h)
    exact .kept rfl rfl rfl hnone
  | finishCatalogScan jobId collectionId locationId completeCoverage time summary =>
    obtain ⟨⟨missing, e⟩, he, rfl⟩ := Option.map_eq_some_iff.mp h
    have hok := toOption_eq_some.mp he
    cases completeCoverage with
    | true => exact .declared time _ _ _ (declaration_scan c jobId time) (declared_scan hok)
    | false =>
      obtain ⟨-, -, -, hd⟩ := finishCatalogScan_incomplete.mp hok
      rw [hd]
      exact .kept rfl rfl rfl ⟨_, rfl, by simp [jobHistory]⟩
  | finishCatalogJob jobId status time summary =>
    rcases finishCatalogJob_eq_ok (toOption_eq_some.mp h) with rfl | ⟨terminal, -, -, -, rfl⟩
    · exact .kept rfl rfl rfl hnone
    · exact .kept rfl rfl rfl ⟨_, rfl, by simp [jobHistory]⟩
  | markRemoved request time =>
    obtain ⟨⟨result, e⟩, he, rfl⟩ := Option.map_eq_some_iff.mp h
    obtain ⟨-, selection, -, -, -, ⟨-, hd⟩ | ⟨-, hcurrent, hd⟩⟩ :=
      markRemoved_eq_ok.mp (toOption_eq_some.mp he)
    · rw [hd]
      exact .kept rfl rfl rfl hnone
    · exact .declared time _ _ _ (declaration_removal c time) (declared_removal hcurrent hd)
  | recordBatch changes hostId time =>
    obtain ⟨⟨commit, e⟩, he, rfl⟩ := Option.map_eq_some_iff.mp h
    obtain ⟨tx, hframe, hd⟩ := recordBatch_frame (toOption_eq_some.mp he)
    rw [hd]
    exact .kept rfl hframe.objects hframe.files hframe.history
  | renameArchive name time =>
    obtain ⟨t, rfl⟩ := renameArchive_eq_ok (toOption_eq_some.mp h)
    exact .kept rfl rfl rfl ⟨_, rfl, by simp [jobHistory]⟩

/-- What a step can do to objects, files and history. -/
theorem change_effect {c d : Catalog} {e : Event} (h : Change c e d) : Effect c e d := by
  cases e with
  | submitted newId o outcome fresh => exact effect_submitted h
  | committed op => exact effect_committed h

/-! ### Objects stay -/

/-- A step keeps every object under its identifier and path. -/
theorem object_step {c d : Catalog} {e : Event} (h : Change c e d) (hnew : e.Unused c) {r : ObjectRow}
    (hr : r ∈ c.objects.rows) :
    ∃ s ∈ d.objects.rows, s.objectId = r.objectId ∧ s.path = r.path := by
  cases change_effect h with
  | @observed newId o path time _ _ hobjects _ _ =>
    rw [hobjects]
    have hget := @get?_recordAt newId c o path time hnew
    by_cases hid : (locateObject newId c path).1 = r.objectId
    · refine ⟨_, Table.mem_of_get? hget, (Table.key_of_get? hget).trans hid, ?_⟩
      rw [IdentityDecision.path_apply, path_objectBefore]
      rcases locateObject_cases newId c path with ⟨s, hs, hl⟩ | ⟨-, hl⟩
      · obtain ⟨hsmem, hspath⟩ := Catalog.objectAt_eq_some.mp hs
        rw [hl] at hid
        have : s = r := Table.eq_of_key hsmem hr hid
        exact this ▸ hspath.symm
      · rw [hl] at hid
        exact absurd hid.symm (Table.get?_eq_none.mp hnew r hr)
    · refine ⟨r, Table.mem_rows_iff.mpr ?_, rfl, rfl⟩
      exact (get?_recordAt_of_ne hid).trans (Table.get?_of_mem hr)
  | declared time p declare entry _ hd => exact ⟨r, hd.objects ▸ hr, rfl, rfl⟩
  | kept _ hobjects _ _ => exact ⟨r, hobjects ▸ hr, rfl, rfl⟩

/-! ### Fresh identifiers -/

/-- An identifier that is not drawn stays unused. -/
theorem unused_of_submit {newId id : String} {c : Catalog} {o : CatalogObservation} {s : Submission}
    (h : submit newId c o = .ok s) (hne : id ≠ newId) (hid : c.objects.get? id = none) :
    s.tx.objects.get? id = none := by
  have heffect := effect_submitted h
  generalize hev : Event.submitted newId o s.outcome s.fresh = ev at heffect
  cases heffect with
  | @observed newId' o' path time _ hadm hobjects _ _ =>
    simp only [Event.submitted.injEq] at hev
    obtain ⟨rfl, rfl, -, -⟩ := hev
    rw [hobjects, get?_recordAt_of_ne, hid]
    intro heq
    rcases locateObject_cases newId c path with ⟨r, hr, hl⟩ | ⟨-, hl⟩
    · rw [hl] at heq
      have := Table.get?_of_mem (Catalog.objectAt_eq_some.mp hr).1
      change c.objects.get? r.objectId = some r at this
      rw [show r.objectId = id from heq, hid] at this
      cases this
    · rw [hl] at heq
      exact hne heq.symm
  | kept _ hobjects _ _ => rw [hobjects, hid]
  | declared => cases hev

theorem path_submissions_unused {newIds : Nat → String} {tx : Catalog}
    {observations : List CatalogObservation} (hinj : Function.Injective newIds)
    (hnew : ∀ n, tx.objects.get? (newIds n) = none) :
    Path (fun c e d => Change c e d ∧ e.Unused c) tx (submissions newIds tx observations) := by
  induction observations generalizing newIds tx with
  | nil => trivial
  | cons o rest ih =>
    rw [submissions]
    split
    · rename_i s hs
      refine ⟨⟨hs, hnew 0⟩, ih (fun m n h => Nat.succ_injective (hinj h)) fun n => ?_⟩
      exact unused_of_submit hs (fun h => Nat.succ_ne_zero n (hinj h)) (hnew (n + 1))
    · trivial

theorem path_effects_unused {c : Catalog} {op : Op} (h : UlidsFresh c op) :
    Path (fun c e d => Change c e d ∧ e.Unused c) c (effects c op) := by
  unfold effects
  split
  · rename_i d hd
    refine path_append.mpr ⟨?_, ⟨change_committed hd, trivial⟩, trivial⟩
    cases op with
    | observeBatch newIds observations => exact path_submissions_unused h.1 h.2
    | _ => trivial
  · trivial

/-- In a run with fresh identifiers every submission draws an unused one. -/
theorem path_trace_unused {c : Catalog} {ops : List Op} (h : Admissible next UlidsFresh c ops) :
    Path (fun c e d => Change c e d ∧ e.Unused c) c (trace c ops) := by
  induction ops generalizing c with
  | nil => trivial
  | cons op ops ih =>
    rw [trace]
    exact path_append.mpr ⟨path_effects_unused h.1, by rw [final_effects]; exact ih h.2⟩

end ArchiveLedger
