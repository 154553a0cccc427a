import ArchiveLedger.Catalog.Run

/-!
# What the writers do when they succeed

One lemma for each writer: it succeeds exactly under its checks, and then commits
exactly these tables.  Every later proof takes a call apart with these and does
not unfold the writers again.
-/

namespace ArchiveLedger

open Relational Transition

@[simp] theorem sqlTime_eq_ok {value time : Nat} :
    sqlTime value = .ok time ↔ value ≤ i64Max ∧ time = value := by
  unfold sqlTime
  rw [← sqlInteger_eq_some]
  split
  · rename_i v hv
    rw [hv, Option.some.injEq, Except.ok.injEq]
  · rename_i hv
    rw [hv]
    exact ⟨nofun, nofun⟩

/-! ### Jobs -/

/-- The job is running. -/
def Running (c : Catalog) (jobId : String) : Prop :=
  ∃ job, c.catalogJobs.get? jobId = some job ∧ job.status = .running

theorem requireRunningJob_eq_ok {c : Catalog} {jobId : String} {u : Unit} :
    requireRunningJob c jobId = .ok u ↔ Running c jobId := by
  unfold requireRunningJob Running
  cases c.catalogJobs.get? jobId with
  | none => simp
  | some job => by_cases h : job.status = .running <;> simp [h]

theorem requireJobScope_eq_ok {c : Catalog} {jobId collectionId locationId message : String}
    {u : Unit} :
    requireJobScope c jobId collectionId locationId message = .ok u ↔
      ∃ job, c.catalogJobs.get? jobId = some job ∧ job.covers collectionId locationId = true := by
  unfold requireJobScope
  cases c.catalogJobs.get? jobId with
  | none => simp
  | some job => by_cases h : job.covers collectionId locationId = true <;> simp [h]

/-- The job an observation names is running. -/
theorem running_of_requireObservationJob {c : Catalog} {o : CatalogObservation} {jobId : String}
    {u : Unit} (hjob : o.jobId = some jobId) (h : requireObservationJob c o = .ok u) :
    Running c jobId := by
  rw [requireObservationJob, hjob] at h
  obtain ⟨_, hrun, -⟩ := bind_eq_ok.mp h
  exact requireRunningJob_eq_ok.mp hrun

/-! ### Observations -/

/-- The columns an observation names its object by, when its path is valid. -/
def observedPath (o : CatalogObservation) : Option ObjectPath :=
  (observationPath o.path).toOption.map fun bytes => ⟨o.collectionId, o.path.encoding, bytes⟩

theorem admitObservation_eq_ok {c : Catalog} {o : CatalogObservation} {path : ObjectPath}
    {time : Nat} :
    admitObservation c o = .ok (path, time) ↔
      observedPath o = some path ∧ (o.acceptChange = true → o.result.isChecksum = true) ∧
        o.timeUtcMs ≤ i64Max ∧ time = o.timeUtcMs ∧
        scopeActive c o.collectionId o.locationId = true ∧ requireObservationJob c o = .ok () := by
  rw [admitObservation, bind_eq_ok]
  constructor
  · rintro ⟨bytes, hbytes, h⟩
    split at h
    · cases h
    · rename_i haccept
      obtain ⟨t, ht, h⟩ := bind_eq_ok.mp h
      obtain ⟨hle, rfl⟩ := sqlTime_eq_ok.mp ht
      split at h
      · cases h
      · rename_i hscope
        obtain ⟨_, hjob, h⟩ := bind_eq_ok.mp h
        cases h
        refine ⟨?_, by simpa using haccept, hle, rfl, by simpa using hscope, hjob⟩
        rw [observedPath, hbytes]
        rfl
  · rintro ⟨hpath, haccept, hle, rfl, hscope, hjob⟩
    obtain ⟨bytes, hbytes, rfl⟩ := Option.map_eq_some_iff.mp hpath
    refine ⟨bytes, toOption_eq_some.mp hbytes, ?_⟩
    rw [if_neg (by simpa using haccept), bind_eq_ok]
    refine ⟨o.timeUtcMs, sqlTime_eq_ok.mpr ⟨hle, rfl⟩, ?_⟩
    rw [if_neg (by simpa using hscope), bind_eq_ok]
    exact ⟨(), hjob, rfl⟩

/-- The checks an observation passed that was recorded. -/
structure Admitted (newId : String) (c : Catalog) (o : CatalogObservation) (path : ObjectPath)
    (time : Nat) : Prop where
  admitted : admitObservation c o = .ok (path, time)
  current : checkedAfter c (locateObject newId c path).1 o.locationId time = false
  sized : requireSize (decideIdentity (locateObject newId c path).2 o.acceptChange o.result) = .ok ()

/-- The record of an observation of a path. -/
def recordAt (newId : String) (c : Catalog) (o : CatalogObservation) (path : ObjectPath)
    (time : Nat) : ObservationOutcome × Catalog :=
  recordObservation c o path time (locateObject newId c path).1 (locateObject newId c path).2

theorem observeInTransaction_eq_ok {newId : String} {c d : Catalog} {o : CatalogObservation}
    {outcome : ObservationOutcome} :
    observeInTransaction newId c o = .ok (outcome, d) ↔
      ∃ path time, Admitted newId c o path time ∧ recordAt newId c o path time = (outcome, d) := by
  rw [observeInTransaction, bind_eq_ok]
  constructor
  · rintro ⟨⟨path, time⟩, hadmitted, h⟩
    dsimp only at h
    split at h
    · cases h
    · rename_i hcurrent
      obtain ⟨_, hsize, h⟩ := bind_eq_ok.mp h
      exact ⟨path, time, ⟨hadmitted, by simpa using hcurrent, hsize⟩, Except.ok.inj h⟩
  · rintro ⟨path, time, hadm, hrec⟩
    refine ⟨(path, time), hadm.admitted, ?_⟩
    dsimp only
    rw [if_neg (by simp [hadm.current]), bind_eq_ok]
    exact ⟨(), hadm.sized, congrArg Except.ok hrec⟩

theorem storeOutcome_eq_ok {c d : Catalog} {o : CatalogObservation} {outcome : ObservationOutcome} :
    storeOutcome c o outcome = .ok d ↔
      (o.operationKey = none ∧ d = c) ∨
      ∃ key t, o.operationKey = some key ∧
        c.catalogWriteOperations.insert? ⟨key, o, outcome⟩ = some t ∧
        d = { c with catalogWriteOperations := t } := by
  unfold storeOutcome
  cases o.operationKey with
  | none => simp [eq_comm]
  | some key =>
    cases hi : c.catalogWriteOperations.insert? ⟨key, o, outcome⟩ <;> simp [hi, eq_comm]

/-- A submission replays the stored outcome of its key or records its observation. -/
theorem submit_eq_ok {newId : String} {c : Catalog} {o : CatalogObservation} {s : Submission} :
    submit newId c o = .ok s ↔
      (∃ key stored, o.operationKey = some key ∧ c.catalogWriteOperations.get? key = some stored ∧
        stored.request = o ∧ requireObservationJob c o = .ok () ∧
        s = ⟨stored.outcome, false, { c with
          catalogScanSeen := markJobObject c.catalogScanSeen o.jobId stored.outcome.objectId }⟩) ∨
      (o.operationKey.bind c.catalogWriteOperations.get? = none ∧
        ∃ path time, Admitted newId c o path time ∧
          storeOutcome (recordAt newId c o path time).2 o (recordAt newId c o path time).1 = .ok s.tx ∧
          s.outcome = (recordAt newId c o path time).1 ∧ s.fresh = true) := by
  rw [submit]
  cases hop : o.operationKey.bind c.catalogWriteOperations.get? with
  | some stored =>
    obtain ⟨key, hkey, hstored⟩ := Option.bind_eq_some_iff.mp hop
    simp only [reduceCtorEq, false_and, or_false]
    rw [replay]
    constructor
    · intro h
      split at h
      · cases h
      · rename_i hreq
        obtain ⟨_, hjob, h⟩ := bind_eq_ok.mp h
        exact ⟨key, stored, hkey, hstored, not_not.mp hreq, hjob, (Except.ok.inj h).symm⟩
    · rintro ⟨key', stored', hkey', hstored', hreq, hjob, rfl⟩
      obtain rfl : key = key' := Option.some.inj (hkey.symm.trans hkey')
      obtain rfl : stored = stored' := Option.some.inj (hstored.symm.trans hstored')
      rw [if_neg (not_not.mpr hreq), bind_eq_ok]
      exact ⟨(), hjob, rfl⟩
  | none =>
    have hno : ¬ ∃ key stored, o.operationKey = some key ∧
        c.catalogWriteOperations.get? key = some stored ∧ stored.request = o ∧
        requireObservationJob c o = .ok () ∧
        s = ⟨stored.outcome, false, { c with
          catalogScanSeen := markJobObject c.catalogScanSeen o.jobId stored.outcome.objectId }⟩ := by
      rintro ⟨key, stored, hkey, hstored, -⟩
      rw [hkey, Option.bind_some, hstored] at hop
      cases hop
    simp only [hno, false_or, true_and]
    rw [bind_eq_ok]
    constructor
    · rintro ⟨⟨outcome, tx⟩, hobs, h⟩
      obtain ⟨path, time, hadm, hrec⟩ := observeInTransaction_eq_ok.mp hobs
      obtain ⟨d, hstore, h⟩ := bind_eq_ok.mp h
      cases h
      exact ⟨path, time, hadm, by rw [hrec]; exact hstore, by rw [hrec], rfl⟩
    · rintro ⟨path, time, hadm, hstore, hout, hfresh⟩
      refine ⟨recordAt newId c o path time, observeInTransaction_eq_ok.mpr ⟨path, time, hadm, rfl⟩, ?_⟩
      rw [bind_eq_ok]
      refine ⟨s.tx, hstore, ?_⟩
      obtain ⟨outcome, fresh, tx⟩ := s
      cases hout
      cases hfresh
      rfl

/-! ### Scans and removals -/

theorem finishJob_eq_ok {c d : Catalog} {id : String} {status : JobStatus} {time : Nat}
    {summary : Json} :
    finishJob c id status time summary = .ok d ↔
      time ≤ i64Max ∧ d = closeJob c id status time summary := by
  rw [finishJob, bind_eq_ok]
  constructor
  · rintro ⟨t, ht, h⟩
    obtain ⟨hle, rfl⟩ := sqlTime_eq_ok.mp ht
    exact ⟨hle, (Except.ok.inj h).symm⟩
  · rintro ⟨hle, rfl⟩
    exact ⟨time, sqlTime_eq_ok.mpr ⟨hle, rfl⟩, rfl⟩

/-- The checks of a scan finalization before it looks at the coverage. -/
def ScanScope (c : Catalog) (jobId collectionId locationId : String) : Prop :=
  ∃ job, c.catalogJobs.get? jobId = some job ∧ job.status = .running ∧
    job.covers collectionId locationId = true

theorem finishCatalogScan_complete {c d : Catalog} {jobId collectionId locationId : String}
    {time missing : Nat} {summary : Json} :
    finishCatalogScan c jobId collectionId locationId true time summary = .ok (missing, d) ↔
      ScanScope c jobId collectionId locationId ∧ time ≤ i64Max ∧
        scanPredatesCheck c collectionId locationId time = false ∧
        missing = (declareScanMissing c jobId collectionId locationId time).1 ∧
        d = (closeJob (declareScanMissing c jobId collectionId locationId time).2 jobId .complete
          time summary).bumpRevision := by
  rw [finishCatalogScan, bind_eq_ok]
  constructor
  · rintro ⟨_, hrun, h⟩
    obtain ⟨_, hscope, h⟩ := bind_eq_ok.mp h
    obtain ⟨job, hjob, hstatus⟩ := requireRunningJob_eq_ok.mp hrun
    obtain ⟨job', hjob', hcovers⟩ := requireJobScope_eq_ok.mp hscope
    obtain rfl : job = job' := Option.some.inj (hjob.symm.trans hjob')
    rw [if_pos rfl] at h
    obtain ⟨t, ht, h⟩ := bind_eq_ok.mp h
    obtain ⟨hle, rfl⟩ := sqlTime_eq_ok.mp ht
    split at h
    · cases h
    · rename_i hcurrent
      obtain ⟨e, he, h⟩ := bind_eq_ok.mp h
      obtain ⟨-, rfl⟩ := finishJob_eq_ok.mp he
      cases h
      exact ⟨⟨job, hjob, hstatus, hcovers⟩, hle, by simpa using hcurrent, rfl, rfl⟩
  · rintro ⟨⟨job, hjob, hstatus, hcovers⟩, hle, hcurrent, rfl, rfl⟩
    refine ⟨(), requireRunningJob_eq_ok.mpr ⟨job, hjob, hstatus⟩, ?_⟩
    rw [bind_eq_ok]
    refine ⟨(), requireJobScope_eq_ok.mpr ⟨job, hjob, hcovers⟩, ?_⟩
    rw [if_pos rfl, bind_eq_ok]
    refine ⟨time, sqlTime_eq_ok.mpr ⟨hle, rfl⟩, ?_⟩
    rw [if_neg (by simp [hcurrent])]
    dsimp only
    rw [bind_eq_ok]
    exact ⟨_, finishJob_eq_ok.mpr ⟨hle, rfl⟩, rfl⟩

theorem finishCatalogScan_incomplete {c d : Catalog} {jobId collectionId locationId : String}
    {time missing : Nat} {summary : Json} :
    finishCatalogScan c jobId collectionId locationId false time summary = .ok (missing, d) ↔
      ScanScope c jobId collectionId locationId ∧ time ≤ i64Max ∧ missing = 0 ∧
        d = (closeJob c jobId .partialWork time summary).bumpRevision := by
  rw [finishCatalogScan, bind_eq_ok]
  constructor
  · rintro ⟨_, hrun, h⟩
    obtain ⟨_, hscope, h⟩ := bind_eq_ok.mp h
    obtain ⟨job, hjob, hstatus⟩ := requireRunningJob_eq_ok.mp hrun
    obtain ⟨job', hjob', hcovers⟩ := requireJobScope_eq_ok.mp hscope
    obtain rfl : job = job' := Option.some.inj (hjob.symm.trans hjob')
    rw [if_neg (by simp)] at h
    obtain ⟨e, he, h⟩ := bind_eq_ok.mp h
    obtain ⟨hle, rfl⟩ := finishJob_eq_ok.mp he
    cases h
    exact ⟨⟨job, hjob, hstatus, hcovers⟩, hle, rfl, rfl⟩
  · rintro ⟨⟨job, hjob, hstatus, hcovers⟩, hle, rfl, rfl⟩
    refine ⟨(), requireRunningJob_eq_ok.mpr ⟨job, hjob, hstatus⟩, ?_⟩
    rw [bind_eq_ok]
    refine ⟨(), requireJobScope_eq_ok.mpr ⟨job, hjob, hcovers⟩, ?_⟩
    rw [if_neg (by simp), bind_eq_ok]
    exact ⟨_, finishJob_eq_ok.mpr ⟨hle, rfl⟩, rfl⟩

theorem markRemoved_eq_ok {c d : Catalog} {request : RemovedSelection} {time : Nat}
    {result : RemovedResult} :
    markRemoved c request time = .ok (result, d) ↔
      time ≤ i64Max ∧ ∃ selection, removalSelection request time = .ok selection ∧
        validateRemoval c selection = .ok () ∧
        result = ⟨selection.target, (removedObjects c selection).length⟩ ∧
        ((removedObjects c selection = [] ∧ d = c) ∨
          (removedObjects c selection ≠ [] ∧
            removalPredatesCheck c (removedObjects c selection) selection.target time = false ∧
            d = (declareRemoved c (removedObjects c selection) selection.target
              time).bumpRevision)) := by
  unfold markRemoved
  cases ht : sqlInteger time with
  | none =>
    have hgt : ¬ time ≤ i64Max := fun hle => by
      rw [sqlInteger_eq_some.mpr ⟨hle, rfl⟩] at ht
      cases ht
    simp [hgt]
  | some t =>
    obtain ⟨hle, rfl⟩ := sqlInteger_eq_some.mp ht
    dsimp only
    rw [bind_eq_ok]
    simp only [hle, true_and]
    refine exists_congr fun selection => and_congr_right fun _ => ?_
    rw [bind_eq_ok]
    constructor
    · rintro ⟨_, hvalid, h⟩
      refine ⟨hvalid, ?_⟩
      split at h
      · rename_i hpos
        split at h
        · cases h
        · rename_i hcurrent
          cases h
          exact ⟨rfl, Or.inr ⟨List.ne_nil_of_length_pos hpos, by simpa using hcurrent, rfl⟩⟩
      · rename_i hpos
        cases h
        have hnil := List.length_eq_zero_iff.mp (Nat.eq_zero_of_not_pos hpos)
        exact ⟨by rw [hnil]; rfl, Or.inl ⟨hnil, rfl⟩⟩
    · rintro ⟨hvalid, rfl, ⟨hnil, rfl⟩ | ⟨hne, hcurrent, rfl⟩⟩
      · refine ⟨(), hvalid, ?_⟩
        rw [if_neg (by simp [hnil]), hnil]
        rfl
      · refine ⟨(), hvalid, ?_⟩
        rw [if_pos (List.length_pos_of_ne_nil hne), if_neg (by simp [hcurrent])]

end ArchiveLedger
