import ArchiveLedger.Foundation.Transition
import ArchiveLedger.Catalog.Schema

/-!
# Direct catalog transactions

The writers of `sqlite_writes.rs`.  `observeBatch` submits a list of observations
in one transaction: an operation key that is already stored replays its outcome,
and any other observation goes through `observeInTransaction`.  Jobs open, reset,
checkpoint and finish; `finishCatalogScan` declares missing what a complete scan
did not see.

An observation of a path that no object has makes a new object.  Its identifier
comes from a ULID generator outside the repository, so every writer that may draw
one takes the identifiers as a parameter (`newId`, `newIds`).
-/

namespace ArchiveLedger

open Relational

inductive CatalogWriteError where
  | sqlite (message : String)
  | invalid (message : String)
  | json (message : String)
deriving DecidableEq, Repr

abbrev WriteResult (α : Type) := Except CatalogWriteError α

def sqlTime (value : Nat) : WriteResult Nat :=
  match sqlInteger value with
  | some value => .ok value
  | none => .error (.invalid "integer exceeds SQLite range")

/-! ### Jobs an observation may name -/

def requireRunningJob (tx : Catalog) (jobId : String) : WriteResult Unit :=
  if (tx.catalogJobs.get? jobId).any fun job => job.status = .running then .ok ()
  else .error (.invalid ("job " ++ jobId ++ " is not running"))

/-- The job was begun for this Collection and Location. -/
def CatalogJob.covers (job : CatalogJob) (collectionId locationId : String) : Bool :=
  (job.params.index "collection_id").asStr = some collectionId &&
    (job.params.index "location_id").asStr = some locationId

/-- A job row whose scope must be the given one. -/
def requireJobScope (tx : Catalog) (jobId collectionId locationId message : String) :
    WriteResult Unit :=
  match tx.catalogJobs.get? jobId with
  | some job => if job.covers collectionId locationId then .ok () else .error (.invalid message)
  | none => .error (.sqlite "Query returned no rows")

def requireObservationJob (tx : Catalog) (o : CatalogObservation) : WriteResult Unit :=
  match o.jobId with
  | some job => do
      requireRunningJob tx job
      requireJobScope tx job o.collectionId o.locationId "observation scope differs from job inputs"
  | none => .ok ()

/-! ### Admission of an observation -/

def ObservationResult.isChecksum : ObservationResult → Bool
  | .checksum _ _ => true
  | _ => false

/-- The bytes of a normalized Collection-relative path. -/
def observationPath (path : RegistryPath) : WriteResult Bytes := do
  let bytes ← (registryPathBytes path).mapError fun e => .invalid e.display
  if bytes.isEmpty ∨ bytes.contains 0 then
    .error (.invalid "empty or NUL-containing relative path")
  else if path.encoding = "utf8" ∨ path.encoding = "unix_bytes" then
    if bytes.head? = some 47 ∨
        (bytes.splitOn 47).any (fun part => part = [46, 46] || part = [] || part = [46]) then
      .error (.invalid "path must be a normalized Collection-relative path")
    else .ok bytes
  else .error (.invalid "unsupported relative path encoding")

def scopeActive (tx : Catalog) (collectionId locationId : String) : Bool :=
  ((tx.collections.get? collectionId).any fun r => r.status = "active") &&
    ((tx.locations.get? locationId).any fun r => r.snapshot.status = "active")

/-- Everything `observe_in_transaction` checks before it looks at the path's object. -/
def admitObservation (tx : Catalog) (o : CatalogObservation) : WriteResult (ObjectPath × Nat) := do
  let bytes ← observationPath o.path
  if o.acceptChange ∧ ¬ o.result.isChecksum then
    .error (.invalid "accepting a change requires successfully checksummed bytes")
  else
    let time ← sqlTime o.timeUtcMs
    if ¬ scopeActive tx o.collectionId o.locationId then
      .error (.invalid "Collection or Location is missing/retired")
    else
      requireObservationJob tx o
      .ok (⟨o.collectionId, o.path.encoding, bytes⟩, time)

/-! ### What a check says -/

/-- The columns a check writes.  Only an `ok` check verifies. -/
structure Judgement where
  presence : Presence
  integrity : Integrity
  result : CheckResult
  observed : Option Digest
  verified_ok : integrity = .verified → result = .ok

/-- Metadata alone says whether the file is there; anything else is a check. -/
inductive Finding where
  | metadata (presence : Presence)
  | check (judgement : Judgement)

def judge (expected : Option Digest) : ObservationResult → Finding
  | .metadataPresent => .metadata .present
  | .metadataUnknown => .metadata .unknown
  | .rejectedChecksum blake3 => .check ⟨.present, .damaged, .mismatch, some blake3, nofun⟩
  | .checksum blake3 _ =>
      if expected = some blake3 then .check ⟨.present, .verified, .ok, some blake3, fun _ => rfl⟩
      else .check ⟨.present, .damaged, .mismatch, some blake3, nofun⟩
  | .readError => .check ⟨.unknown, .unverified, .readError, none, nofun⟩
  | .missing => .check ⟨.missing, .unverified, .missing, none, nofun⟩

def Finding.result : Finding → OutcomeResult
  | .metadata _ => .observed
  | .check j => .checked j.result

def Finding.checkResult : Finding → Option CheckResult
  | .metadata _ => none
  | .check j => some j.result

def Finding.observed : Finding → Option Digest
  | .metadata _ => none
  | .check j => j.observed

/-- The identity decision of a checksum: the expectation afterwards, and the
digest and size to store when it changes. -/
structure IdentityDecision where
  established : Bool
  accepted : Bool
  expected : Option Digest
  stored : Option (Digest × Nat)
deriving DecidableEq, Repr

def decideIdentity (expected : Option Digest) (acceptChange : Bool) :
    ObservationResult → IdentityDecision
  | .checksum blake3 sizeBytes =>
      if expected = none ∨ (acceptChange ∧ expected ≠ some blake3) then
        ⟨expected.isNone, expected.isSome, some blake3, some (blake3, sizeBytes)⟩
      else ⟨false, false, expected, none⟩
  | _ => ⟨false, false, expected, none⟩

/-! ### Rows of `files` -/

/-- A row no check has touched. -/
def FileRow.unchecked (objectId locationId : String) (presence : Presence) : FileRow :=
  ⟨objectId, locationId, presence, .unverified, none, none, none, none, rfl, nofun⟩

/-- The row after metadata showed the file. -/
def FileRow.sight (f : FileRow) : FileRow :=
  { f with
    presence := .present
    integrity := if f.integrity = .damaged then .damaged
      else if f.presence = .present then f.integrity else .unverified
    check_verified := by
      intro h
      split at h
      · cases h
      · split at h
        · exact f.check_verified h
        · cases h }

/-- The first row of a copy, made by a check. -/
def FileRow.ofCheck (objectId locationId : String) (time : Nat) (j : Judgement) : FileRow where
  objectId := objectId
  locationId := locationId
  presence := j.presence
  integrity := j.integrity
  lastCheckTimeUtcMs := some time
  lastCheckResult := some j.result
  observedBlake3 := j.observed
  lastSuccessTimeUtcMs := if j.result = .ok then some time else none
  check_timed := rfl
  check_verified h := by simp [j.verified_ok h]

/-- The row after one more check. -/
def FileRow.recheck (time : Nat) (j : Judgement) (f : FileRow) : FileRow :=
  { f with
    presence := j.presence
    integrity := if j.result = .readError ∧ f.integrity = .damaged then .damaged else j.integrity
    lastCheckTimeUtcMs := some time
    lastCheckResult := some j.result
    observedBlake3 := j.observed
    lastSuccessTimeUtcMs := if j.result = .ok then some time else f.lastSuccessTimeUtcMs
    check_timed := rfl
    check_verified := by
      intro h
      split at h
      · cases h
      · simp [j.verified_ok h] }

/-- The row after the expectation of its object changed. -/
def FileRow.forgetSuccess (f : FileRow) : FileRow :=
  { f with integrity := .unverified, lastSuccessTimeUtcMs := none, check_verified := nofun }

/-- The row after a complete scan did not see the file. -/
def FileRow.declareMissing (time : Nat) (f : FileRow) : FileRow :=
  { f with
    presence := .missing
    integrity := .unverified
    lastCheckTimeUtcMs := some time
    lastCheckResult := some .missing
    observedBlake3 := none
    check_timed := rfl
    check_verified := nofun }

/-- Every copy of an object becomes unverified and forgets its last success. -/
def forgetSuccesses (t : Table fileSchema) (objectId : String) : Table fileSchema :=
  t.modify (fun f => f.objectId = objectId) FileRow.forgetSuccess

/-- The row of a copy after a finding; unknown metadata never changes a row. -/
def recordFinding (t : Table fileSchema) (objectId locationId : String) (time : Nat) :
    Finding → Table fileSchema
  | .metadata .present =>
      t.upsert (.unchecked objectId locationId .present) FileRow.sight
  | .metadata presence => t.insertOrIgnore (.unchecked objectId locationId presence)
  | .check j =>
      t.upsert (.ofCheck objectId locationId time j) (.recheck time j)

/-! ### One observation -/

/-- The object of a path and its expectation; a new one when no object has the path. -/
def locateObject (newId : String) (tx : Catalog) (path : ObjectPath) : String × Option Digest :=
  match tx.objectAt path with
  | some r => (r.objectId, r.expectedBlake3)
  | none => (newId, none)

/-- The row after its expectation was stored. -/
def ObjectRow.expect (blake3 : Digest) (sizeBytes : Nat) (r : ObjectRow) : ObjectRow :=
  { r with expectedBlake3 := some blake3, expectedSizeBytes := some sizeBytes }

def storeExpectation (t : Table objectSchema) (id : String) (blake3 : Digest) (sizeBytes : Nat) :
    Table objectSchema :=
  t.modify (fun r => r.objectId = id) (ObjectRow.expect blake3 sizeBytes)

/-- `objects` with a row for the path and the expectation a decision stores. -/
def recordIdentity (t : Table objectSchema) (id : String) (path : ObjectPath) (display : String)
    (decision : IdentityDecision) : Table objectSchema :=
  match decision.stored with
  | some (blake3, sizeBytes) =>
      storeExpectation (t.insertOrIgnore ⟨id, path, display, none, none⟩) id blake3 sizeBytes
  | none => t.insertOrIgnore ⟨id, path, display, none, none⟩

/-- The history rows of an observation: the change of expectation it was accepted
for, then what was observed. -/
def observationHistory (o : CatalogObservation) (id : String) (time : Nat) (before : Option Digest)
    (decision : IdentityDecision) (finding : Finding) : List HistoryRow :=
  (if decision.accepted then
    [{ objectId := some id
       locationId := some o.locationId
       timeUtcMs := time
       kind := .expectedChecksumChanged
       checkResult := none
       expectedBlake3 := before
       observedBlake3 := decision.expected
       details := .job o.jobId }]
  else []) ++
  [{ objectId := some id
     locationId := some o.locationId
     timeUtcMs := time
     kind := if finding.checkResult.isNone then .presenceObserved else .fileChecked
     checkResult := finding.checkResult
     expectedBlake3 := decision.expected
     observedBlake3 := finding.observed
     details := .job o.jobId }]

/-- `INSERT OR IGNORE` of an object under the job an observation names. -/
def markJobObject (t : Table jobObjectSchema) (jobId : Option String) (objectId : String) :
    Table jobObjectSchema :=
  match jobId with
  | some job => t.insertOrIgnore ⟨job, objectId⟩
  | none => t

/-- The statements of an observation, once it is admitted and not stale. -/
def recordObservation (tx : Catalog) (o : CatalogObservation) (path : ObjectPath) (time : Nat)
    (id : String) (expected : Option Digest) : ObservationOutcome × Catalog :=
  let decision := decideIdentity expected o.acceptChange o.result
  let finding := judge decision.expected o.result
  let files := if decision.accepted then forgetSuccesses tx.files id else tx.files
  (⟨id, finding.result, decision.established, decision.accepted⟩,
    { tx with
      objects := recordIdentity tx.objects id path o.path.display decision
      files := recordFinding files id o.locationId time finding
      history := tx.history ++ observationHistory o id time expected decision finding
      catalogScanSeen := markJobObject tx.catalogScanSeen o.jobId id
      catalogJobItems := markJobObject tx.catalogJobItems o.jobId id })

/-- The copy has a check later than `time`. -/
def checkedAfter (tx : Catalog) (objectId locationId : String) (time : Nat) : Bool :=
  ((tx.files.get? (objectId, locationId)).bind FileRow.lastCheckTimeUtcMs).any fun prior =>
    prior > time

/-- The size a decision stores must be an SQLite integer. -/
def requireSize (decision : IdentityDecision) : WriteResult Unit :=
  match decision.stored with
  | some (_, sizeBytes) => do
      let _ ← sqlTime sizeBytes
      .ok ()
  | none => .ok ()

def observeInTransaction (newId : String) (tx : Catalog) (o : CatalogObservation) :
    WriteResult (ObservationOutcome × Catalog) := do
  let (path, time) ← admitObservation tx o
  let (id, expected) := locateObject newId tx path
  if checkedAfter tx id o.locationId time then
    .error (.invalid "observation predates the current check")
  else
    requireSize (decideIdentity expected o.acceptChange o.result)
    .ok (recordObservation tx o path time id expected)

/-! ### Batches -/

/-- What one submission did: the outcome, whether it was a replay, and the catalog. -/
structure Submission where
  outcome : ObservationOutcome
  fresh : Bool
  tx : Catalog

/-- The stored outcome of an operation key, for the same request. -/
def replay (tx : Catalog) (o : CatalogObservation) (stored : WriteOperation) :
    WriteResult Submission := do
  if stored.request ≠ o then
    .error (.invalid "operation key reused for different immutable inputs")
  else
    requireObservationJob tx o
    .ok ⟨stored.outcome, false,
      { tx with
        catalogScanSeen := markJobObject tx.catalogScanSeen o.jobId stored.outcome.objectId }⟩

/-- Store the outcome of an observation under its key. -/
def storeOutcome (tx : Catalog) (o : CatalogObservation) (outcome : ObservationOutcome) :
    WriteResult Catalog :=
  match o.operationKey with
  | some key =>
      match tx.catalogWriteOperations.insert? ⟨key, o, outcome⟩ with
      | some t => .ok { tx with catalogWriteOperations := t }
      | none => .error (.sqlite "UNIQUE constraint failed: catalog_write_operations.operation_key")
  | none => .ok tx

/-- One iteration of the loop of `observe_batch`. -/
def submit (newId : String) (tx : Catalog) (o : CatalogObservation) : WriteResult Submission :=
  match o.operationKey.bind tx.catalogWriteOperations.get? with
  | some stored => replay tx o stored
  | none => do
      let (outcome, tx) ← observeInTransaction newId tx o
      let tx ← storeOutcome tx o outcome
      .ok ⟨outcome, true, tx⟩

/-- The loop of `observe_batch`; `newIds` are the identifiers new objects get. -/
def observeLoop (newIds : Nat → String) (tx : Catalog) :
    List CatalogObservation → WriteResult (List ObservationOutcome × Bool × Catalog)
  | [] => .ok ([], false, tx)
  | o :: rest => do
      let s ← submit (newIds 0) tx o
      let (outcomes, changed, tx) ← observeLoop (fun n => newIds (n + 1)) s.tx rest
      .ok (s.outcome :: outcomes, s.fresh || changed, tx)

/-- Every observation, history row, coverage marker and stored outcome of the
batch commits together, or none does. -/
def observeBatch (newIds : Nat → String) (c : Catalog) (observations : List CatalogObservation) :
    WriteResult (List ObservationOutcome × Catalog) := do
  let (outcomes, changed, tx) ← observeLoop newIds c observations
  .ok (outcomes, if changed then tx.bumpRevision else tx)

/-! ### Jobs -/

/-- A history row about no object. -/
def jobHistory (time : Nat) (kind : HistoryKind) (details : HistoryDetails) : HistoryRow where
  objectId := none
  locationId := none
  timeUtcMs := time
  kind := kind
  checkResult := none
  expectedBlake3 := none
  observedBlake3 := none
  details := details

def beginCatalogJob (c : Catalog) (id kind : String) (parameters : Json) (time : Nat) :
    WriteResult (JobStatus × Catalog) :=
  match c.catalogJobs.get? id with
  | some existing =>
      if existing.kind ≠ kind ∨ existing.params.render ≠ parameters.render then
        .error (.invalid ("job " ++ id ++ " belongs to different immutable inputs"))
      else .ok (existing.status, c)
  | none => do
      let time ← sqlTime time
      .ok (.running, Catalog.bumpRevision { c with
        catalogJobs := c.catalogJobs.insertOrIgnore
          ⟨id, kind, parameters, .running, time, none, .obj []⟩
        history := c.history ++ [jobHistory time .jobStarted (.jobStarted id kind parameters)] })

/-- Start a fresh enumeration pass: only paths enumerated in it establish coverage. -/
def resetScanCoverage (c : Catalog) (jobId : String) : WriteResult Catalog := do
  requireRunningJob c jobId
  .ok { c with catalogScanSeen := c.catalogScanSeen.delete fun r => r.jobId = jobId }

def checkpointCatalogJob (c : Catalog) (jobId : String) (progress : Json) : WriteResult Catalog := do
  requireRunningJob c jobId
  .ok { c with
    catalogJobs := c.catalogJobs.modify (fun r => r.jobId = jobId)
      fun r => { r with progress := progress } }

/-- The statements that close a job: its coverage and its items go with it. -/
def closeJob (tx : Catalog) (id : String) (status : JobStatus) (time : Nat) (summary : Json) :
    Catalog :=
  { tx with
    catalogJobs := tx.catalogJobs.modify (fun r => r.jobId = id)
      fun r => { r with status := status, finishedTimeUtcMs := some time, progress := summary }
    history := tx.history ++ [jobHistory time .jobFinished (.jobFinished id status summary)]
    catalogScanSeen := tx.catalogScanSeen.delete fun r => r.jobId = id
    catalogJobItems := tx.catalogJobItems.delete fun r => r.jobId = id }

def finishJob (tx : Catalog) (id : String) (status : JobStatus) (time : Nat) (summary : Json) :
    WriteResult Catalog := do
  let time ← sqlTime time
  .ok (closeJob tx id status time summary)

/-- The object belongs to the Collection. -/
def inCollection (tx : Catalog) (collectionId objectId : String) : Bool :=
  (tx.objects.get? objectId).any fun r => r.path.collectionId = collectionId

/-- The rows a complete scan declares missing. -/
def scanMisses (tx : Catalog) (jobId collectionId locationId : String) (f : FileRow) : Bool :=
  f.locationId = locationId && f.presence ≠ .missing && inCollection tx collectionId f.objectId &&
    (tx.catalogScanSeen.get? (jobId, f.objectId)).isNone

/-- The `scan_missing` history row of a copy. -/
def scanMissingHistory (tx : Catalog) (jobId : String) (time : Nat) (f : FileRow) : HistoryRow where
  objectId := some f.objectId
  locationId := some f.locationId
  timeUtcMs := time
  kind := .scanMissing
  checkResult := some .missing
  expectedBlake3 := (tx.objects.get? f.objectId).bind ObjectRow.expectedBlake3
  observedBlake3 := none
  details := .job (some jobId)

/-- Declare missing every copy in scope that the job did not see. -/
def declareScanMissing (tx : Catalog) (jobId collectionId locationId : String) (time : Nat) :
    Nat × Catalog :=
  let misses := scanMisses tx jobId collectionId locationId
  ((tx.files.rows.filter misses).length,
    { tx with
      history := tx.history ++
        (tx.files.rows.filter misses).map (scanMissingHistory tx jobId time)
      files := tx.files.modify misses (.declareMissing time) })

/-- A copy in scope has a check later than `time`. -/
def scanPredatesCheck (tx : Catalog) (collectionId locationId : String) (time : Nat) : Bool :=
  tx.files.rows.any fun f =>
    inCollection tx collectionId f.objectId && f.locationId = locationId &&
      f.lastCheckTimeUtcMs.any fun prior => prior > time

/-- Finalize one complete clean traversal of a Location and Collection. -/
def finishCatalogScan (c : Catalog) (jobId collectionId locationId : String)
    (completeCoverage : Bool) (time : Nat) (summary : Json) : WriteResult (Nat × Catalog) := do
  requireRunningJob c jobId
  requireJobScope c jobId collectionId locationId "scan finalization scope differs from job inputs"
  if completeCoverage then
    let sqlTime ← sqlTime time
    if scanPredatesCheck c collectionId locationId sqlTime then
      .error (.invalid "scan finalization predates current checks")
    else
      let (missing, tx) := declareScanMissing c jobId collectionId locationId sqlTime
      let tx ← finishJob tx jobId .complete time summary
      .ok (missing, tx.bumpRevision)
  else
    let tx ← finishJob c jobId .partialWork time summary
    .ok (0, tx.bumpRevision)

/-- The statuses `finish_catalog_job` accepts. -/
def JobStatus.ofTerminal (status : String) : Option JobStatus :=
  if status = "complete" then some .complete
  else if status = "partial" then some .partialWork
  else if status = "cancelled" then some .cancelled
  else none

def finishCatalogJob (c : Catalog) (jobId status : String) (time : Nat) (summary : Json) :
    WriteResult Catalog :=
  match JobStatus.ofTerminal status with
  | none => .error (.invalid "invalid terminal job status")
  | some status =>
      if (c.catalogJobs.get? jobId).any fun job => job.status = status then .ok c
      else do
        requireRunningJob c jobId
        let tx ← finishJob c jobId status time summary
        .ok tx.bumpRevision

end ArchiveLedger
