import ArchiveLedger.Projection.RegistryItems

/-!
# Projecting records

`insert_record`, the three kinds of record and the dispatch on the kind of an item:
one step of the projection is `projectRecord`, and a run of the projector over the
records of an archive is a run of it.
-/

namespace ArchiveLedger

open Relational Outcome Transition

namespace Projection

variable (R : ProjectionRuntime)

def recordRow (record : VerifiedV2Record) : RecordRow :=
  { originId := record.originId
    originSeq := record.originSeq
    recordId := record.record.envelope.recordId
    recordKind := record.kind
    recordTimeUtcMs := record.record.envelope.timeUtcMs
    batchId := record.batchId
    causalFrontierHash := record.causalFrontierHash
    segmentManifestHash := record.segmentManifestHash
    previousRecordHash := record.record.envelope.previousRecordHash
    recordHash := record.record.recordHash }

/-- `INSERT OR IGNORE INTO records`, with whether the row was inserted. -/
def insertRecord (db : Projection) (record : VerifiedV2Record) : ProjectionResult (Projection × Bool) := do
  let _ ← sqlI64 record.originSeq "record origin sequence"
  let _ ← sqlI64 record.record.envelope.timeUtcMs "record time"
  match db.records.insert? (recordRow record) with
  | some records =>
      .ok (if 0 < record.originSeq then ({ db with records := records }, true) else (db, false))
  | none => .ok (db, false)

/-! ### The start of a batch -/

def payloadOf (record : VerifiedV2Record) (description : String) : ProjectionResult Json :=
  object record.record.envelope.payload description

def projectBatchStart (db : Projection) (record : VerifiedV2Record) : ProjectionResult Projection := do
  let payload ← payloadOf record "batch_start payload"
  let context ← required payload "context"
  let itemSchemaVersion ← number payload "item_schema_version"
  let defaults ← required payload "defaults"
  validateProjectedItemDefaults itemSchemaVersion defaults
  let db ← db.projectCoordinationContext context record
  let operationKind ← string payload "operation_kind"
  let version ← sqlI64 itemSchemaVersion "item schema version"
  let causalFrontierHash ← string payload "causal_frontier_hash"
  let startSeq ← sqlI64 record.originSeq "batch start sequence"
  named db.clients record.originId
  let row : BatchRunRow :=
    { batchId := record.batchId
      originId := record.originId
      operationKind := operationKind
      itemSchemaVersion := version
      causalFrontierHash := causalFrontierHash
      context := context
      defaults := defaults
      startSeq := startSeq
      lastChunkSeq := none
      completeSeq := none
      itemCount := 0
      itemDigest := none
      running := true }
  let runs ← statement (db.batchRuns.insert? row)
  .ok { db with batchRuns := runs }

/-! ### Items -/

/-- What an item of a kind does. -/
def projectKind (db : Projection) (item : Json) (kind : String) (record : VerifiedV2Record)
    (context : V2VerificationContext) (itemIndex : Nat) : ProjectionResult Projection :=
  if kind = "archive_initialized" then db.projectArchiveInitialized item record context
  else if kind = "archive_updated" then db.projectArchiveUpdated item context
  else if kind = "client_enrolled" then db.projectClientEnrolled R item record
  else if kind = "client_revoked" then db.projectClientRevoked item record
  else if isRegistryItem kind then db.projectRegistryItem R item record
  else if kind = "content_observed" then
    db.projectContentObserved R item record context.frontiers
  else if kind = "copy_verification_failed" then db.projectCopyVerificationFailed R item record
  else if kind = "scan_started" then db.projectScanStarted R item record
  else if kind = "scan_missing_candidate" then
    db.projectScanMissingCandidate R item record itemIndex
  else if kind = "scan_completed" then db.projectScanCompleted item record
  else if kind = "annex_import_started" then db.projectAnnexImportStarted R item record
  else if kind = "annex_entry_observed" then db.projectAnnexEntry R item record
  else if kind = "annex_import_completed" then db.projectAnnexImportCompleted item record
  else if kind = "job_started" then db.projectJobStarted item record
  else if kind = "job_finished" then db.projectJobFinished item record
  else .error (.invalid ("unsupported projection item kind " ++ quoted kind))

/-- One item: its coordination, its effect and its operation key. -/
def projectItem (db : Projection) (item : Json) (kind : String) (record : VerifiedV2Record)
    (context : V2VerificationContext) (itemIndex : Nat) : ProjectionResult Projection := do
  db.checkCoordination item kind record.batchId
  let db ← db.projectKind R item kind record context itemIndex
  db.projectOperationOutcome item record itemIndex

/-- The running batch of an id. -/
def runningBatch (db : Projection) (batchId : String) : Option BatchRunRow :=
  (db.batchRuns.get? batchId).filter (·.running)

/-- An item as its batch means it. -/
def batchItem (batch : BatchRunRow) (raw : Json) : ProjectionResult Json :=
  if batch.itemSchemaVersion = 1 then object raw "batch item"
  else materializeBatchItem raw batch.defaults

def itemContext (itemIndex : Nat) (error : ProjectionError) : ProjectionError :=
  .context ("batch item index=" ++ toString itemIndex) error

/-- The item at an index of its batch. -/
def projectIndexed (batch : BatchRunRow) (record : VerifiedV2Record)
    (context : V2VerificationContext) (db : Projection) (entry : Json × Nat) :
    ProjectionResult Projection := do
  let item ← batchItem batch entry.1
  let itemIndex ← okOr (checkedAdd batch.itemCount entry.2) (.invalid "batch item index overflow")
  let kind ← string item "kind"
  mapError (itemContext itemIndex) (db.projectItem R item kind record context itemIndex)

def projectBatchChunk (db : Projection) (record : VerifiedV2Record)
    (context : V2VerificationContext) : ProjectionResult Projection := do
  let payload ← payloadOf record "batch_chunk payload"
  let first ← number payload "first_item_index"
  let value ← required payload "items"
  let items ← okOr value.asArray (.invalid "batch chunk items must be an array")
  let batch ← statement (db.runningBatch record.batchId)
  validateProjectedItemDefaults batch.itemSchemaVersion batch.defaults
  require (batch.itemCount = first)
    (.invalid ("batch " ++ record.batchId ++ " chunk range is not consecutive"))
  let db ← commitAll (projectIndexed R batch record context) db items.zipIdx
  let next ← okOr (checkedAdd batch.itemCount items.length) (.invalid "batch item count overflow")
  let chunkSeq ← sqlI64 record.originSeq "batch chunk sequence"
  let itemCount ← sqlI64 next "batch item count"
  let runs := db.batchRuns.modify (fun b => b.batchId = record.batchId)
    fun b => { b with lastChunkSeq := some chunkSeq, itemCount := itemCount }
  .ok { db with batchRuns := runs }

/-! ### The end of a batch -/

def projectBatchComplete (db : Projection) (record : VerifiedV2Record) :
    ProjectionResult Projection := do
  let payload ← payloadOf record "batch_complete payload"
  let declared ← number payload "total_items"
  let batch ← statement (db.runningBatch record.batchId)
  let mismatch : ProjectionError :=
    .invalid ("batch " ++ record.batchId ++ " completion does not match projected chunks")
  require (declared = batch.itemCount) mismatch
  let status ← string payload "status"
  require (status = "complete") mismatch
  let db ← db.finalizeScansForBatch record
  let completeSeq ← sqlI64 record.originSeq "batch complete sequence"
  let itemDigest ← string payload "ordered_item_digest"
  let runs := db.batchRuns.modify (fun b => b.batchId = record.batchId)
    fun b => { b with completeSeq := some completeSeq, itemDigest := some itemDigest, running := false }
  .ok { db with batchRuns := runs }

/-! ### Records -/

/-- What an inserted record does. -/
def projectInserted (context : V2VerificationContext) (db : Projection) (record : VerifiedV2Record) :
    ProjectionResult Projection :=
  match record.kind with
  | .batchStart => db.projectBatchStart record
  | .batchChunk => db.projectBatchChunk R record context
  | .batchComplete => db.projectBatchComplete record

/-- The cursor of an origin moves with the end of each batch. -/
def advanceOrigin (db : Projection) (record : VerifiedV2Record) : Projection :=
  match record.kind with
  | .batchComplete =>
      let row : OriginRow := ⟨record.originId, record.originSeq, record.record.recordHash,
        record.segmentManifestHash, record.record.envelope.timeUtcMs⟩
      let origins := db.projectionOrigins.upsert row fun old => { row with originId := old.originId }
      { db with projectionOrigins := origins }
  | _ => db

/-- One record beyond the cursors; a record that stands in the database already is
passed over. -/
def projectRecord (context : V2VerificationContext) (db : Projection) (record : VerifiedV2Record) :
    ProjectionResult Projection := do
  let (db, inserted) ← db.insertRecord record
  let db ← (if inserted then projectInserted R context db record else .ok db)
  .ok (db.advanceOrigin record)

end Projection

end ArchiveLedger
