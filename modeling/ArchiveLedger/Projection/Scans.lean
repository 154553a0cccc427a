import ArchiveLedger.Projection.Observations

/-!
# Projecting scans

The items of a scan and `finalize_scans_for_batch`, which publishes the missing
candidates of the scans that complete with their batch.  The target lists are
read in pages of 512; no statement between two pages changes what the next page
selects, so a page loop is one pass over the selected rows.
-/

namespace ArchiveLedger

open Relational Outcome Transition

namespace Projection

variable (R : ProjectionRuntime)

/-! ### Items of a scan -/

def projectScanStarted (db : Projection) (item : Json) (record : VerifiedV2Record) :
    ProjectionResult Projection := do
  let scanMode ← string item "scan_mode"
  let mode ← okOr (ScanMode.ofStr? scanMode) (.invalid "scan mode must be add or complete")
  let scope ← required item "scope"
  let exclusions ← required item "exclusions"
  let exclusionsJson := String.ofList exclusions.render
  let scanId ← string item "scan_id"
  let jobId ← string item "job_id"
  let locationId ← string item "location_id"
  let collectionId ← string item "collection_id"
  let started ← number item "started_time_utc_ms"
  let started ← sqlI64 started "scan start time"
  named db.locations locationId
  named db.collections collectionId
  let row : ScanRunRow :=
    { scanId := scanId
      jobId := jobId
      locationId := locationId
      collectionId := collectionId
      status := .running
      mode := mode
      startedTimeUtcMs := started
      causalFrontierHash := record.causalFrontierHash
      finishedTimeUtcMs := none
      scopeJson := String.ofList scope.render
      exclusionsJson := exclusionsJson
      exclusionsHash := blake3Id R.toStoreRuntime (utf8 exclusionsJson)
      totals := .zero
      errorSummary := .obj []
      startedRecordId := record.record.envelope.recordId
      finishedRecordId := none }
  let scans ← statement (db.scanRuns.insert? row)
  .ok { db with scanRuns := scans }

/-- The running scan of an id. -/
def runningScan (db : Projection) (scanId : String) : Option ScanRunRow :=
  (db.scanRuns.get? scanId).filter ScanRunRow.running

/-- The row a nullable column refers to exists. -/
def namedIfSome {κ ρ : Type} [DecidableEq κ] {S : Schema κ ρ} (t : Table S) (name : Option κ) :
    ProjectionResult Unit := require (name.all fun k => (t.get? k).isSome) .sqlite

def projectScanMissingCandidate (db : Projection) (item : Json) (record : VerifiedV2Record)
    (itemIndex : Nat) : ProjectionResult Projection := do
  let candidateKind ← string item "candidate_kind"
  let kind ← okOr (CandidateKind.ofStr? candidateKind)
    (.invalid "scan candidate kind must be path or copy")
  let scanId ← string item "scan_id"
  let scan ← statement (db.runningScan scanId)
  require (scan.mode = .complete) (.invalid "only a complete scan may emit missing candidates")
  let value ← required item "path"
  let path ← mapError (fun e => .invalid ("missing-candidate path is invalid: " ++ e))
    (R.readRegistryPath value)
  let bytes ← mapError (fun e => .invalid e.display) (registryPathBytes path)
  let candidateId ← string item "candidate_id"
  let originSeq ← sqlI64 record.originSeq "candidate origin sequence"
  let index ← sqlI64 itemIndex "candidate item index"
  let fileRefId := optionalString item "file_ref_id"
  let copyClaimId := optionalString item "copy_claim_id"
  let locationId ← string item "location_id"
  namedIfSome db.fileObjects fileRefId
  namedIfSome db.copyBindings copyClaimId
  named db.locations locationId
  let row : ScanMissingCandidateRow :=
    { candidateId := candidateId
      originId := record.originId
      originSeq := originSeq
      recordId := record.record.envelope.recordId
      itemIndex := index
      recordHash := record.record.recordHash
      scanId := scanId
      candidateKind := kind
      fileRefId := fileRefId
      copyClaimId := copyClaimId
      locationId := locationId
      path := ⟨path.encoding, bytes⟩
      activated := false }
  let candidates ← statement (db.scanMissingCandidates.insert? row)
  .ok { db with scanMissingCandidates := candidates }

def projectScanCompleted (db : Projection) (item : Json) (record : VerifiedV2Record) :
    ProjectionResult Projection := do
  let status ← string item "status"
  let desired ← okOr (RunStatus.terminal? status) (.invalid "scan completion status is invalid")
  let scanId ← string item "scan_id"
  require (db.runningScan scanId).isSome
    (.invalid "scan completion does not match one running scan")
  let finished ← number item "finished_time_utc_ms"
  let finished ← sqlI64 finished "scan finish time"
  let summary ← required item "summary"
  let pending ← statement (db.scanPendingCompletions.insert?
    ⟨scanId, record.batchId, desired, finished, summary, record.record.envelope.recordId⟩)
  .ok { db with scanPendingCompletions := pending }

/-! ### Presence checks of a finalization -/

/-- The database while a scan is finalized, with the checks made for it: one for each
file location and presence. -/
structure Finalization where
  db : Projection
  checked : List ((BindingKey × Presence) × Nat)

/-- The latest presence check of a file location. -/
def latestCheck (db : Projection) (location : FileLocationRow) : Option (Nat × CheckRow) :=
  location.latestPresence.bind fun id => (db.checks[id]?).map fun check => (id, check)

/-- The check of this presence that an observation of the same batch made. -/
def directCheck (db : Projection) (binding : BindingKey) (presence : Presence) (batch : String) :
    Option Nat :=
  (db.fileLocations.get? binding).bind fun location =>
    ((db.latestCheck location).filter fun c => c.2.presence = presence &&
      c.2.integrity ≠ .unverified && location.content.isSome &&
      (db.records.get? location.lastRecord).any fun r => r.batchId = batch).map Prod.fst

/-- The latest check of this presence, when it is later than the time. -/
def laterCheck (db : Projection) (binding : BindingKey) (presence : Presence) (time : Nat) :
    Option Nat :=
  (db.fileLocations.get? binding).bind fun location =>
    ((db.latestCheck location).filter fun c => c.2.presence = presence &&
      time < c.2.checkedAt).map Prod.fst

/-- `UPDATE file_locations SET latest_presence`. -/
def setLatestPresence (db : Projection) (binding : BindingKey) (check : Nat) : Projection :=
  let locations := db.fileLocations.modify (fun p => p.binding = binding)
    fun p => { p with latestPresence := some check }
  { db with fileLocations := locations }

/-- A new check, unless an observation of the batch made one; the latest check stays
where it is later. -/
def newPresenceCheck (db : Projection) (binding : BindingKey) (time : Nat) (presence : Presence)
    (batch : String) : Projection × Nat :=
  match db.directCheck binding presence batch with
  | some id => (db, id)
  | none =>
      let (next, new) := db.appendCheck binding time presence .unverified none
      match db.laterCheck binding presence time with
      | some old => (next.setLatestPresence binding old, old)
      | none => (next, new)

def Finalization.presenceCheck (s : Finalization) (binding : BindingKey) (time : Nat)
    (presence : Presence) (batch : String) : Finalization × Nat :=
  match s.checked.find? fun c => c.1 = (binding, presence) with
  | some (_, id) => (s, id)
  | none =>
      let (db, id) := s.db.newPresenceCheck binding time presence batch
      (⟨db, s.checked ++ [((binding, presence), id)]⟩, id)

/-! ### Publishing candidates -/

/-- What a finalization of one scan knows. -/
structure ScanClose where
  scan : ScanRunRow
  record : String
  batch : String
  finished : Nat

/-- The candidates of a scan that were not published yet. -/
def openCandidates (db : Projection) (scanId : String) : List ScanMissingCandidateRow :=
  db.scanMissingCandidates.rows.filter fun c => c.scanId = scanId && !c.activated

/-- A path candidate is about this file location. -/
def pathCandidate (db : Projection) (scanId : String) (location : FileLocationRow) : Bool :=
  (db.fileObjects.get? location.fileId).any fun file =>
    (db.openCandidates scanId).any fun c => c.candidateKind = .path &&
      c.fileRefId = some file.canonicalId && c.locationId = location.locationId && c.path = file.path

/-- A candidate names this Copy. -/
def copyCandidate (db : Projection) (scanId : String) (copy : CopyBindingRow) : Bool :=
  (db.openCandidates scanId).any fun c => c.copyClaimId = some copy.canonicalId

def publishPath (close : ScanClose) (s : Finalization) (target : BindingKey) : Finalization :=
  let (s, check) := s.presenceCheck target close.finished .missing close.batch
  let locations := s.db.fileLocations.modify (fun p => p.binding = target) fun p => { p with
    presence := false
    completeScan := some close.scan.scanId
    lastRecord := close.record
    latestPresence := some check }
  { s with db := { s.db with fileLocations := locations } }

def publishCopy (close : ScanClose) (s : Finalization) (target : CopyBindingRow) :
    ProjectionResult Finalization := do
  let (s, check) := s.presenceCheck target.owner close.finished .missing close.batch
  let copies ← statement (s.db.copyBindings.modify? (fun c => c.canonicalId = target.canonicalId)
    fun c => { c with
      state := .missing
      stateRecord := close.record
      completeScan := some close.scan.scanId
      latestPresence := some check })
  .ok { s with db := { s.db with copyBindings := copies } }

/-- `UPDATE scan_missing_candidates SET activated=1`. -/
def activateCandidates (db : Projection) (scanId : String) : Projection :=
  let candidates := db.scanMissingCandidates.modify (fun c => c.scanId = scanId)
    fun c => { c with activated := true }
  { db with scanMissingCandidates := candidates }

/-! ### Coverage -/

/-- A file location of the Collection and the Location of a scan whose File is active. -/
def coversPath (db : Projection) (scan : ScanRunRow) (location : FileLocationRow) : Bool :=
  location.locationId = scan.locationId && location.presence &&
    (db.fileObjects.get? location.fileId).any fun f => f.collectionId = scan.collectionId && f.active

def markCovered (db : Projection) (scan : ScanRunRow) : Projection :=
  let locations := db.fileLocations.modify (db.coversPath scan)
    fun p => { p with completeScan := some scan.scanId }
  { db with fileLocations := locations }

/-- The paths of `compact_scan_paths`. -/
def scanPaths (db : Projection) (scan : ScanRunRow) : List StoredPath :=
  db.fileLocations.rows.filterMap fun p => do
    let f ← db.fileObjects.get? p.fileId
    if p.locationId = scan.locationId ∧ f.collectionId = scan.collectionId ∧
        p.representation ≠ "annex_content" then some f.path else none

/-- A file location the scan covered and found present. -/
def presentIn (scan : ScanRunRow) (p : FileLocationRow) : Bool :=
  p.locationId = scan.locationId && p.completeScan = some scan.scanId && p.presence

/-- The paths of `compact_scan_present_paths`. -/
def scanPresentPaths (db : Projection) (scan : ScanRunRow) : List StoredPath :=
  (db.fileLocations.rows.filter fun p => presentIn scan p && p.representation ≠ "annex_content").filterMap
    fun p => (db.fileObjects.get? p.fileId).map (·.path)

/-- The identities of `compact_scan_annex_ids`. -/
def scanAnnexIds (db : Projection) (scan : ScanRunRow) : List String :=
  (db.fileLocations.rows.filter fun p => presentIn scan p &&
    p.representation = "annex_locked_symlink").filterMap (·.external)

/-- The Copies of `compact_scan_copy_targets`. -/
def scanCopyTarget (scan : ScanRunRow) (copy : CopyBindingRow) : Bool :=
  copy.locationId = scan.locationId &&
    (copy.state = .present || copy.state = .corrupt || copy.state = .unknown)

def coveredCopy (db : Projection) (scan : ScanRunRow) (copy : CopyBindingRow) : Bool :=
  scanCopyTarget scan copy && (db.copyPath copy).any fun path => path ∈ db.scanPaths scan

def presentCopy (db : Projection) (scan : ScanRunRow) (copy : CopyBindingRow) : Bool :=
  scanCopyTarget scan copy &&
    ((db.copyPath copy).any (fun path => path ∈ db.scanPresentPaths scan) ||
      copy.external.any fun x => x ∈ db.scanAnnexIds scan)

def markCoveredCopies (db : Projection) (covered : CopyBindingRow → Bool) (scanId : String) :
    Projection :=
  let copies := db.copyBindings.modify covered
    (fun c => { c with completeScan := some scanId }) (fun _ => rfl) (fun _ _ h => h)
  { db with copyBindings := copies }

/-! ### Refreshing unchanged files -/

def refreshPath (close : ScanClose) (s : Finalization) (target : BindingKey) : Finalization :=
  let start := close.scan.startedTimeUtcMs
  let (s, check) := s.presenceCheck target start .present close.batch
  let locations := s.db.fileLocations.modify (fun p => p.binding = target) fun p => { p with
    seenTime := max p.seenTime start
    latestPresence := some check }
  { s with db := { s.db with fileLocations := locations } }

def refreshCopy (close : ScanClose) (s : Finalization) (target : CopyBindingRow) : Finalization :=
  let (s, check) := s.presenceCheck target.owner close.scan.startedTimeUtcMs .present close.batch
  let copies := s.db.copyBindings.modify (fun c => c.canonicalId = target.canonicalId)
    (fun c => { c with latestPresence := some check }) (fun _ => rfl) (fun _ _ h => h)
  { s with db := { s.db with copyBindings := copies } }

/-! ### Finalizing the scans of a batch -/

/-- The publication of a complete scan that completes. -/
def publishScan (db : Projection) (close : ScanClose) (summary : Json) :
    ProjectionResult Projection := do
  let scanId := close.scan.scanId
  let count := ((db.openCandidates scanId).filter fun c => c.candidateKind = .path).length
  let missing ← number summary "missing_paths"
  require (count = missing)
    (.invalid ("scan " ++ scanId ++ " missing-candidate count does not match its completion"))
  let paths := (db.fileLocations.rows.filter (db.pathCandidate scanId)).map (·.binding)
  let s := paths.foldl (publishPath close) ⟨db, []⟩
  let s ← commitAll (publishCopy close) s (s.db.copyBindings.rows.filter (s.db.copyCandidate scanId))
  let db := (s.db.activateCandidates scanId).markCovered close.scan
  let present := db.copyBindings.rows.filter (db.presentCopy close.scan)
  let db := db.markCoveredCopies (db.coveredCopy close.scan) scanId
  if (summary.get "unchanged_files").isSome then
    let seen := (db.fileLocations.rows.filter fun p => p.completeScan = some scanId && p.presence).map (·.binding)
    let s := seen.foldl (refreshPath close) { s with db := db }
    let s := present.foldl (refreshCopy close) s
    .ok s.db
  else .ok db

/-- The counts of a completion summary. -/
def scanTotals (summary : Json) : ProjectionResult ScanTotals := do
  let readErrors ← number summary "read_errors"
  let concurrentChanges ← number summary "concurrent_changes"
  let traversalErrors ← number summary "traversal_errors"
  let errors := saturatingAdd (saturatingAdd readErrors concurrentChanges) traversalErrors
  let filesObserved ← number summary "files_observed"
  let filesSeen ← sqlI64 filesObserved "files seen"
  let missing ← number summary "missing_paths"
  let missingPaths ← sqlI64 missing "missing paths"
  let bytesObserved ← number summary "bytes_observed"
  let bytesSeen ← sqlI64 bytesObserved "bytes seen"
  let new ← number summary "new_paths"
  let newPaths ← sqlI64 new "new paths"
  let changed ← number summary "changed_paths"
  let changedPaths ← sqlI64 changed "changed paths"
  let confirmed ← number summary "confirmed_good"
  let unchangedPaths ← sqlI64 confirmed "unchanged paths"
  let errorCount ← sqlI64 errors "errors"
  .ok ⟨filesSeen, missingPaths, bytesSeen, newPaths, changedPaths, unchangedPaths, errorCount⟩

/-- What a completed scan does to current state: nothing, unless it completes a scan of
the mode `complete`. -/
def closeScan (db : Projection) (close : ScanClose) (status : RunStatus) (summary : Json) :
    ProjectionResult Projection :=
  if status = .complete ∧ close.scan.mode = .complete then db.publishScan close summary
  else do
    require (¬ db.scanMissingCandidates.rows.any fun c => c.scanId = close.scan.scanId)
      (.invalid ("non-complete scan " ++ close.scan.scanId ++ " contains missing candidates"))
    .ok db

/-- One scan that ends with the batch. -/
def finalizeScan (rid batch : String) (db : Projection) (pending : ScanPendingCompletionRow) :
    ProjectionResult Projection := do
  let summary ← object pending.summary "scan summary"
  let scan ← statement (db.runningScan pending.scanId)
  let db ← db.closeScan ⟨scan, rid, batch, pending.finishedTimeUtcMs⟩ pending.desiredStatus summary
  let totals ← scanTotals summary
  let scans ← statement (db.scanRuns.modify? (fun s => s.scanId = pending.scanId && s.running)
    fun s => { s with
      status := pending.desiredStatus
      finishedTimeUtcMs := some pending.finishedTimeUtcMs
      totals := totals
      errorSummary := pending.summary
      finishedRecordId := some pending.finishedRecordId })
  let completions := db.scanPendingCompletions.delete fun p => p.scanId = pending.scanId
  .ok { db with scanRuns := scans, scanPendingCompletions := completions }

/-- The order of `ORDER BY scan_id`. -/
def pendingLe (a b : ScanPendingCompletionRow) : Bool := !textLt b.scanId a.scanId

def pendingOf (db : Projection) (batch : String) : List ScanPendingCompletionRow :=
  (db.scanPendingCompletions.rows.filter fun p => p.batchId = batch).mergeSort pendingLe

def finalizeScansForBatch (db : Projection) (record : VerifiedV2Record) :
    ProjectionResult Projection := do
  let rid ← db.recordKey record
  commitAll (finalizeScan rid record.batchId) db (db.pendingOf record.batchId)

end Projection

end ArchiveLedger
