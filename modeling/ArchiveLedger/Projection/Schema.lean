import ArchiveLedger.Foundation.Table
import ArchiveLedger.Projection.Items

/-!
# The tables of a projection

The tables of `v2_projection.rs` and `compact_projection.sql`.  The integer keys
that are local to one database stand for the canonical names they are unique
for: a record, File, Copy or content object is referred to by its id, a file
location by its File and Location, and a check by its position in `checks`, which
no statement shortens.  Reports read a few columns that no projecting function
reads; those are left out.
-/

namespace ArchiveLedger

open Relational

/-! ### Records, clients and batches -/

/-- A record by its dot and its id. -/
structure RecordDot where
  originId : String
  originSeq : Nat
  recordId : String
deriving DecidableEq, Repr

structure RecordRow where
  originId : String
  originSeq : Nat
  recordId : String
  recordKind : V2RecordKind
  recordTimeUtcMs : Nat
  batchId : String
  causalFrontierHash : String
  segmentManifestHash : String
  previousRecordHash : Option String
  recordHash : String
deriving DecidableEq, Repr

def RecordRow.dot (r : RecordRow) : RecordDot := ⟨r.originId, r.originSeq, r.recordId⟩

def recordSchema : Schema String RecordRow where
  key := RecordRow.recordId
  clash a b := decide ((a.originId, a.originSeq) = (b.originId, b.originSeq))
  clash_comm a b := by simp only [eq_comm]

structure OriginRow where
  originId : String
  appliedSeq : Nat
  appliedRecordHash : String
  appliedSegmentManifestHash : String
  updatedTimeUtcMs : Nat
deriving DecidableEq, Repr

inductive ClientStatus where
  | enrolled | revoked
deriving DecidableEq, Repr

/-- A client; its capabilities are the list its JSON text holds. -/
structure ClientRow where
  clientId : String
  displayName : String
  publicKey : Bytes
  capabilities : List String
  status : ClientStatus
  approvedRecordId : String
  approvedOriginId : String
  approvedOriginSeq : Nat
  revokedRecordId : Option String
deriving DecidableEq, Repr

def clientSchema : Schema String ClientRow where
  key := ClientRow.clientId
  clash a b := decide (a.publicKey = b.publicKey)
  clash_comm a b := by simp only [eq_comm]

/-- The states of a job, an import or a scan. -/
inductive RunStatus where
  | running | complete | partialWork | failed | cancelled
deriving DecidableEq, Repr

/-- The states in which a run ends. -/
def RunStatus.terminal? (status : String) : Option RunStatus :=
  if status = "complete" then some .complete
  else if status = "partial" then some .partialWork
  else if status = "failed" then some .failed
  else if status = "cancelled" then some .cancelled
  else none

structure BatchRunRow where
  batchId : String
  originId : String
  operationKind : String
  itemSchemaVersion : Nat
  causalFrontierHash : String
  context : Json
  defaults : Json
  startSeq : Nat
  lastChunkSeq : Option Nat
  completeSeq : Option Nat
  itemCount : Nat
  itemDigest : Option String
  running : Bool

structure CoordinationTokenRow where
  scopeKind : String
  scopeId : String
  tokenId : String
  holderClientId : String
  baseFrontierHash : String
  notBeforeUtcMs : Nat
  notAfterUtcMs : Nat
  lastRecordId : String
deriving DecidableEq, Repr

structure JobRow where
  jobId : String
  jobType : String
  status : RunStatus
  createdTimeUtcMs : Nat
  startedTimeUtcMs : Option Nat
  finishedTimeUtcMs : Option Nat
  actorId : Option String
  hostId : Option String
  params : Json
  progress : Option Json
  inputVersion : String

structure OperationOutcomeRow where
  operationKey : String
  recordId : String
  itemIndex : Nat
deriving DecidableEq, Repr

structure AnnexImportRow where
  importId : String
  jobId : String
  repoPath : StoredPath
  repoPathDisplay : String
  collectionId : String
  worktreeLocationId : String
  casLocationId : String
  deviceId : String
  archiveRootId : String
  annexUuid : String
  gitHeadCommit : String
  status : RunStatus
  summary : Json
  startedRecordId : String
  completedRecordId : Option String

/-! ### Content and external identities -/

structure ContentObjectRow where
  objectId : String
  sizeBytes : Nat
  extensionHint : Option String
  firstRecord : String
  firstTime : Nat
deriving DecidableEq, Repr

/-- What a checksum is known by. -/
structure Checksum where
  algorithm : String
  digest : Bytes
deriving DecidableEq, Repr

inductive Resolution where
  | unresolved | resolved | conflict | unsupported
deriving DecidableEq, Repr

def Resolution.ofStr? (resolution : String) : Option Resolution :=
  if resolution = "unresolved" then some .unresolved
  else if resolution = "resolved" then some .resolved
  else if resolution = "conflict" then some .conflict
  else if resolution = "unsupported" then some .unsupported
  else none

/-- An identity of the namespace `git-annex`, the only one that is written. -/
structure SourceIdentityRow where
  canonicalId : String
  sourceKey : String
  expectedChecksum : Option Checksum
  expectedSize : Option Nat
  content : Option String
  resolution : Resolution
  firstRecord : String
  resolvedRecord : Option String
deriving DecidableEq, Repr

def sourceIdentitySchema : Schema String SourceIdentityRow where
  key := SourceIdentityRow.canonicalId
  clash a b := decide (a.sourceKey = b.sourceKey)
  clash_comm a b := by simp only [eq_comm]

/-- An availability; its source is also its remote. -/
structure SourceAvailabilityRow where
  identity : String
  source : String
  state : Presence
  locationId : String
  observedTime : Nat
  record : String
deriving DecidableEq, Repr

def Presence.ofStr? (state : String) : Option Presence :=
  if state = "present" then some .present
  else if state = "missing" then some .missing
  else if state = "unknown" then some .unknown
  else none

/-! ### Files, their locations and Copies -/

inductive IdentityState where
  | resolved | unresolved | conflict | unknown
deriving DecidableEq, Repr

structure FileObjectRow where
  canonicalId : String
  collectionId : String
  path : StoredPath
  pathDisplay : Option String
  content : Option String
  external : Option String
  identityState : IdentityState
  active : Bool
  modifiedTime : Option Nat
  observedSize : Option Nat
  firstRecord : String
  lastRecord : String
  removedRecord : Option String
deriving DecidableEq, Repr

/-- The columns of the index `compact_file_path`. -/
def FileObjectRow.at (r : FileObjectRow) : String × StoredPath := (r.collectionId, r.path)

def fileObjectSchema : Schema String FileObjectRow where
  key := FileObjectRow.canonicalId
  clash a b := a.active && b.active && decide (a.at = b.at)
  clash_comm a b := by simp only [Bool.and_comm a.active, eq_comm (a := a.at)]

structure FileLocationRow where
  fileId : String
  locationId : String
  representation : String
  content : Option String
  external : Option String
  presence : Bool
  copyId : Option String
  latestPresence : Option Nat
  firstRecord : String
  lastRecord : String
  seenTime : Nat
  observedSize : Option Nat
  modifiedTime : Option Nat
  completeScan : Option String
deriving DecidableEq, Repr

/-- The File and the Location of a file location. -/
abbrev BindingKey := String × String

def FileLocationRow.binding (r : FileLocationRow) : BindingKey := (r.fileId, r.locationId)

@[reducible] def fileLocationSchema : Schema BindingKey FileLocationRow :=
  Schema.ofKey FileLocationRow.binding

inductive CopyState where
  | present | missing | corrupt | unknown | superseded
deriving DecidableEq, Repr

def CopyState.ofStr? (state : String) : Option CopyState :=
  if state = "present" then some .present
  else if state = "missing" then some .missing
  else if state = "corrupt" then some .corrupt
  else if state = "unknown" then some .unknown
  else if state = "superseded" then some .superseded
  else none

inductive ClaimBasis where
  | observedBytes | observedMetadata | sourceMetadata
deriving DecidableEq, Repr

def ClaimBasis.ofStr? (basis : String) : Option ClaimBasis :=
  if basis = "observed_bytes" then some .observedBytes
  else if basis = "observed_metadata" then some .observedMetadata
  else if basis = "source_metadata" then some .sourceMetadata
  else none

structure CopyBindingRow where
  canonicalId : String
  owner : BindingKey
  locationId : String
  pathKey : String
  locator : Option StoredPath
  locatorDisplay : Option String
  content : Option String
  external : Option String
  basis : ClaimBasis
  state : CopyState
  firstRecord : String
  stateRecord : String
  latestPresence : Option Nat
  latestIntegrity : Option Nat
  completeScan : Option String
deriving DecidableEq, Repr

def CopyBindingRow.active (r : CopyBindingRow) : Bool := decide (r.state ≠ .superseded)

/-- The columns of the index `compact_copy_active_path`. -/
def CopyBindingRow.at (r : CopyBindingRow) : String × String := (r.locationId, r.pathKey)

def copyBindingSchema : Schema String CopyBindingRow where
  key := CopyBindingRow.canonicalId
  clash a b := a.active && b.active && decide (a.at = b.at)
  clash_comm a b := by simp only [Bool.and_comm a.active, eq_comm (a := a.at)]

/-- A check with its error. -/
structure CheckRow where
  binding : BindingKey
  checkedAt : Nat
  presence : Presence
  integrity : Integrity
  error : Option (String × Option String)
deriving DecidableEq, Repr

/-! ### Conflicts -/

inductive ConflictState where
  | unresolved | resolved
deriving DecidableEq, Repr

/-- A conflict of the kind `file_identity`, the only one that is written. -/
structure FactConflictRow where
  conflictId : String
  entityKey : Bytes
  left : RecordDot
  right : RecordDot
  state : ConflictState
  resolvedRecordId : Option String
deriving DecidableEq, Repr

/-- The columns of the unique constraint of `fact_conflicts`. -/
def FactConflictRow.dots (r : FactConflictRow) : Bytes × String × Nat × String × Nat :=
  (r.entityKey, r.left.originId, r.left.originSeq, r.right.originId, r.right.originSeq)

def factConflictSchema : Schema String FactConflictRow where
  key := FactConflictRow.conflictId
  clash a b := decide (a.dots = b.dots)
  clash_comm a b := by simp only [eq_comm]

/-! ### Scans -/

inductive ScanMode where
  | add | complete
deriving DecidableEq, Repr

def ScanMode.ofStr? (mode : String) : Option ScanMode :=
  if mode = "add" then some .add else if mode = "complete" then some .complete else none

/-- The counts a completed scan reports. -/
structure ScanTotals where
  filesSeen : Nat
  missingPaths : Nat
  bytesSeen : Nat
  newPaths : Nat
  changedPaths : Nat
  unchangedPaths : Nat
  errorCount : Nat
deriving DecidableEq, Repr

def ScanTotals.zero : ScanTotals := ⟨0, 0, 0, 0, 0, 0, 0⟩

structure ScanRunRow where
  scanId : String
  jobId : String
  locationId : String
  collectionId : String
  status : RunStatus
  mode : ScanMode
  startedTimeUtcMs : Nat
  causalFrontierHash : String
  finishedTimeUtcMs : Option Nat
  scopeJson : String
  exclusionsJson : String
  exclusionsHash : String
  totals : ScanTotals
  errorSummary : Json
  startedRecordId : String
  finishedRecordId : Option String

def ScanRunRow.running (r : ScanRunRow) : Bool := decide (r.status = .running)

/-- The columns of the index `scan_runs_one_running_scope`. -/
def ScanRunRow.scope (r : ScanRunRow) : String × String × String :=
  (r.locationId, r.collectionId, r.scopeJson)

def scanRunSchema : Schema String ScanRunRow where
  key := ScanRunRow.scanId
  clash a b := a.running && b.running && decide (a.scope = b.scope)
  clash_comm a b := by simp only [Bool.and_comm a.running, eq_comm (a := a.scope)]

inductive CandidateKind where
  | path | copy
deriving DecidableEq, Repr

def CandidateKind.ofStr? (kind : String) : Option CandidateKind :=
  if kind = "path" then some .path else if kind = "copy" then some .copy else none

structure ScanMissingCandidateRow where
  candidateId : String
  originId : String
  originSeq : Nat
  recordId : String
  itemIndex : Nat
  recordHash : String
  scanId : String
  candidateKind : CandidateKind
  fileRefId : Option String
  copyClaimId : Option String
  locationId : String
  path : StoredPath
  activated : Bool
deriving DecidableEq, Repr

/-- The columns of the unique constraint of `scan_missing_candidates`. -/
def ScanMissingCandidateRow.dot (r : ScanMissingCandidateRow) : String × Nat × Nat :=
  (r.originId, r.originSeq, r.itemIndex)

def scanMissingCandidateSchema : Schema String ScanMissingCandidateRow where
  key := ScanMissingCandidateRow.candidateId
  clash a b := decide (a.dot = b.dot)
  clash_comm a b := by simp only [eq_comm]

structure ScanPendingCompletionRow where
  scanId : String
  batchId : String
  desiredStatus : RunStatus
  finishedTimeUtcMs : Nat
  summary : Json
  finishedRecordId : String

/-! ### The projection -/

/-- The rows of `archive_meta` that are read again. -/
structure ProjectionMeta where
  archiveId : String
  archiveDisplayName : String
  schemaVersion : Nat
  eventTreeVersion : Nat
  genesisHash : String
  acceptedFrontierHash : String
  appliedFrontierHash : String
  itemProjectionVersion : Nat
  projectionGeneration : Nat
  policyInputGeneration : Nat
deriving DecidableEq, Repr

structure Projection where
  archiveMeta : ProjectionMeta
  records : Table recordSchema
  projectionOrigins : Table (Schema.ofKey OriginRow.originId)
  clients : Table clientSchema
  batchRuns : Table (Schema.ofKey BatchRunRow.batchId)
  coordinationTokens : Table (Schema.ofKey fun r : CoordinationTokenRow => (r.scopeKind, r.scopeId))
  factConflicts : Table factConflictSchema
  sites : Table (Schema.ofKey SiteSnapshot.siteId)
  policies : Table (Schema.ofKey PolicySnapshot.policyId)
  collections : Table (Schema.ofKey CollectionSnapshot.collectionId)
  devices : Table deviceSchema
  deviceSiteHistory : Table deviceSiteSchema
  archiveRoots : Table archiveRootSchema
  locations : Table (Schema.ofKey fun r : LocationRow => r.snapshot.locationId)
  deviceMounts : Table (Schema.ofKey fun r : DeviceMountRow => r.mount.mountId)
  riskDomains : Table (Schema.ofKey RiskDomainSnapshot.riskDomainId)
  entityRiskDomains : Table (Schema.ofKey fun r : RiskAssignment => r)
  scanRuns : Table scanRunSchema
  scanMissingCandidates : Table scanMissingCandidateSchema
  scanPendingCompletions : Table (Schema.ofKey ScanPendingCompletionRow.scanId)
  jobs : Table (Schema.ofKey JobRow.jobId)
  operationOutcomes : Table (Schema.ofKey OperationOutcomeRow.operationKey)
  annexImports : Table (Schema.ofKey AnnexImportRow.importId)
  contentObjects : Table (Schema.ofKey ContentObjectRow.objectId)
  sourceIdentities : Table sourceIdentitySchema
  sourceAvailability : Table (Schema.ofKey fun r : SourceAvailabilityRow => (r.identity, r.source))
  fileObjects : Table fileObjectSchema
  fileLocations : Table fileLocationSchema
  copyBindings : Table copyBindingSchema
  checks : List CheckRow

/-- A database with the schema and without rows. -/
def Projection.empty (archiveMeta : ProjectionMeta) : Projection where
  archiveMeta := archiveMeta
  records := .empty
  projectionOrigins := .empty
  clients := .empty
  batchRuns := .empty
  coordinationTokens := .empty
  factConflicts := .empty
  sites := .empty
  policies := .empty
  collections := .empty
  devices := .empty
  deviceSiteHistory := .empty
  archiveRoots := .empty
  locations := .empty
  deviceMounts := .empty
  riskDomains := .empty
  entityRiskDomains := .empty
  scanRuns := .empty
  scanMissingCandidates := .empty
  scanPendingCompletions := .empty
  jobs := .empty
  operationOutcomes := .empty
  annexImports := .empty
  contentObjects := .empty
  sourceIdentities := .empty
  sourceAvailability := .empty
  fileObjects := .empty
  fileLocations := .empty
  copyBindings := .empty
  checks := []

end ArchiveLedger
