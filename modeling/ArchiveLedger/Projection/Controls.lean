import ArchiveLedger.Projection.Scans

/-!
# Projecting clients, leases, jobs and imports

The items of a batch that are about the archive and its work, and the coordination
rule: a protected item of an archive with more than one client needs a batch that
carries a lease.
-/

namespace ArchiveLedger

open Relational Outcome Transition

/-- `V2VerificationContext`. -/
structure V2VerificationContext where
  genesis : GenesisBody
  genesisHash : String
  acceptedFrontier : CausalFrontier
  acceptedFrontierHash : String
  frontiers : FrontierMap

namespace Projection

variable (R : ProjectionRuntime)

/-! ### The archive -/

/-- The initial client as its rows are written. -/
def initialClientRow (genesis : GenesisBody) (publicKey : Bytes) (record : VerifiedV2Record)
    (originSeq : Nat) : ClientRow :=
  { clientId := genesis.initialClientId
    displayName := "Initial client"
    publicKey := publicKey
    capabilities := ["additive_observation", "coordination"]
    status := .enrolled
    approvedRecordId := record.record.envelope.recordId
    approvedOriginId := record.originId
    approvedOriginSeq := originSeq
    revokedRecordId := none }

def projectArchiveInitialized (db : Projection) (item : Json) (record : VerifiedV2Record)
    (context : V2VerificationContext) : ProjectionResult Projection := do
  let genesis := context.genesis
  let archiveId ← string item "archive_id"
  let mismatch : ProjectionError := .invalid "archive_initialized item does not match genesis"
  require (archiveId = genesis.archiveId) mismatch
  let displayName ← string item "archive_display_name"
  require (displayName = genesis.archiveDisplayName) mismatch
  let clientId ← string item "client_id"
  require (clientId = genesis.initialClientId) mismatch
  let publicKey ← string item "public_key"
  require (publicKey = genesis.initialPublicKey) mismatch
  let key ← okOr (decodeNoPad genesis.initialPublicKey) (.invalid "genesis public key is invalid")
  let originSeq ← sqlI64 record.originSeq "approval origin sequence"
  .ok { db with clients := db.clients.insertOrIgnore (initialClientRow genesis key record originSeq) }

def projectArchiveUpdated (db : Projection) (item : Json) (context : V2VerificationContext) :
    ProjectionResult Projection := do
  let archiveId ← string item "archive_id"
  require (archiveId = context.genesis.archiveId)
    (.invalid "archive_updated item belongs to another Archive")
  let displayName ← string item "archive_display_name"
  require (Text.trim displayName ≠ "") (.invalid "Archive display name must not be empty")
  .ok { db with archiveMeta := { db.archiveMeta with archiveDisplayName := displayName } }

/-! ### Clients -/

/-- The client is enrolled and not revoked. -/
def isEnrolled (db : Projection) (clientId : String) : Bool :=
  (db.clients.get? clientId).any fun client => client.status = .enrolled

/-- The capabilities of an enrollment. -/
def clientCapabilities (item : Json) : ProjectionResult (List String) := do
  let value ← required item "capabilities"
  let values ← okOr value.asArray (.invalid "client capabilities are not an array")
  let invalid : ProjectionError := .invalid "client capabilities must contain strings"
  require (values ≠ []) invalid
  okOr (values.mapM Json.asStr) invalid

def projectClientEnrolled (db : Projection) (item : Json) (record : VerifiedV2Record) :
    ProjectionResult Projection := do
  require (db.isEnrolled record.originId)
    (.invalid ("client enrollment was not approved by an enrolled origin " ++ record.originId))
  let client ← string item "client_id"
  let displayName ← string item "display_name"
  require (Text.trim displayName ≠ "") (.invalid "client display name is empty")
  let encoded ← string item "public_key"
  let publicKey ← okOr (decodeNoPad encoded) (.invalid "client public key is not base64")
  require (publicKey.length = 32) (.invalid "client public key has the wrong length")
  require (R.validKey publicKey) (.invalid "client public key is invalid")
  require (clientId R.toStoreRuntime publicKey = client)
    (.invalid "client ID does not match its public key")
  let capabilities ← clientCapabilities item
  let originSeq ← sqlI64 record.originSeq "client approval sequence"
  let row : ClientRow :=
    { clientId := client
      displayName := displayName
      publicKey := publicKey
      capabilities := capabilities
      status := .enrolled
      approvedRecordId := record.record.envelope.recordId
      approvedOriginId := record.originId
      approvedOriginSeq := originSeq
      revokedRecordId := none }
  let clients ← statement (db.clients.insert? row)
  .ok { db with clients := clients }

def projectClientRevoked (db : Projection) (item : Json) (record : VerifiedV2Record) :
    ProjectionResult Projection := do
  let client ← string item "client_id"
  require (client ≠ record.originId) (.invalid "a client cannot revoke itself")
  require (db.isEnrolled client ∧ db.isEnrolled record.originId)
    (.invalid ("client " ++ client ++ " is not currently enrolled or the revoker is not trusted"))
  let clients := db.clients.modify (fun c => c.clientId = client)
    (fun c => { c with status := .revoked, revokedRecordId := some record.record.envelope.recordId })
    (fun _ => rfl) (fun _ _ h => h)
  .ok { db with clients := clients }

/-! ### Coordination -/

/-- The coordination a batch context carries. -/
def coordinationIn (context : Json) : Option Json := context.get "coordination"

def projectCoordinationContext (db : Projection) (context : Json) (record : VerifiedV2Record) :
    ProjectionResult Projection :=
  match coordinationIn context with
  | none => .ok db
  | some value => do
      let coordination ← object value "coordination context"
      let scopeKind ← string coordination "scope_kind"
      let scopeId ← string coordination "scope_id"
      let tokenId ← string coordination "token_id"
      let holder ← string coordination "holder_client_id"
      let base ← string coordination "base_frontier_hash"
      let notBefore ← number coordination "not_before_utc_ms"
      let notAfter ← number coordination "not_after_utc_ms"
      let time := record.record.envelope.timeUtcMs
      require (scopeKind = "archive" ∧ holder = record.originId ∧
          base = record.causalFrontierHash ∧ notBefore ≤ notAfter ∧ notBefore ≤ time ∧
          time ≤ notAfter ∧ (coordination.get "lease_proof").isSome)
        (.invalid "batch coordination context is inconsistent")
      let notBefore ← sqlI64 notBefore "coordination not-before time"
      let notAfter ← sqlI64 notAfter "coordination not-after time"
      named db.clients holder
      let row : CoordinationTokenRow :=
        ⟨scopeKind, scopeId, tokenId, holder, base, notBefore, notAfter,
          record.record.envelope.recordId⟩
      let tokens := db.coordinationTokens.upsert row fun old =>
        { row with scopeKind := old.scopeKind, scopeId := old.scopeId }
      .ok { db with coordinationTokens := tokens }

def isRegistryItem (kind : String) : Bool :=
  kind ∈ ["site_registered", "site_updated", "site_retired", "policy_registered",
    "policy_updated", "policy_retired", "collection_registered", "collection_updated",
    "collection_retired", "device_registered", "device_updated", "device_moved",
    "device_retired", "archive_root_registered", "archive_root_updated",
    "archive_root_retired", "location_registered", "location_updated", "location_retired",
    "risk_domain_registered", "risk_domain_updated", "risk_domain_retired", "risk_assigned",
    "risk_unassigned", "device_checked_in", "device_mount_observed"]

/-- The item completes a scan of the mode `complete`. -/
def completesScan (db : Projection) (item : Json) (kind : String) : ProjectionResult Bool :=
  if kind = "scan_completed" then do
    let scanId ← string item "scan_id"
    let scan ← statement (db.scanRuns.get? scanId)
    .ok (scan.mode = .complete)
  else .ok false

def itemRequiresCoordination (db : Projection) (item : Json) (kind : String) :
    ProjectionResult Bool := do
  let completeScan ← db.completesScan item kind
  let isProtected := kind = "archive_updated" ∨ kind = "client_revoked" ∨ completeScan ∨
    (isRegistryItem kind ∧ kind ≠ "device_checked_in" ∧ kind ≠ "device_mount_observed")
  .ok ((isProtected ∨ kind = "client_enrolled") ∧ 1 < db.clients.rows.length)

def requireBatchCoordination (db : Projection) (batchId : String) : ProjectionResult Unit := do
  let batch ← statement (db.batchRuns.get? batchId)
  require (coordinationIn batch.context).isSome
    (.invalid "this multi-client coordination change lacks a scoped remote lease")

/-- A protected item stands in a batch with a lease. -/
def checkCoordination (db : Projection) (item : Json) (kind batchId : String) :
    ProjectionResult Unit := do
  let needed ← db.itemRequiresCoordination item kind
  if needed then db.requireBatchCoordination batchId else .ok ()

/-! ### Jobs and imports -/

def projectJobStarted (db : Projection) (item : Json) (record : VerifiedV2Record) :
    ProjectionResult Projection := do
  let jobId ← string item "job_id"
  let jobType ← string item "job_type"
  let inputVersion ← string item "input_version"
  let params ← required item "params"
  let started ← sqlI64 record.record.envelope.timeUtcMs "job start time"
  let row : JobRow :=
    { jobId := jobId
      jobType := jobType
      status := .running
      createdTimeUtcMs := started
      startedTimeUtcMs := some started
      finishedTimeUtcMs := none
      actorId := optionalString item "actor_id"
      hostId := optionalString item "host_id"
      params := params
      progress := none
      inputVersion := inputVersion }
  let jobs := db.jobs.upsert row fun old => { old with
    status := if old.status = .complete then old.status else .running
    startedTimeUtcMs := old.startedTimeUtcMs.or (some started) }
  let job ← statement (jobs.get? jobId)
  require (job.jobType = jobType ∧ job.inputVersion = inputVersion)
    (.invalid ("job " ++ jobId ++ " was reused with different immutable inputs"))
  .ok { db with jobs := jobs }

def projectJobFinished (db : Projection) (item : Json) (record : VerifiedV2Record) :
    ProjectionResult Projection := do
  let jobId ← string item "job_id"
  let status ← string item "status"
  let terminal ← okOr (RunStatus.terminal? status)
    (.invalid ("unsupported terminal job status " ++ quoted status))
  let finished ← sqlI64 record.record.envelope.timeUtcMs "job finish time"
  let summary ← required item "summary"
  let jobType ← string item "job_type"
  let inputVersion ← string item "input_version"
  require ((db.jobs.get? jobId).any fun j => j.jobType = jobType && j.inputVersion = inputVersion)
    (.invalid ("job_finished has no matching job_started for " ++ jobId))
  let jobs := db.jobs.modify (fun j => j.jobId = jobId)
    fun j => { j with status := terminal, finishedTimeUtcMs := some finished, progress := some summary }
  .ok { db with jobs := jobs }

def projectOperationOutcome (db : Projection) (item : Json) (record : VerifiedV2Record)
    (itemIndex : Nat) : ProjectionResult Projection :=
  match optionalString item "operation_key" with
  | none => .ok db
  | some key => do
      let index ← sqlI64 itemIndex "operation item index"
      let outcomes ← statement
        (db.operationOutcomes.insert? ⟨key, record.record.envelope.recordId, index⟩)
      .ok { db with operationOutcomes := outcomes }

def projectAnnexImportStarted (db : Projection) (item : Json) (record : VerifiedV2Record) :
    ProjectionResult Projection := do
  let value ← required item "repo_path"
  let repo ← mapError (fun e => .invalid ("annex repository path is invalid: " ++ e))
    (R.readRegistryPath value)
  let bytes ← mapError (fun e => .invalid e.display) (registryPathBytes repo)
  let importId ← string item "import_id"
  let jobId ← string item "job_id"
  let collectionId ← string item "collection_id"
  let worktreeLocationId ← string item "worktree_location_id"
  let casLocationId ← string item "cas_location_id"
  let deviceId ← string item "device_id"
  let archiveRootId ← string item "archive_root_id"
  let annexUuid ← string item "annex_uuid"
  let gitHeadCommit ← string item "git_head_commit"
  named db.collections collectionId
  named db.locations worktreeLocationId
  named db.locations casLocationId
  named db.devices deviceId
  named db.archiveRoots archiveRootId
  let row : AnnexImportRow :=
    { importId := importId
      jobId := jobId
      repoPath := ⟨repo.encoding, bytes⟩
      repoPathDisplay := repo.display
      collectionId := collectionId
      worktreeLocationId := worktreeLocationId
      casLocationId := casLocationId
      deviceId := deviceId
      archiveRootId := archiveRootId
      annexUuid := annexUuid
      gitHeadCommit := gitHeadCommit
      status := .running
      summary := .obj []
      startedRecordId := record.record.envelope.recordId
      completedRecordId := none }
  let imports ← statement (db.annexImports.insert? row)
  .ok { db with annexImports := imports }

def projectAnnexImportCompleted (db : Projection) (item : Json) (record : VerifiedV2Record) :
    ProjectionResult Projection := do
  let status ← string item "status"
  let terminal ← okOr ((RunStatus.terminal? status).filter (· ≠ .cancelled))
    (.invalid "annex import completion status is invalid")
  let importId ← string item "import_id"
  let annexUuid ← string item "annex_uuid"
  let gitHeadCommit ← string item "git_head_commit"
  let summary ← required item "summary"
  require ((db.annexImports.get? importId).any fun i => i.status = .running)
    (.invalid "annex import completion does not match one running import")
  let imports := db.annexImports.modify (fun i => i.importId = importId) fun i => { i with
    status := terminal
    annexUuid := annexUuid
    gitHeadCommit := gitHeadCommit
    summary := summary
    completedRecordId := some record.record.envelope.recordId }
  .ok { db with annexImports := imports }

end Projection

end ArchiveLedger
