import ArchiveLedger.Annex.Entries
import ArchiveLedger.Projection.Occupants
import ArchiveLedger.Projection.Views

/-!
# Adding files to a Collection

The walk of `add_files` of `v2_inventory.rs`, for the regular files without an annex entry: whether a
file is skipped, read, counted or reported, and the items it writes to the spool.  What the walk does
with annex entries and symlinks, and the items at both ends of the spool, are any items
(`AddStep.other`).  Between its runs a job may wait while the projection moves on.
-/

namespace ArchiveLedger.V2Inventory

open Relational Outcome Transition Discovery Annex

/-! ### The configuration -/

structure V2InventoryConfig where
  locationPrefix : Option RelativePath
  logicalPrefix : Option RelativePath
  collectionId : String
  locationId : String
  deviceFingerprintStatus : String
  jobId : String
  scanId : String
  scanMode : ScanMode
  batchEntries : Nat
  acceptChanges : List RelativePath

inductive V2InventoryError where
  | invalid (message : String)
deriving DecidableEq, Repr

def validateJobId (jobId : String) : Except V2InventoryError Unit :=
  require (jobId ≠ "" ∧ jobId.toList.all fun c => c.isAlphanum || c = '_' || c = '-')
    (.invalid "job ID must contain only ASCII letters, digits, underscores, and hyphens")

def validateConfig (config : V2InventoryConfig) : Except V2InventoryError Unit := do
  require (¬ (config.acceptChanges ≠ [] ∧ config.scanMode ≠ .add))
    (.invalid "accept_changes is only valid for collection add")
  require (config.batchEntries ≠ 0) (.invalid "batch_entries must be positive")
  require (¬ (config.collectionId = "" ∨ config.locationId = "" ∨ config.scanId = "" ∨ config.jobId = ""))
    (.invalid "Collection and Location IDs are required")
  validateJobId config.jobId
  require (¬ (config.scanMode = .complete ∧ (config.locationPrefix.isSome ∨ config.logicalPrefix.isSome)))
    (.invalid "a complete scan must cover the whole Location")
  require (config.deviceFingerprintStatus = "match" ∨ config.deviceFingerprintStatus = "unavailable")
    (.invalid "device fingerprint must match or be explicitly unavailable")

def validateScope (db : Projection) (config : V2InventoryConfig) : Except V2InventoryError Unit :=
  require ((db.collections.get? config.collectionId).any (fun c => c.status = "active") ∧
      (db.locations.get? config.locationId).any fun l =>
        l.snapshot.status = "active" && l.snapshot.kind = "filesystem")
    (.invalid "inventory requires an active Collection and filesystem Location")

/-! ### The two paths of a file -/

def prefixedPath (above : Option RelativePath) (relative : RelativePath) : RelativePath :=
  match above with
  | none => relative
  | some above => above ++ relative

def stored (path : RelativePath) : StoredPath :=
  let encoded := encodeRelativePath path
  ⟨encoded.encoding.asStr, encoded.bytes⟩

namespace V2InventoryConfig

variable (config : V2InventoryConfig)

def logicalPath (relative : RelativePath) : StoredPath := stored (prefixedPath config.logicalPrefix relative)

/-- `ordinary_copy_path`. -/
def copyPath (relative : RelativePath) : StoredPath := stored (prefixedPath config.locationPrefix relative)

end V2InventoryConfig

/-! ### What is known of a file -/

/-- The rows that `COPY_UNCHANGED_SQL` joins. -/
def unchangedBy (db : Projection) (collectionId locationId : String) (path : StoredPath)
    (size modified : Nat) (f : FileObjectRow) (p : FileLocationRow) (c : CopyBindingRow) : Bool :=
  p.fileId = f.canonicalId && f.content.isSome && c.content = f.content && c.state = .present &&
    c.locationId = p.locationId && (db.check? c.latestIntegrity).any (fun v => v.integrity = .verified) &&
    f.at = (collectionId, path) && f.active && p.locationId = locationId && p.presence &&
    p.observedSize = some size && p.modifiedTime = some modified && p.content = f.content &&
    (db.fileOf c.owner).any fun physical => c.locator.getD physical.path = f.path ||
      p.representation = "annex_locked_symlink" && c.external.isSome && c.external = p.external

def copyUnchanged (db : Projection) (collectionId locationId : String) (path : StoredPath)
    (sizeBytes : Nat) (modifiedTimeUtcMs : Option Nat) : Bool :=
  match sqlInteger sizeBytes, modifiedTimeUtcMs.bind sqlInteger with
  | some size, some modified =>
      db.fileObjects.rows.any fun f => db.fileLocations.rows.any fun p => db.copyBindings.rows.any fun c =>
        unchangedBy db collectionId locationId path size modified f p c
  | _, _ => false

/-- Whether `known_annex_entry` finds an entry, in a Location with a complete import. -/
def hasAnnexEntry (db : Projection) (config : V2InventoryConfig) (logical : StoredPath) : Bool :=
  db.annexImports.rows.any (fun i => i.collectionId = config.collectionId &&
      i.worktreeLocationId = config.locationId && i.status = .complete) &&
    db.fileObjects.rows.any fun f => f.at = (config.collectionId, logical) && f.active &&
      (f.external.bind db.sourceIdentities.get?).isSome

/-- The File of a path, an active one first. -/
def knownFile (db : Projection) (collectionId : String) (logical : StoredPath) : Option FileObjectRow :=
  (db.fileObjects.rows.find? fun f => f.at = (collectionId, logical) && f.active).or
    (db.fileObjects.rows.find? fun f => f.at = (collectionId, logical))

/-! ### What is read -/

structure HashedContent where
  blake3Hex : String
  sizeBytes : Nat
  durationMs : Nat

inductive HashOutcome where
  | stable (hashed : HashedContent)
  | readError
  | changed

/-- A regular file of the walk: its metadata, what `validate_selected_path` says of it before and after
it is read, and what `hash_file_stable` gives. -/
structure DiscoveredFile where
  sizeBytes : Nat
  modifiedTimeUtcMs : Option Nat
  selected : Except V2InventoryError Unit
  outcome : HashOutcome
  selectedAfter : Except V2InventoryError Unit

/-- `Path::extension` as text: what follows the last dot of the name, unless the name begins there. -/
def extensionHint (relative : RelativePath) : Option String :=
  match (relative.getLast?.getD []).reverse.span (· ≠ 46) with
  | (_, []) => none
  | (_, [_]) => none
  | (extension, _) => String.fromUTF8? ⟨extension.reverse.toArray⟩

/-! ### Items -/

/-- `json!` of a path. -/
def registryPathJson (path : RelativePath) : Json :=
  let encoded := encodeRelativePath path
  match encoded.encoding with
  | .utf8 => .obj [("encoding", .str "utf8"), ("text", .str encoded.display), ("base64", .null),
      ("display", .str encoded.display)]
  | encoding => .obj [("encoding", .str encoding.asStr), ("text", .null),
      ("base64", .str (String.ofList (Base64.encode Base64.standard encoded.bytes))),
      ("display", .str encoded.display)]

def optionalJson {α : Type} (write : α → Json) : Option α → Json
  | some value => write value
  | none => .null

variable (D : Digests)

def fileId (collectionId : String) (logical : StoredPath) : String :=
  stableId D "file" [utf8 collectionId, utf8 logical.encoding, logical.bytes]

def copyId (locationId : String) (physical : StoredPath) (objectId : String) : String :=
  stableId D "copy" [utf8 locationId, utf8 physical.encoding, physical.bytes, utf8 objectId]

def jobType (config : V2InventoryConfig) : String :=
  if config.scanMode = .add then "inventory_add" else "location_scan"

/-- The item of an ordinary file whose content is recorded. -/
def contentObservedItem (config : V2InventoryConfig) (relative : RelativePath) (file : DiscoveredFile)
    (hashed : HashedContent) (fileRefId : String) (observedTime : Nat) : Json :=
  let objectId := "blake3:" ++ hashed.blake3Hex
  let claim := copyId D config.locationId (config.copyPath relative) objectId
  .obj [("kind", .str "content_observed"), ("accepted_change", .bool (config.acceptChanges ≠ [])),
    ("collection_id", .str config.collectionId), ("location_id", .str config.locationId),
    ("logical_path", registryPathJson (prefixedPath config.logicalPrefix relative)),
    ("copy_path", registryPathJson (prefixedPath config.locationPrefix relative)),
    ("file_ref_id", .str fileRefId), ("copy_claim_id", .str claim), ("object_id", .str objectId),
    ("blake3_hex", .str hashed.blake3Hex), ("sha256_hex", .null), ("sha512_hex", .null),
    ("size_bytes", .num hashed.sizeBytes.repr),
    ("modified_time_utc_ms", optionalJson (fun n : Nat => .num n.repr) file.modifiedTimeUtcMs),
    ("duration_ms", .num hashed.durationMs.repr), ("observed_time_utc_ms", .num observedTime.repr),
    ("device_fingerprint_status", .str config.deviceFingerprintStatus),
    ("representation", .str "ordinary_file"), ("external_identity_id", .null),
    ("extension_hint", optionalJson .str (extensionHint relative)), ("job_id", .str config.jobId),
    ("scan_id", .str config.scanId), ("job_type", .str (jobType config)), ("item_type", .str "copy_claim"),
    ("item_key", .str claim), ("outcome_kind", .str "content_observed"),
    ("operation_key", .str (stableId D "op" [utf8 config.jobId, utf8 config.scanId, utf8 claim,
      utf8 "content_observed", utf8 objectId]))]

/-- `expected_object.strip_prefix("blake3:")`. -/
def expectedHex (expected : String) : Option String :=
  if "blake3:".toList.isPrefixOf expected.toList then some (String.ofList (expected.toList.drop 7)) else none

/-- The item of an ordinary file whose content is not that of its File. -/
def ordinaryVerificationFailureItem (config : V2InventoryConfig) (fileRefId expected : String)
    (relative : RelativePath) (hashed : HashedContent) (observedTime : Nat) : Json :=
  let claim := copyId D config.locationId (config.copyPath relative) expected
  .obj [("kind", .str "copy_verification_failed"), ("collection_id", .str config.collectionId),
    ("file_ref_id", .str fileRefId), ("copy_claim_id", .str claim), ("object_id", .str expected),
    ("location_id", .str config.locationId),
    ("logical_path", registryPathJson (prefixedPath config.logicalPrefix relative)),
    ("copy_path", registryPathJson (prefixedPath config.locationPrefix relative)),
    ("result", .str "hash_mismatch"), ("expected_hash_algo", .str "blake3"),
    ("expected_hash_hex", optionalJson .str (expectedHex expected)),
    ("observed_hash_hex", .str hashed.blake3Hex), ("size_bytes", .num hashed.sizeBytes.repr),
    ("duration_ms", .num hashed.durationMs.repr), ("verified_time_utc_ms", .num observedTime.repr),
    ("device_fingerprint_status", .str config.deviceFingerprintStatus),
    ("error_detail", .str "content differs from catalog"), ("job_id", .str config.jobId),
    ("scan_id", .str config.scanId), ("job_type", .str (jobType config)), ("item_type", .str "copy_claim"),
    ("item_key", .str claim), ("outcome_kind", .str "hash_mismatch"),
    ("operation_key", .str (stableId D "op" [utf8 config.jobId, utf8 config.scanId, utf8 claim,
      utf8 "hash_mismatch", utf8 hashed.blake3Hex]))]

/-! ### One file -/

/-- The counters of a summary that the files of a walk move. -/
structure V2InventorySummary where
  filesObserved : Nat
  bytesObserved : Nat
  newPaths : Nat
  changedPaths : Nat
  confirmedGood : Nat
  unchangedFiles : Nat
  integrityMismatches : Nat
  integrityFindings : List RelativePath
  readErrors : Nat
  concurrentChanges : Nat

/-- What a job keeps between its runs. -/
structure InventoryJob where
  seen : List StoredPath
  spool : List Json
  summary : V2InventorySummary

def increment (n : Nat) : Nat := saturatingAdd n 1

namespace V2InventorySummary

variable (s : V2InventorySummary)

def observe (bytes : Nat) : V2InventorySummary :=
  { s with
    filesObserved := increment s.filesObserved
    bytesObserved := saturatingAdd s.bytesObserved bytes }

def unchanged : V2InventorySummary :=
  { s with
    filesObserved := increment s.filesObserved
    unchangedFiles := increment s.unchangedFiles }

def mismatch (path : RelativePath) : V2InventorySummary :=
  { s with
    integrityMismatches := increment s.integrityMismatches
    integrityFindings :=
      if s.integrityFindings.length < 20 then s.integrityFindings ++ [path] else s.integrityFindings }

def compare (existing : Option String) (objectId : String) : V2InventorySummary :=
  match existing with
  | none => { s with newPaths := increment s.newPaths }
  | some existing =>
      if existing ≠ objectId then { s with changedPaths := increment s.changedPaths }
      else { s with confirmedGood := increment s.confirmedGood }

end V2InventorySummary

def unresolvedIdentity (logical : RelativePath) : V2InventoryError :=
  .invalid ("cataloged path " ++ (encodeRelativePath logical).display ++
    " has unresolved identity; ordinary inventory cannot replace it")

/-- What is recorded of a file whose content was read. -/
def recordContent (db : Projection) (config : V2InventoryConfig) (job : InventoryJob)
    (relative : RelativePath) (file : DiscoveredFile) (hashed : HashedContent) (observedTime : Nat) :
    Except V2InventoryError InventoryJob := do
  let logical := prefixedPath config.logicalPrefix relative
  let objectId := "blake3:" ++ hashed.blake3Hex
  let existing := knownFile db config.collectionId (stored logical)
  require (existing.all fun f => f.identityState = .resolved && f.content.isSome) (unresolvedIdentity logical)
  match existing.bind fun f => f.content.map fun expected => (f.canonicalId, expected) with
  | some (fileRefId, expected) =>
      if expected ≠ objectId ∧ config.acceptChanges = [] then
        .ok { job with
          spool := job.spool ++ [ordinaryVerificationFailureItem D config fileRefId expected relative hashed observedTime]
          summary := (job.summary.observe hashed.sizeBytes).mismatch logical }
      else
        .ok { job with
          spool := job.spool ++
            [contentObservedItem D config relative file hashed fileRefId observedTime]
          summary := (job.summary.compare (some expected) objectId).observe hashed.sizeBytes }
  | none =>
      .ok { job with
        spool := job.spool ++ [contentObservedItem D config relative file hashed
          (fileId D config.collectionId (stored logical)) observedTime]
        summary := (job.summary.compare none objectId).observe hashed.sizeBytes }

/-- A check of a path that is made when changes are accepted. -/
def whenAccepting (config : V2InventoryConfig) (check : Except V2InventoryError Unit) :
    Except V2InventoryError Unit :=
  if config.acceptChanges ≠ [] then check else .ok ()

/-- The branch of the walk for a regular file without an annex entry. -/
def addFile (db : Projection) (config : V2InventoryConfig) (job : InventoryJob) (relative : RelativePath)
    (file : DiscoveredFile) (observedTime : Nat) : Except V2InventoryError InventoryJob :=
  let logical := config.logicalPath relative
  if logical ∈ job.seen then .ok job
  else do
    let job := { job with seen := job.seen ++ [logical] }
    whenAccepting config file.selected
    if config.acceptChanges = [] ∧ copyUnchanged db config.collectionId config.locationId
        (config.copyPath relative) file.sizeBytes file.modifiedTimeUtcMs = true then
      .ok { job with summary := job.summary.unchanged }
    else match file.outcome with
    | .readError => .ok { job with summary := { job.summary with readErrors := increment job.summary.readErrors } }
    | .changed => .ok { job with
        summary := { job.summary with concurrentChanges := increment job.summary.concurrentChanges } }
    | .stable hashed => do
        whenAccepting config file.selectedAfter
        recordContent D db config job relative file hashed observedTime

/-! ### A job -/

def InventoryJob.new : InventoryJob := ⟨[], [], ⟨0, 0, 0, 0, 0, 0, 0, [], 0, 0⟩⟩

/-- A job and the projection it reads, with the items the projection was made from. -/
structure AddState where
  projection : ProjectionRun
  job : InventoryJob

inductive AddAct where
  | file (relative : RelativePath) (file : DiscoveredFile) (observedTime : Nat)
  | other (paths : List StoredPath)
  | applied

variable (R : ProjectionRuntime)

/-- The steps of a job over all its runs: a regular file without an annex entry; what the walk meets besides
them, and the items at both ends of the spool; and records that the projection applies between two runs. -/
inductive AddStep (config : V2InventoryConfig) : AddState → AddAct → AddState → Prop where
  | file {s : AddState} {relative : RelativePath} {file : DiscoveredFile} {observedTime : Nat}
      {job : InventoryJob} (hannex : hasAnnexEntry s.projection.db config (config.logicalPath relative) = false)
      (h : addFile D s.projection.db config s.job relative file observedTime = .ok job) :
      AddStep config s (.file relative file observedTime) ⟨s.projection, job⟩
  | other {s : AddState} {paths : List StoredPath} (items : List Json) {summary : V2InventorySummary}
      (hread : s.job.summary.readErrors ≤ summary.readErrors)
      (hchanged : s.job.summary.concurrentChanges ≤ summary.concurrentChanges) :
      AddStep config s (.other paths) ⟨s.projection, ⟨s.job.seen ++ paths, s.job.spool ++ items, summary⟩⟩
  | applied {s : AddState} {context : V2VerificationContext} {p : List (ProjectionAct × ProjectionRun)}
      (hp : ProjectionPath R context s.projection p) : AddStep config s .applied ⟨final s.projection p, s.job⟩

/-- The steps of a job from one state to another. -/
def AddPath (config : V2InventoryConfig) : AddState → List (AddAct × AddState) → Prop :=
  Path (AddStep D R config)

/-- The job ends without read errors and concurrent changes, and the projection applies every item of its
spool, completed by the defaults of its batch. -/
structure Completed (s : AddState) (t : ProjectionRun) : Prop where
  readErrors : s.job.summary.readErrors = 0
  concurrentChanges : s.job.summary.concurrentChanges = 0
  applied : ∃ context p, ProjectionPath R context s.projection p ∧ final s.projection p = t
  spool : ∀ item ∈ s.job.spool, ∃ o ∈ t.history, ∀ key value, item.get key = some value → o.item.get key = some value

end ArchiveLedger.V2Inventory
