import ArchiveLedger.Foundation.Table
import ArchiveLedger.Catalog.Snapshots

/-!
# The authoritative catalog

The tables of `sqlite_catalog.sql`, each with its primary key and unique
indexes, and the `Catalog` they make up.  A row keeps the `CHECK` constraints of
its table as fields: a `FileRow` whose result and time disagree, or a verified
one without a successful check, cannot be built.

Columns that only foreign keys constrain are plain values.  The writers look the
referenced rows up before they write, so a foreign key never decides whether a
statement succeeds; that the references to objects resolve is proved, in `Linked`.
-/

namespace ArchiveLedger

open Relational

/-! ### Observations -/

inductive ObservationResult where
  | metadataPresent
  | metadataUnknown
  | rejectedChecksum (blake3 : Digest)
  | checksum (blake3 : Digest) (sizeBytes : Nat)
  | readError
  | missing
deriving DecidableEq, Repr

structure CatalogObservation where
  collectionId : String
  locationId : String
  path : RegistryPath
  timeUtcMs : Nat
  result : ObservationResult
  acceptChange : Bool
  operationKey : Option String
  jobId : Option String
deriving DecidableEq, Repr

inductive Presence where
  | present
  | missing
  | unknown
deriving DecidableEq, Repr

inductive Integrity where
  | unverified
  | verified
  | damaged
deriving DecidableEq, Repr

inductive CheckResult where
  | ok
  | mismatch
  | missing
  | readError
deriving DecidableEq, Repr

/-- The result an outcome reports: `observed` when nothing was checked. -/
inductive OutcomeResult where
  | observed
  | checked (result : CheckResult)
deriving DecidableEq, Repr

structure ObservationOutcome where
  objectId : String
  result : OutcomeResult
  establishedIdentity : Bool
  acceptedChange : Bool
deriving DecidableEq, Repr

/-! ### Registry tables -/

structure DeviceRow where
  snapshot : DeviceSnapshot
  lastCheckinTimeUtcMs : Option Nat
  lastFingerprintMatchTimeUtcMs : Option Nat
  lastFingerprintStatus : Option String
deriving DecidableEq, Repr

/-- An active device whose identity is confirmed. -/
def DeviceSnapshot.confirmed (v : DeviceSnapshot) : Bool :=
  v.status = "active" && v.identityState = "confirmed"

/-- The partial index `devices_confirmed_fingerprint`. -/
def devicesConfirmedFingerprint (a b : DeviceRow) : Bool :=
  a.snapshot.confirmed && b.snapshot.confirmed &&
    a.snapshot.hardwareFingerprint.isSome && a.snapshot.fingerprintKind.isSome &&
    decide (a.snapshot.hardwareFingerprint = b.snapshot.hardwareFingerprint) &&
    decide (a.snapshot.fingerprintKind = b.snapshot.fingerprintKind)

def deviceSchema : Schema String DeviceRow where
  key r := r.snapshot.deviceId
  clash := devicesConfirmedFingerprint
  clash_comm r s := by
    rw [Bool.eq_iff_iff]
    simp only [devicesConfirmedFingerprint, Bool.and_eq_true, decide_eq_true_eq]
    constructor
    · rintro ⟨⟨⟨⟨⟨h₁, h₂⟩, h₃⟩, h₄⟩, h₅⟩, h₆⟩
      exact ⟨⟨⟨⟨⟨h₂, h₁⟩, h₅ ▸ h₃⟩, h₆ ▸ h₄⟩, h₅.symm⟩, h₆.symm⟩
    · rintro ⟨⟨⟨⟨⟨h₁, h₂⟩, h₃⟩, h₄⟩, h₅⟩, h₆⟩
      exact ⟨⟨⟨⟨⟨h₂, h₁⟩, h₅ ▸ h₃⟩, h₆ ▸ h₄⟩, h₅.symm⟩, h₆.symm⟩

structure DeviceSiteRow where
  deviceId : String
  siteId : String
  arrivedTimeUtcMs : Nat
  departedTimeUtcMs : Option Nat
deriving DecidableEq, Repr

/-- The partial index `device_site_one_open`. -/
def deviceSiteOneOpen (a b : DeviceSiteRow) : Bool :=
  a.departedTimeUtcMs.isNone && b.departedTimeUtcMs.isNone && decide (a.deviceId = b.deviceId)

def deviceSiteSchema : Schema (String × Nat) DeviceSiteRow where
  key r := (r.deviceId, r.arrivedTimeUtcMs)
  clash := deviceSiteOneOpen
  clash_comm r s := by
    simp only [deviceSiteOneOpen, Bool.and_comm r.departedTimeUtcMs.isNone, eq_comm (a := r.deviceId)]

structure ArchiveRootRow where
  snapshot : ArchiveRootSnapshot
  rootPathOnDeviceBytes : Bytes
  lastSeenTimeUtcMs : Option Nat
deriving DecidableEq, Repr

/-- The partial index `archive_roots_active_path`. -/
def archiveRootsActivePath (a b : ArchiveRootRow) : Bool :=
  decide (a.snapshot.status = "active" ∧ b.snapshot.status = "active" ∧
    (a.snapshot.deviceId, a.snapshot.rootPathOnDevice.encoding, a.rootPathOnDeviceBytes)
      = (b.snapshot.deviceId, b.snapshot.rootPathOnDevice.encoding, b.rootPathOnDeviceBytes))

/-- What the partial index `archive_roots_confirmed_fingerprint` stores of a row. -/
def ArchiveRootSnapshot.confirmedFingerprint (v : ArchiveRootSnapshot) : Option (String × String) :=
  if v.status = "active" ∧ v.identityState = "confirmed" then
    match v.fingerprintKind, v.filesystemFingerprint with
    | some kind, some fingerprint => some (kind, fingerprint)
    | _, _ => none
  else none

/-- The partial index `archive_roots_confirmed_fingerprint`. -/
def archiveRootsConfirmedFingerprint (a b : ArchiveRootRow) : Bool :=
  a.snapshot.confirmedFingerprint.isSome &&
    decide (a.snapshot.confirmedFingerprint = b.snapshot.confirmedFingerprint)

def archiveRootSchema : Schema String ArchiveRootRow where
  key r := r.snapshot.archiveRootId
  clash r s := archiveRootsActivePath r s || archiveRootsConfirmedFingerprint r s
  clash_comm r s := by
    rw [Bool.eq_iff_iff]
    simp only [archiveRootsActivePath, archiveRootsConfirmedFingerprint, Bool.or_eq_true,
      Bool.and_eq_true, decide_eq_true_eq]
    constructor
    · rintro (⟨h₁, h₂, h₃⟩ | ⟨h₁, h₂⟩)
      · exact Or.inl ⟨h₂, h₁, h₃.symm⟩
      · exact Or.inr ⟨h₂ ▸ h₁, h₂.symm⟩
    · rintro (⟨h₁, h₂, h₃⟩ | ⟨h₁, h₂⟩)
      · exact Or.inl ⟨h₂, h₁, h₃.symm⟩
      · exact Or.inr ⟨h₂ ▸ h₁, h₂.symm⟩

structure LocationRow where
  snapshot : LocationSnapshot
  relativePathBytes : Option Bytes
deriving DecidableEq, Repr

structure DeviceMountRow where
  mount : DeviceMount
  hostId : String
  observedTimeUtcMs : Nat
deriving DecidableEq, Repr

/-! ### Objects, files and their history -/

/-- The columns of the unique index of `objects`. -/
structure ObjectPath where
  collectionId : String
  relativePathEncoding : String
  relativePathBytes : Bytes
deriving DecidableEq, Repr

structure ObjectRow where
  objectId : String
  path : ObjectPath
  relativePathDisplay : String
  expectedBlake3 : Option Digest
  expectedSizeBytes : Option Nat
deriving DecidableEq, Repr

def objectSchema : Schema String ObjectRow where
  key r := r.objectId
  clash r s := decide (r.path = s.path)
  clash_comm r s := by simp only [eq_comm (a := r.path)]

structure FileRow where
  objectId : String
  locationId : String
  presence : Presence
  integrity : Integrity
  lastCheckTimeUtcMs : Option Nat
  lastCheckResult : Option CheckResult
  observedBlake3 : Option Digest
  lastSuccessTimeUtcMs : Option Nat
  check_timed : lastCheckTimeUtcMs.isNone = lastCheckResult.isNone
  check_verified : integrity = .verified → lastSuccessTimeUtcMs.isSome
deriving DecidableEq, Repr

@[reducible] def fileSchema : Schema (String × String) FileRow :=
  Schema.ofKey fun r => (r.objectId, r.locationId)

inductive HistoryKind where
  | presenceObserved
  | fileChecked
  | expectedChecksumChanged
  | scanMissing
  | fileRemoved
  | jobStarted
  | jobFinished
  | archiveRenamed
  | registry (kind : String)
deriving DecidableEq, Repr

inductive JobStatus where
  | running
  | complete
  | partialWork
  | cancelled
deriving DecidableEq, Repr

/-- What `details_json` records; the snapshot of a registry row is the one its
change carries. -/
inductive HistoryDetails where
  | job (jobId : Option String)
  | removed (previousPresence : Presence) (previousIntegrity : Integrity)
  | jobStarted (jobId kind : String) (params : Json)
  | jobFinished (jobId : String) (status : JobStatus) (summary : Json)
  | renamed (previousName displayName : String)
  | registry (change : RegistryChange) (hostId : String)

structure HistoryRow where
  objectId : Option String
  locationId : Option String
  timeUtcMs : Nat
  kind : HistoryKind
  checkResult : Option CheckResult
  expectedBlake3 : Option Digest
  observedBlake3 : Option Digest
  details : HistoryDetails

/-! ### Jobs -/

structure CatalogJob where
  jobId : String
  kind : String
  params : Json
  status : JobStatus
  startedTimeUtcMs : Nat
  finishedTimeUtcMs : Option Nat
  progress : Json

/-- A row of `catalog_scan_seen` or `catalog_job_items`. -/
structure JobObject where
  jobId : String
  objectId : String
deriving DecidableEq, Repr

@[reducible] def jobObjectSchema : Schema (String × String) JobObject :=
  Schema.ofKey fun r => (r.jobId, r.objectId)

/-- A stored outcome.  `serde_json` writes different requests as different
texts, so the request itself stands for `request_json`. -/
structure WriteOperation where
  operationKey : String
  request : CatalogObservation
  outcome : ObservationOutcome
deriving DecidableEq, Repr

/-! ### The catalog -/

/-- The tables of one catalog.  `history` is in the order of `history_id`, whose
values are the positions from one. -/
structure Catalog where
  archiveId : String
  displayName : String
  revision : Nat
  sites : Table (Schema.ofKey SiteSnapshot.siteId)
  policies : Table (Schema.ofKey PolicySnapshot.policyId)
  collections : Table (Schema.ofKey CollectionSnapshot.collectionId)
  devices : Table deviceSchema
  deviceSiteHistory : Table deviceSiteSchema
  archiveRoots : Table archiveRootSchema
  locations : Table (Schema.ofKey fun r : LocationRow => r.snapshot.locationId)
  deviceMounts : Table (Schema.ofKey fun r : DeviceMountRow => r.mount.mountId)
  riskDomains : Table (Schema.ofKey RiskDomainSnapshot.riskDomainId)
  entityRiskDomains : Table (Schema.ofKey fun r : RiskAssignment => r)
  objects : Table objectSchema
  files : Table fileSchema
  history : List HistoryRow
  catalogJobs : Table (Schema.ofKey CatalogJob.jobId)
  catalogScanSeen : Table jobObjectSchema
  catalogWriteOperations : Table (Schema.ofKey WriteOperation.operationKey)
  catalogJobItems : Table jobObjectSchema

/-- `SqliteCatalog::create`: the schema without rows. -/
def Catalog.create (archiveId displayName : String) : Catalog where
  archiveId := archiveId
  displayName := displayName
  revision := 0
  sites := .empty
  policies := .empty
  collections := .empty
  devices := .empty
  deviceSiteHistory := .empty
  archiveRoots := .empty
  locations := .empty
  deviceMounts := .empty
  riskDomains := .empty
  entityRiskDomains := .empty
  objects := .empty
  files := .empty
  history := []
  catalogJobs := .empty
  catalogScanSeen := .empty
  catalogWriteOperations := .empty
  catalogJobItems := .empty

/-- The object stored under a path. -/
def Catalog.objectAt (c : Catalog) (path : ObjectPath) : Option ObjectRow :=
  c.objects.rows.find? fun r => r.path = path

theorem Catalog.objectAt_eq_some {c : Catalog} {path : ObjectPath} {r : ObjectRow} :
    c.objectAt path = some r ↔ r ∈ c.objects.rows ∧ r.path = path := by
  constructor
  · intro h
    exact ⟨List.mem_of_find?_eq_some h, by simpa using List.find?_some h⟩
  · rintro ⟨hm, hp⟩
    obtain ⟨s, hs⟩ : ∃ s, c.objectAt path = some s := by
      rw [← Option.isSome_iff_exists, Catalog.objectAt, List.find?_isSome]
      exact ⟨r, hm, by simpa using hp⟩
    have hsp : s.path = path := by simpa using List.find?_some hs
    have : s = r := Table.eq_of_clash (List.mem_of_find?_eq_some hs) hm (by
      simp [objectSchema, hsp, hp])
    rw [hs, this]

theorem Catalog.objectAt_eq_none {c : Catalog} {path : ObjectPath} :
    c.objectAt path = none ↔ ∀ r ∈ c.objects.rows, r.path ≠ path := by
  simp [Catalog.objectAt, List.find?_eq_none]

/-- Every statement that changes the catalog for its readers ends with this. -/
def Catalog.bumpRevision (c : Catalog) : Catalog := { c with revision := c.revision + 1 }

end ArchiveLedger
