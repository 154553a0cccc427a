import ArchiveLedger.Foundation.Text
import ArchiveLedger.Foundation.Transition
import ArchiveLedger.Catalog.Schema

/-!
# Registry changes

`validateChangeOn` (`registry.rs`) checks a change against the rows as they are,
`apply` (`sqlite_registry.rs`) writes it, and `recordBatch` does both for every
change of a batch inside one transaction, with one history row a change.

The validators of the entities share `validateLifecycle`; a device, a policy, an
archive root and a location have checks of their own after it.  An `apply` can
still fail after a successful validation, on a unique index or a `CHECK` that
the validation does not repeat.
-/

namespace ArchiveLedger

open Relational

/-! ### Lookups -/

/-- The tables `entity_exists` reads. -/
inductive RegistryTable where
  | sites
  | policies
  | collections
  | devices
  | archiveRoots
  | locations
  | riskDomains
deriving DecidableEq, Repr

def RegistryTable.name : RegistryTable → String
  | .sites => "sites"
  | .policies => "policies"
  | .collections => "collections"
  | .devices => "devices"
  | .archiveRoots => "archive_roots"
  | .locations => "locations"
  | .riskDomains => "risk_domains"

def entityExists (c : Catalog) (table : RegistryTable) (id : String) : Bool :=
  match table with
  | .sites => (c.sites.get? id).isSome
  | .policies => (c.policies.get? id).isSome
  | .collections => (c.collections.get? id).isSome
  | .devices => (c.devices.get? id).isSome
  | .archiveRoots => (c.archiveRoots.get? id).isSome
  | .locations => (c.locations.get? id).isSome
  | .riskDomains => (c.riskDomains.get? id).isSome

abbrev RegistryResult (α : Type) := Except RegistryError α

def requireNonempty (field value : String) : RegistryResult Unit :=
  if Text.trim value = "" then .error (.invalid (field ++ " is required")) else .ok ()

def requireEntity (c : Catalog) (table : RegistryTable) (id : String) : RegistryResult Unit :=
  if entityExists c table id then .ok () else .error (.notFound table.name id)

def requireOptionalEntity (c : Catalog) (table : RegistryTable) (id : Option String) :
    RegistryResult Unit :=
  match id with
  | some id => requireEntity c table id
  | none => .ok ()

/-- `if condition { return Err(Invalid(message)) }`. -/
def refuseIf (condition : Bool) (message : String) : RegistryResult Unit :=
  if condition then .error (.invalid message) else .ok ()

/-! ### Validation -/

def validateLifecycle (c : Catalog) (table : RegistryTable) (kind id displayName status : String)
    (action : RegistryAction) : RegistryResult Unit := do
  requireNonempty "ID" id
  requireNonempty "display_name" displayName
  let expectedStatus := if action = .retire then "retired" else "active"
  refuseIf (status ≠ expectedStatus) (kind ++ " status must be " ++ expectedStatus ++ " for this action")
  let present := entityExists c table id
  if action = .register ∧ present then .error (.alreadyExists kind id)
  else if action ≠ .register ∧ ¬ present then .error (.notFound kind id)
  else .ok ()

/-- The milliseconds of a day. -/
def dayMs : Nat := 86400000

/-- `PolicyRequirements::from_json` of the text of `requirements`. -/
def PolicyRequirements.fromJson (policyId : String) (requirements : PolicyRequirements) :
    RegistryResult Unit := do
  let refusal := "policy " ++ policyId ++ " has invalid requirements: "
  refuseIf ([requirements.minQualifyingCopies, requirements.minDevices, requirements.minSites,
      requirements.maxVerificationAgeDays, requirements.maxObservationAgeDays,
      requirements.maxDeviceCheckinAgeDays].contains 0)
    (refusal ++ "counts and age limits must be positive integers")
  refuseIf (requirements.maxVerificationAgeDays * dayMs ≥ 2 ^ 64)
    (refusal ++ "max_verification_age_days is too large")
  refuseIf (requirements.maxObservationAgeDays * dayMs ≥ 2 ^ 64)
    (refusal ++ "max_observation_age_days is too large")
  refuseIf (requirements.maxDeviceCheckinAgeDays * dayMs ≥ 2 ^ 64)
    (refusal ++ "max_device_checkin_age_days is too large")

def validateSite (c : Catalog) (action : RegistryAction) (value : SiteSnapshot) :
    RegistryResult Unit := do
  validateLifecycle c .sites "site" value.siteId value.displayName value.status action
  requireNonempty "site_kind" value.siteKind

def validatePolicy (c : Catalog) (action : RegistryAction) (value : PolicySnapshot) :
    RegistryResult Unit := do
  validateLifecycle c .policies "policy" value.policyId value.displayName value.status action
  PolicyRequirements.fromJson value.policyId value.requirements
  refuseIf (value.policyVersion = 0) "policy_version must be positive"
  if action = .update then
    match c.policies.get? value.policyId with
    | some current =>
        refuseIf (value.policyVersion ≤ current.policyVersion)
          "policy updates must increase policy_version"
    | none => .error (.sqlite "Query returned no rows")

def validateCollection (c : Catalog) (action : RegistryAction) (value : CollectionSnapshot) :
    RegistryResult Unit := do
  validateLifecycle c .collections "collection" value.collectionId value.displayName value.status
    action
  requireOptionalEntity c .sites value.homeSiteId
  requireOptionalEntity c .policies value.policyId

def identityStates : List String := ["confirmed", "unavailable", "conflict"]

def availabilities : List String := ["online", "offline", "intermittent"]

/-- `.as_deref().map(str::trim).filter(|value| !value.is_empty())`. -/
def trimmedEvidence (value : Option String) : Option String :=
  (value.map Text.trim).filter fun v => v ≠ ""

def isArchiveRootFingerprintKind (kind : String) : Bool :=
  ["filesystem_uuid", "filesystem_label", "partition_uuid", "partition_label", "mount_path",
    "path"].contains (Text.toAsciiLowercase kind)

/-- The text of `{:?}` for a name without characters that `Debug` escapes. -/
def debugText (s : String) : String := "\"" ++ s ++ "\""

/-- The row the duplicate query finds: an active confirmed device other than
`deviceId` whose stored kind and fingerprint are the given ones. -/
def duplicateDevice (c : Catalog) (deviceId : String) (kind fingerprint : Option String) :
    Option DeviceRow :=
  c.devices.rows.find? fun r =>
    r.snapshot.deviceId ≠ deviceId && r.snapshot.confirmed &&
      kind.isSome && r.snapshot.fingerprintKind = kind &&
      fingerprint.isSome && r.snapshot.hardwareFingerprint = fingerprint

/-- The evidence checks of a device, before its site is looked at. -/
def validateDeviceIdentity (c : Catalog) (value : DeviceSnapshot) : RegistryResult Unit := do
  refuseIf (!identityStates.contains value.identityState) "invalid device identity_state"
  refuseIf (!availabilities.contains value.expectedAvailability) "invalid expected_availability"
  let fingerprint := trimmedEvidence value.hardwareFingerprint
  let fingerprintKind := trimmedEvidence value.fingerprintKind
  refuseIf (fingerprint.isSome ≠ fingerprintKind.isSome)
    "device fingerprint kind and value must be supplied together"
  refuseIf ((value.identityState = "confirmed" || value.identityState = "conflict") &&
      (fingerprint.isNone || fingerprintKind.isNone))
    (value.identityState ++ " devices require fingerprint kind and value")
  refuseIf (value.identityState = "unavailable" && fingerprint.isSome)
    "unavailable Device identity cannot retain a hardware fingerprint"
  refuseIf (fingerprintKind.any isArchiveRootFingerprintKind)
    "filesystem, partition, and mount-path fingerprints identify Archive Roots, not Devices"
  if value.identityState = "confirmed" then
    match duplicateDevice c value.deviceId fingerprintKind fingerprint with
    | some r =>
        .error (.invalid ("hardware identity already belongs to Device " ++
          debugText r.snapshot.displayName ++ " (" ++ r.snapshot.deviceId ++ ")"))
    | none => .ok ()

/-- Only an update must keep the site, and only a move must change it. -/
def validateDeviceSite (c : Catalog) (action : RegistryAction) (value : DeviceSnapshot) :
    RegistryResult Unit :=
  if action = .update ∨ action = .move then
    match c.devices.get? value.deviceId with
    | some current => do
        refuseIf (action = .update ∧ current.snapshot.currentSiteId ≠ value.currentSiteId)
          "use device move when changing current_site_id"
        refuseIf (action = .move ∧ current.snapshot.currentSiteId = value.currentSiteId)
          "device move must change current_site_id"
    | none => .error (.sqlite "Query returned no rows")
  else .ok ()

def validateDevice (c : Catalog) (action : RegistryAction) (value : DeviceSnapshot) :
    RegistryResult Unit := do
  validateLifecycle c .devices "device" value.deviceId value.displayName value.status action
  requireOptionalEntity c .sites value.currentSiteId
  validateDeviceIdentity c value
  validateDeviceSite c action value

def validateArchiveRoot (c : Catalog) (action : RegistryAction) (value : ArchiveRootSnapshot) :
    RegistryResult Unit := do
  validateLifecycle c .archiveRoots "archive root" value.archiveRootId value.displayName
    value.status action
  requireEntity c .devices value.deviceId
  refuseIf (!identityStates.contains value.identityState) "invalid archive root identity_state"
  let hasFingerprint := value.filesystemFingerprint.isSome
  let hasKind := value.fingerprintKind.isSome
  refuseIf (hasFingerprint != hasKind || (value.identityState = "confirmed" && !hasFingerprint) ||
      (value.identityState = "unavailable" && hasFingerprint))
    "archive root identity evidence does not match identity_state"
  let pathBytes ← registryPathBytes value.rootPathOnDevice
  refuseIf (c.archiveRoots.rows.any fun r =>
      r.snapshot.deviceId = value.deviceId &&
        r.snapshot.rootPathOnDevice.encoding = value.rootPathOnDevice.encoding &&
        r.rootPathOnDeviceBytes = pathBytes && r.snapshot.status = "active" &&
        r.snapshot.archiveRootId ≠ value.archiveRootId)
    "an active Archive Root already uses this path on the Device"
  refuseIf (value.identityState = "confirmed" && c.archiveRoots.rows.any fun r =>
      value.fingerprintKind.isSome && r.snapshot.fingerprintKind = value.fingerprintKind &&
        value.filesystemFingerprint.isSome &&
        r.snapshot.filesystemFingerprint = value.filesystemFingerprint &&
        r.snapshot.identityState = "confirmed" && r.snapshot.status = "active" &&
        r.snapshot.archiveRootId ≠ value.archiveRootId)
    "an active Archive Root already has this confirmed filesystem identity"
  if action ≠ .register then
    match c.archiveRoots.get? value.archiveRootId with
    | some current =>
        refuseIf ((current.snapshot.deviceId, current.snapshot.rootPathOnDevice.encoding,
            current.rootPathOnDeviceBytes, current.snapshot.filesystemFingerprint,
            current.snapshot.fingerprintKind, current.snapshot.identityState)
          ≠ (value.deviceId, value.rootPathOnDevice.encoding, pathBytes,
            value.filesystemFingerprint, value.fingerprintKind, value.identityState))
          "Archive Root updates must preserve Device, path, and filesystem identity evidence"
    | none => .error (.sqlite "Query returned no rows")

def validateLocation (c : Catalog) (value : LocationSnapshot) : RegistryResult Unit := do
  refuseIf (!availabilities.contains value.expectedAvailability) "invalid expected_availability"
  if value.kind = "filesystem" then
    match value.archiveRootId, value.deviceId, value.relativePath with
    | some root, some device, some _ => do
        refuseIf value.siteId.isSome "filesystem location inherits its site from its device"
        refuseIf (!c.archiveRoots.rows.any fun r =>
            r.snapshot.archiveRootId = root && r.snapshot.deviceId = device)
          "filesystem root and device do not match"
    | _, _, _ =>
        .error (.invalid "filesystem location requires root, device, and relative path")
  else if value.kind = "service" then do
    refuseIf (value.siteId.isNone || value.archiveRootId.isSome || value.deviceId.isSome ||
        value.relativePath.isSome)
      "service location requires only a site topology"
    requireOptionalEntity c .sites value.siteId
  else .error (.invalid "invalid location kind")

def validateRiskDomain (c : Catalog) (action : RegistryAction) (value : RiskDomainSnapshot) :
    RegistryResult Unit := do
  validateLifecycle c .riskDomains "risk domain" value.riskDomainId value.displayName value.status
    action
  requireNonempty "risk_kind" value.riskKind

def entityTable (entityType : String) : RegistryResult RegistryTable :=
  if entityType = "location" then .ok .locations
  else if entityType = "archive_root" then .ok .archiveRoots
  else if entityType = "device" then .ok .devices
  else if entityType = "site" then .ok .sites
  else .error (.invalid "invalid risk entity type")

/-- The checks of an assignment; `assign` says which of the two changes it is. -/
def validateRisk (c : Catalog) (assign : Bool) (value : RiskAssignment) : RegistryResult Unit := do
  requireEntity c .riskDomains value.riskDomainId
  let table ← entityTable value.entityType
  requireEntity c table value.entityId
  let assigned := (c.entityRiskDomains.get? value).isSome
  let id := value.entityType ++ ":" ++ value.entityId
  if assign ∧ assigned then .error (.alreadyExists "risk assignment" id)
  else if ¬ assign ∧ ¬ assigned then .error (.notFound "risk assignment" id)
  else .ok ()

def fingerprintStatuses : List String := ["match", "unavailable", "mismatch"]

def validateDeviceCheckIn (c : Catalog) (value : DeviceCheckIn) : RegistryResult Unit := do
  requireEntity c .devices value.deviceId
  refuseIf (!fingerprintStatuses.contains value.fingerprintStatus) "invalid fingerprint_status"

def validateDeviceMount (c : Catalog) (value : DeviceMount) : RegistryResult Unit := do
  requireEntity c .devices value.deviceId
  match value.archiveRootId with
  | some archiveRootId =>
      match c.archiveRoots.get? archiveRootId with
      | some root =>
          refuseIf (root.snapshot.deviceId ≠ value.deviceId)
            "device mount root belongs to a different device"
      | none => .error (.notFound "archive root" archiveRootId)
  | none => .ok ()
  requireNonempty "mount_id" value.mountId
  requireNonempty "mount_root_uri" value.mountRootUri
  refuseIf (!(["mounted", "unmounted", "mismatch"].contains value.status) ||
      !fingerprintStatuses.contains value.fingerprintStatus)
    "invalid device mount state"

def validateChangeOn (c : Catalog) : RegistryChange → RegistryResult Unit
  | .site action value => validateSite c action value
  | .policy action value => validatePolicy c action value
  | .collection action value => validateCollection c action value
  | .device action value => validateDevice c action value
  | .archiveRoot action value => validateArchiveRoot c action value
  | .location action value => do
      validateLifecycle c .locations "location" value.locationId value.displayName value.status
        action
      validateLocation c value
  | .riskDomain action value => validateRiskDomain c action value
  | .assignRisk value => validateRisk c true value
  | .unassignRisk value => validateRisk c false value
  | .deviceCheckIn value => validateDeviceCheckIn c value
  | .deviceMount value => validateDeviceMount c value

/-! ### Application -/

inductive SqliteRegistryError where
  | registry (error : RegistryError)
  | sqlite (message : String)
  | invalid (message : String)
deriving DecidableEq, Repr

abbrev SqliteRegistryResult (α : Type) := Except SqliteRegistryError α

/-- `sqlite_registry::integer`. -/
def registryInteger (value : Nat) : SqliteRegistryResult Nat :=
  match sqlInteger value with
  | some value => .ok value
  | none => .error (.invalid "integer exceeds SQLite range")

/-- A statement that fails on a unique index or a `CHECK`. -/
def constraint {α : Type} (message : String) : Option α → SqliteRegistryResult α
  | some a => .ok a
  | none => .error (.sqlite message)

def registryKind (entity : String) (action : RegistryAction) : SqliteRegistryResult String :=
  match action with
  | .register => .ok (entity ++ "_registered")
  | .update => .ok (entity ++ "_updated")
  | .retire => .ok (entity ++ "_retired")
  | .move => if entity = "device" then .ok (entity ++ "_moved")
      else .error (.invalid "only Devices can move")

/-- Close the open interval of a device. -/
def departDevice (t : Table deviceSiteSchema) (deviceId : String) (time : Nat) :
    Table deviceSiteSchema :=
  t.modify (fun r => r.deviceId = deviceId && r.departedTimeUtcMs.isNone)
    (fun r => { r with departedTimeUtcMs := some time }) (by intro _; exact stated rfl)
    (fun r s h => by simp [deviceSiteSchema, deviceSiteOneOpen] at h)

/-- The upsert of a device, which leaves the check-in columns of its row. -/
def upsertDevice (t : Table deviceSchema) (v : DeviceSnapshot) : Option (Table deviceSchema) :=
  t.upsert? ⟨v, none, none, none⟩
    (fun r => { r with snapshot := { v with deviceId := r.snapshot.deviceId } })

def applyDevice (tx : Catalog) (action : RegistryAction) (v : DeviceSnapshot) (time : Nat) :
    SqliteRegistryResult Catalog := do
  let devices ← constraint
    "UNIQUE constraint failed: devices.fingerprint_kind, devices.hardware_fingerprint"
    (upsertDevice tx.devices v)
  let sites := if action = .move then departDevice tx.deviceSiteHistory v.deviceId time
    else tx.deviceSiteHistory
  match v.currentSiteId with
  | some site =>
      if action = .register ∨ action = .move then do
        let sites ← constraint
          "UNIQUE constraint failed: device_site_history.device_id, device_site_history.arrived_time_utc_ms"
          (sites.insert? ⟨v.deviceId, site, time, none⟩)
        .ok { tx with devices := devices, deviceSiteHistory := sites }
      else .ok { tx with devices := devices, deviceSiteHistory := sites }
  | none => .ok { tx with devices := devices, deviceSiteHistory := sites }

/-- Root identity is immutable: the update sets the name, the status and the time. -/
def upsertArchiveRoot (t : Table archiveRootSchema) (v : ArchiveRootSnapshot) (bytes : Bytes)
    (time : Nat) : Option (Table archiveRootSchema) :=
  t.upsert? ⟨v, bytes, some time⟩
    (fun r => { r with
      snapshot := { r.snapshot with displayName := v.displayName, status := v.status }
      lastSeenTimeUtcMs := some time })

/-- The `CHECK` constraints of `locations`. -/
def locationChecks (v : LocationSnapshot) : Bool :=
  (v.encryptionState.all fun s => ["encrypted", "unencrypted", "unknown"].contains s) &&
    (v.trustLevel.all fun s => ["trusted", "untrusted", "unknown"].contains s) &&
    ((v.archiveRootId.isSome && v.deviceId.isSome && v.siteId.isNone && v.relativePath.isSome) ||
      (v.archiveRootId.isNone && v.deviceId.isNone && v.siteId.isSome && v.relativePath.isNone))

/-- `.map(registry_path_bytes).transpose()?`. -/
def optionalPathBytes : Option RegistryPath → SqliteRegistryResult (Option Bytes)
  | some path => (registryPathBytes path).mapError .registry |>.map some
  | none => .ok none

def applyLocation (tx : Catalog) (v : LocationSnapshot) : SqliteRegistryResult Catalog := do
  let bytes ← optionalPathBytes v.relativePath
  if locationChecks v then
    .ok { tx with
      locations := tx.locations.upsert ⟨v, bytes⟩
        (fun r => ⟨{ v with locationId := r.snapshot.locationId }, bytes⟩) }
  else .error (.sqlite "CHECK constraint failed: locations")

def applyDeviceCheckIn (tx : Catalog) (v : DeviceCheckIn) (time : Nat) : Catalog :=
  { tx with
    devices := tx.devices.modify (fun r => r.snapshot.deviceId = v.deviceId)
      (fun r => { r with
        lastCheckinTimeUtcMs := some time
        lastFingerprintMatchTimeUtcMs :=
          if v.fingerprintStatus = "match" then some time else r.lastFingerprintMatchTimeUtcMs
        lastFingerprintStatus := some v.fingerprintStatus }) }

def applyDeviceMount (tx : Catalog) (v : DeviceMount) (host : String) (time : Nat) :
    SqliteRegistryResult Catalog := do
  if Text.trim host = "" then .error (.invalid "host ID must not be empty")
  else
    let mounts ← constraint "UNIQUE constraint failed: device_mounts.mount_id"
      (tx.deviceMounts.insert? ⟨v, host, time⟩)
    .ok { tx with deviceMounts := mounts }

def apply (tx : Catalog) (change : RegistryChange) (host : String) (time : Nat) :
    SqliteRegistryResult (String × Catalog) :=
  match change with
  | .site action v => do
      let k ← registryKind "site" action
      .ok (k, { tx with
        sites := tx.sites.upsert v fun r => { v with siteId := r.siteId } })
  | .policy action v => do
      let k ← registryKind "policy" action
      let version ← registryInteger v.policyVersion
      .ok (k, { tx with
        policies := tx.policies.upsert { v with policyVersion := version }
          fun r => { v with policyId := r.policyId, policyVersion := version } })
  | .collection action v => do
      let k ← registryKind "collection" action
      .ok (k, { tx with
        collections := tx.collections.upsert v
          fun r => { v with collectionId := r.collectionId } })
  | .device action v => do
      let k ← registryKind "device" action
      let tx ← applyDevice tx action v time
      .ok (k, tx)
  | .archiveRoot action v => do
      let k ← registryKind "archive_root" action
      let bytes ← (registryPathBytes v.rootPathOnDevice).mapError .registry
      let archiveRoots ← constraint "UNIQUE constraint failed: archive_roots"
        (upsertArchiveRoot tx.archiveRoots v bytes time)
      .ok (k, { tx with archiveRoots := archiveRoots })
  | .location action v => do
      let k ← registryKind "location" action
      let tx ← applyLocation tx v
      .ok (k, tx)
  | .riskDomain action v => do
      let k ← registryKind "risk_domain" action
      .ok (k, { tx with
        riskDomains := tx.riskDomains.upsert v
          fun r => { v with riskDomainId := r.riskDomainId } })
  | .assignRisk v => do
      let assigned ← constraint "UNIQUE constraint failed: entity_risk_domains"
        (tx.entityRiskDomains.insert? v)
      .ok ("risk_assigned", { tx with entityRiskDomains := assigned })
  | .unassignRisk v =>
      .ok ("risk_unassigned", { tx with
        entityRiskDomains := tx.entityRiskDomains.delete fun r => r = v })
  | .deviceCheckIn v => .ok ("device_checked_in", applyDeviceCheckIn tx v time)
  | .deviceMount v => do
      let tx ← applyDeviceMount tx v host time
      .ok ("device_mount_observed", tx)

/-! ### Batches -/

structure RegistryBatchCommit where
  revision : Nat
  historyIds : List Nat
deriving DecidableEq, Repr

/-- The history row of a change. -/
def registryHistory (kind : String) (change : RegistryChange) (host : String) (time : Nat) :
    HistoryRow where
  objectId := none
  locationId := match change with
    | .location _ v => some v.locationId
    | _ => none
  timeUtcMs := time
  kind := .registry kind
  checkResult := none
  expectedBlake3 := none
  observedBlake3 := none
  details := .registry change host

/-- One change of a batch: validation, application, history. -/
def recordChange (host : String) (time : Nat) (tx : Catalog) (change : RegistryChange) :
    SqliteRegistryResult Catalog := do
  (validateChangeOn tx change).mapError .registry
  let (kind, tx) ← apply tx change host time
  .ok { tx with history := tx.history ++ [registryHistory kind change host time] }

/-- Commit a nonempty batch atomically: later changes can refer to entities
created earlier in it, and any failure rolls all back. -/
def recordBatch (c : Catalog) (changes : List RegistryChange) (hostId : String) (timeUtcMs : Nat) :
    SqliteRegistryResult (RegistryBatchCommit × Catalog) := do
  if changes.isEmpty then .error (.invalid "registry batch must not be empty")
  else
    let time ← registryInteger timeUtcMs
    let tx ← Transition.commitAll (recordChange hostId time) c changes
    let tx := tx.bumpRevision
    .ok (⟨tx.revision, (List.range changes.length).map fun i => c.history.length + i + 1⟩, tx)

/-- `rename_archive`. -/
def renameArchive (c : Catalog) (name : String) (timeUtcMs : Nat) :
    SqliteRegistryResult Catalog := do
  if Text.trim name = "" then .error (.invalid "display name must not be empty")
  else
    let time ← registryInteger timeUtcMs
    .ok (Catalog.bumpRevision { c with
      displayName := name
      history := c.history ++ [{
        objectId := none
        locationId := none
        timeUtcMs := time
        kind := .archiveRenamed
        checkResult := none
        expectedBlake3 := none
        observedBlake3 := none
        details := .renamed c.displayName name }] })

end ArchiveLedger
