import ArchiveLedger.Projection.Controls

/-!
# Projecting registry items

`project_registry_item`: one upsert for each kind of registry entry, under the
`CHECK` constraints and the foreign keys of its table.
-/

namespace ArchiveLedger

open Relational Outcome Transition

namespace Projection

variable (R : ProjectionRuntime)

/-- `registry_snapshot`. -/
def registrySnapshot {α : Type} (read : Json → Except String α) (item : Json) :
    ProjectionResult α := do
  let snapshot ← required item "snapshot"
  mapError (fun e => .invalid ("registry snapshot is invalid: " ++ e)) (read snapshot)

/-- A `CHECK` constraint. -/
def checked (constraint : Bool) : ProjectionResult Unit := require constraint .sqlite

def isStatus (status : String) : Bool := status = "active" || status = "retired"

def isIdentityState (state : String) : Bool := state ∈ ["confirmed", "unavailable", "conflict"]

def isAvailability (availability : String) : Bool :=
  availability ∈ ["online", "offline", "intermittent"]

def projectSite (db : Projection) (item : Json) : ProjectionResult Projection := do
  let value ← registrySnapshot R.readSite item
  checked (isStatus value.status)
  let sites := db.sites.upsert value (fun old => { value with siteId := old.siteId })
    (fun _ _ => Eq.refl false) fun old => Eq.refl old.siteId
  .ok { db with sites := sites }

def projectPolicy (db : Projection) (item : Json) : ProjectionResult Projection := do
  let value ← registrySnapshot R.readPolicy item
  let version ← sqlI64 value.policyVersion "policy version"
  checked (0 < version && isStatus value.status)
  let policies := db.policies.upsert value (fun old => { value with policyId := old.policyId })
    (fun _ _ => Eq.refl false) fun old => Eq.refl old.policyId
  .ok { db with policies := policies }

def projectCollection (db : Projection) (item : Json) : ProjectionResult Projection := do
  let value ← registrySnapshot R.readCollection item
  checked (isStatus value.status)
  namedIfSome db.sites value.homeSiteId
  namedIfSome db.policies value.policyId
  let collections := db.collections.upsert value (fun old => { value with collectionId := old.collectionId })
    (fun _ _ => Eq.refl false) fun old => Eq.refl old.collectionId
  .ok { db with collections := collections }

/-- A stay that has ended stands in the way of no other. -/
theorem departed_clash (time : Nat) (r s : DeviceSiteRow)
    (h : deviceSiteSchema.clash { r with departedTimeUtcMs := some time } s = true) :
    deviceSiteSchema.clash r s = true := by cases h

/-- A device that is registered or moved arrives at its site; one that is moved leaves
the site it was at. -/
def projectArrival (db : Projection) (kind : String) (value : DeviceSnapshot) (time : Nat) :
    ProjectionResult Projection := do
  let history := db.deviceSiteHistory.modify
    (fun r => kind = "device_moved" && r.deviceId = value.deviceId && r.departedTimeUtcMs.isNone)
    (fun r => { r with departedTimeUtcMs := some time }) (fun _ => rfl)
    (departed_clash time)
  match value.currentSiteId with
  | none => .ok { db with deviceSiteHistory := history }
  | some site =>
      if kind = "device_registered" ∨ kind = "device_moved" then do
        let history ← statement (history.insert? ⟨value.deviceId, site, time, none⟩)
        .ok { db with deviceSiteHistory := history }
      else .ok { db with deviceSiteHistory := history }

def projectDevice (db : Projection) (item : Json) (kind : String) (time : Nat) :
    ProjectionResult Projection := do
  let value ← registrySnapshot R.readDevice item
  checked (isStatus value.status && isIdentityState value.identityState &&
    isAvailability value.expectedAvailability)
  namedIfSome db.sites value.currentSiteId
  let row : DeviceRow := ⟨value, none, none, none⟩
  let devices ← statement (db.devices.upsert? row
    (fun old => { old with snapshot := { value with deviceId := old.snapshot.deviceId } })
    fun old => Eq.refl old.snapshot.deviceId)
  { db with devices := devices }.projectArrival kind value time

def projectArchiveRoot (db : Projection) (item : Json) (time : Nat) : ProjectionResult Projection := do
  let value ← registrySnapshot R.readArchiveRoot item
  let bytes ← mapError (fun e => .invalid e.display) (registryPathBytes value.rootPathOnDevice)
  checked (isStatus value.status && isIdentityState value.identityState)
  named db.devices value.deviceId
  let row : ArchiveRootRow := ⟨value, bytes, some time⟩
  let roots ← statement (db.archiveRoots.upsert? row fun old => { old with
    snapshot := { old.snapshot with displayName := value.displayName, status := value.status }
    lastSeenTimeUtcMs := some time })
  .ok { db with archiveRoots := roots }

/-- The `CHECK` constraints of `locations`: a Location lies under an archive root of a
device or at a site. -/
def locationFits (value : LocationSnapshot) : Bool :=
  value.kind ∈ ["filesystem", "service"] && isStatus value.status &&
    isAvailability value.expectedAvailability &&
    value.encryptionState.all (· ∈ ["encrypted", "unencrypted", "unknown"]) &&
    value.trustLevel.all (· ∈ ["trusted", "untrusted", "unknown"]) &&
    ((value.archiveRootId.isSome && value.deviceId.isSome && value.siteId.isNone &&
        value.relativePath.isSome) ||
      (value.archiveRootId.isNone && value.deviceId.isNone && value.siteId.isSome &&
        value.relativePath.isNone))

/-- The bytes of a path that may be absent. -/
def optionalPathBytes : Option RegistryPath → ProjectionResult (Option Bytes)
  | none => .ok none
  | some path => do
      let bytes ← mapError (fun e => .invalid e.display) (registryPathBytes path)
      .ok (some bytes)

def projectLocation (db : Projection) (item : Json) : ProjectionResult Projection := do
  let value ← registrySnapshot R.readLocation item
  let bytes ← optionalPathBytes value.relativePath
  checked (locationFits value)
  namedIfSome db.archiveRoots value.archiveRootId
  namedIfSome db.devices value.deviceId
  namedIfSome db.sites value.siteId
  let locations := db.locations.upsert ⟨value, bytes⟩
    (fun old => ⟨{ value with locationId := old.snapshot.locationId }, bytes⟩)
    (fun _ _ => Eq.refl false) fun old => Eq.refl old.snapshot.locationId
  .ok { db with locations := locations }

def projectRiskDomain (db : Projection) (item : Json) : ProjectionResult Projection := do
  let value ← registrySnapshot R.readRiskDomain item
  checked (isStatus value.status)
  let domains := db.riskDomains.upsert value (fun old => { value with riskDomainId := old.riskDomainId })
    (fun _ _ => Eq.refl false) fun old => Eq.refl old.riskDomainId
  .ok { db with riskDomains := domains }

def projectRisk (db : Projection) (item : Json) (kind : String) : ProjectionResult Projection := do
  let value ← registrySnapshot R.readRiskAssignment item
  if kind = "risk_assigned" then do
    checked (value.entityType ∈ ["location", "archive_root", "device", "site"])
    named db.riskDomains value.riskDomainId
    let assigned ← statement (db.entityRiskDomains.insert? value)
    .ok { db with entityRiskDomains := assigned }
  else
    .ok { db with entityRiskDomains := db.entityRiskDomains.delete fun r => r = value }

def projectCheckIn (db : Projection) (item : Json) (time : Nat) : ProjectionResult Projection := do
  let value ← registrySnapshot R.readDeviceCheckIn item
  let isMatch := value.fingerprintStatus = "match"
  let devices := db.devices.modify (fun r => r.snapshot.deviceId = value.deviceId)
    (fun r => { r with
      lastCheckinTimeUtcMs := some time
      lastFingerprintMatchTimeUtcMs := if isMatch then some time else r.lastFingerprintMatchTimeUtcMs
      lastFingerprintStatus := some value.fingerprintStatus })
    (fun _ => rfl) (fun _ _ h => h)
  .ok { db with devices := devices }

def projectMount (db : Projection) (item : Json) (time : Nat) : ProjectionResult Projection := do
  let value ← registrySnapshot R.readDeviceMount item
  let hostId ← string item "host_id"
  checked (value.status ∈ ["mounted", "unmounted", "mismatch"])
  named db.devices value.deviceId
  namedIfSome db.archiveRoots value.archiveRootId
  let mounts ← statement (db.deviceMounts.insert? ⟨value, hostId, time⟩)
  .ok { db with deviceMounts := mounts }

def projectRegistryItem (db : Projection) (item : Json) (record : VerifiedV2Record) :
    ProjectionResult Projection := do
  let kind ← string item "kind"
  let time ← sqlI64 record.record.envelope.timeUtcMs "registry record time"
  if kind ∈ ["site_registered", "site_updated", "site_retired"] then db.projectSite R item
  else if kind ∈ ["policy_registered", "policy_updated", "policy_retired"] then
    db.projectPolicy R item
  else if kind ∈ ["collection_registered", "collection_updated", "collection_retired"] then
    db.projectCollection R item
  else if kind ∈ ["device_registered", "device_updated", "device_moved", "device_retired"] then
    db.projectDevice R item kind time
  else if kind ∈ ["archive_root_registered", "archive_root_updated", "archive_root_retired"] then
    db.projectArchiveRoot R item time
  else if kind ∈ ["location_registered", "location_updated", "location_retired"] then
    db.projectLocation R item
  else if kind ∈ ["risk_domain_registered", "risk_domain_updated", "risk_domain_retired"] then
    db.projectRiskDomain R item
  else if kind = "risk_assigned" ∨ kind = "risk_unassigned" then db.projectRisk R item kind
  else if kind = "device_checked_in" then db.projectCheckIn R item time
  else db.projectMount R item time

end Projection

end ArchiveLedger
