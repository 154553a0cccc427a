import ArchiveLedger.Projection.RegistryItems
import ArchiveLedger.Registry.Steps

/-!
# The registry of the permanent history

`V2Registry::record` (`registry.rs`) validates a change against the rows of the projection
and appends it as one item to the permanent history, from which `projectRegistryItem` writes
the same tables.  The validation is the one the catalog runs (`validateChangeOn`), read
from a projection through `registryTables`.
-/

namespace ArchiveLedger

open Relational Outcome Transition

/-! ### The registry tables of a database -/

/-- The registry tables of a projection. -/
def Projection.registryTables (db : Projection) : Catalog :=
  { Catalog.create db.archiveMeta.archiveId db.archiveMeta.archiveDisplayName with
    sites := db.sites
    policies := db.policies
    collections := db.collections
    devices := db.devices
    deviceSiteHistory := db.deviceSiteHistory
    archiveRoots := db.archiveRoots
    locations := db.locations
    deviceMounts := db.deviceMounts
    riskDomains := db.riskDomains
    entityRiskDomains := db.entityRiskDomains }

/-- A projection with other registry tables. -/
def Projection.withRegistry (db : Projection) (c : Catalog) : Projection :=
  { db with
    sites := c.sites
    policies := c.policies
    collections := c.collections
    devices := c.devices
    deviceSiteHistory := c.deviceSiteHistory
    archiveRoots := c.archiveRoots
    locations := c.locations
    deviceMounts := c.deviceMounts
    riskDomains := c.riskDomains
    entityRiskDomains := c.entityRiskDomains }

/-- A catalog with other registry tables. -/
def Catalog.withRegistry (d c : Catalog) : Catalog :=
  { d with
    sites := c.sites
    policies := c.policies
    collections := c.collections
    devices := c.devices
    deviceSiteHistory := c.deviceSiteHistory
    archiveRoots := c.archiveRoots
    locations := c.locations
    deviceMounts := c.deviceMounts
    riskDomains := c.riskDomains
    entityRiskDomains := c.entityRiskDomains }

theorem sameRegistry_withRegistry (db : Projection) (c : Catalog) :
    SameRegistry (db.withRegistry c).registryTables c :=
  ⟨rfl, rfl, rfl, rfl, rfl, rfl, rfl, rfl, rfl, rfl⟩

theorem SameRegistry.symm {c d : Catalog} (h : SameRegistry c d) : SameRegistry d c :=
  ⟨h.sites.symm, h.policies.symm, h.collections.symm, h.devices.symm, h.deviceSiteHistory.symm,
    h.archiveRoots.symm, h.locations.symm, h.deviceMounts.symm, h.riskDomains.symm,
    h.entityRiskDomains.symm⟩

theorem SameRegistry.withRegistry_eq {c d : Catalog} (h : SameRegistry c d) : d.withRegistry c = d := by
  rw [Catalog.withRegistry, ← h.sites, ← h.policies, ← h.collections, ← h.devices,
    ← h.deviceSiteHistory, ← h.archiveRoots, ← h.locations, ← h.deviceMounts, ← h.riskDomains,
    ← h.entityRiskDomains]

/-- A validation reads registry tables only. -/
theorem SameRegistry.validate_eq {c d : Catalog} (h : SameRegistry c d) (change : RegistryChange) :
    validateChangeOn d change = validateChangeOn c change := by
  rw [← h.withRegistry_eq]
  cases change <;> rfl

theorem applyDevice_withRegistry (d c : Catalog) (action : RegistryAction) (v : DeviceSnapshot)
    (time : Nat) : applyDevice (d.withRegistry c) action v time =
      (applyDevice c action v time).map d.withRegistry := by
  simp only [applyDevice, Catalog.withRegistry]
  cases upsertDevice c.devices v with
  | none => rfl
  | some devices =>
    cases v.currentSiteId with
    | none => rfl
    | some site =>
      by_cases hmoves : action = .register ∨ action = .move
      · simp only [hmoves, if_true]
        cases (if action = .move then departDevice c.deviceSiteHistory v.deviceId time
          else c.deviceSiteHistory).insert? ⟨v.deviceId, site, time, none⟩ <;> rfl
      · simp only [hmoves, if_false]
        rfl

theorem applyLocation_withRegistry (d c : Catalog) (v : LocationSnapshot) :
    applyLocation (d.withRegistry c) v = (applyLocation c v).map d.withRegistry := by
  simp only [applyLocation]
  cases optionalPathBytes v.relativePath with
  | error e => rfl
  | ok bytes =>
    dsimp only [bind, Except.bind]
    cases locationChecks v <;> rfl

theorem applyDeviceMount_withRegistry (d c : Catalog) (v : DeviceMount) (host : String) (time : Nat) :
    applyDeviceMount (d.withRegistry c) v host time =
      (applyDeviceMount c v host time).map d.withRegistry := by
  simp only [applyDeviceMount, Catalog.withRegistry]
  split
  · rfl
  · cases c.deviceMounts.insert? ⟨v, host, time⟩ <;> rfl

/-- So does an application, and it writes no other. -/
theorem apply_withRegistry (d c : Catalog) (change : RegistryChange) (host : String) (time : Nat) :
    apply (d.withRegistry c) change host time =
      (apply c change host time).map fun r => (r.1, d.withRegistry r.2) := by
  cases change with
  | site action v =>
    simp only [apply]
    cases registryKind "site" action <;> rfl
  | policy action v =>
    simp only [apply]
    cases registryKind "policy" action with
    | error e => rfl
    | ok k => cases registryInteger v.policyVersion <;> rfl
  | collection action v =>
    simp only [apply]
    cases registryKind "collection" action <;> rfl
  | device action v =>
    simp only [apply, applyDevice_withRegistry]
    cases registryKind "device" action with
    | error e => rfl
    | ok k => cases applyDevice c action v time <;> rfl
  | archiveRoot action v =>
    simp only [apply, Catalog.withRegistry]
    cases registryKind "archive_root" action with
    | error e => rfl
    | ok k =>
      cases registryPathBytes v.rootPathOnDevice with
      | error e => rfl
      | ok bytes =>
        dsimp only [bind, Except.bind, Except.mapError]
        cases upsertArchiveRoot c.archiveRoots v bytes time <;> rfl
  | location action v =>
    simp only [apply, applyLocation_withRegistry]
    cases registryKind "location" action with
    | error e => rfl
    | ok k => cases applyLocation c v <;> rfl
  | riskDomain action v =>
    simp only [apply]
    cases registryKind "risk_domain" action <;> rfl
  | assignRisk v =>
    simp only [apply, Catalog.withRegistry]
    cases c.entityRiskDomains.insert? v <;> rfl
  | unassignRisk v => rfl
  | deviceCheckIn v => rfl
  | deviceMount v =>
    simp only [apply, applyDeviceMount_withRegistry]
    cases applyDeviceMount c v host time <;> rfl

/-! ### Recording a change -/

/-- What recording needs of its environment: the snapshot of a change as it is serialized,
and whether the record store takes an item. -/
structure V2RegistryRuntime extends ProjectionRuntime where
  payload : RegistryChange → List (String × Json)
  appends : Json → Bool

/-- `lifecycle_event`; another move is `unreachable!`. -/
def lifecycleEvent (kind : String) : RegistryAction → Option String
  | .register => some (kind ++ "_registered")
  | .update => some (kind ++ "_updated")
  | .retire => some (kind ++ "_retired")
  | .move => if kind = "device" then some "device_moved" else none

/-- The kind of the item of a change. -/
def RegistryChange.eventKind : RegistryChange → Option String
  | .site action _ => lifecycleEvent "site" action
  | .policy action _ => lifecycleEvent "policy" action
  | .collection action _ => lifecycleEvent "collection" action
  | .device action _ => lifecycleEvent "device" action
  | .archiveRoot action _ => lifecycleEvent "archive_root" action
  | .location action _ => lifecycleEvent "location" action
  | .riskDomain action _ => lifecycleEvent "risk_domain" action
  | .assignRisk _ => some "risk_assigned"
  | .unassignRisk _ => some "risk_unassigned"
  | .deviceCheckIn _ => some "device_checked_in"
  | .deviceMount _ => some "device_mount_observed"

namespace V2RegistryRuntime

variable (R : V2RegistryRuntime)

/-- `v2_registry_item`. -/
def item (change : RegistryChange) (hostId : String) : Option Json :=
  change.eventKind.map fun kind =>
    .obj ([("kind", .str kind), ("snapshot", .obj (R.payload change))] ++
      if kind = "device_mount_observed" then [("host_id", .str hostId)] else [])

/-- What `V2Registry::record` does before it projects. -/
inductive Recorded where
  | refused (error : RegistryError)
  | panicked
  | unappended
  | appended (item : Json)

def record (db : Projection) (change : RegistryChange) (hostId : String) : Recorded :=
  match validateChangeOn db.registryTables change with
  | .error e => .refused e
  | .ok () =>
      match R.item change hostId with
      | none => .panicked
      | some item => if R.appends item then .appended item else .unappended

/-- The snapshot of a change reads back as it was written. -/
def Reads : RegistryChange → Prop
  | .site action v => R.readSite (.obj (R.payload (.site action v))) = .ok v
  | .policy action v => R.readPolicy (.obj (R.payload (.policy action v))) = .ok v
  | .collection action v => R.readCollection (.obj (R.payload (.collection action v))) = .ok v
  | .device action v => R.readDevice (.obj (R.payload (.device action v))) = .ok v
  | .archiveRoot action v => R.readArchiveRoot (.obj (R.payload (.archiveRoot action v))) = .ok v
  | .location action v => R.readLocation (.obj (R.payload (.location action v))) = .ok v
  | .riskDomain action v => R.readRiskDomain (.obj (R.payload (.riskDomain action v))) = .ok v
  | .assignRisk v => R.readRiskAssignment (.obj (R.payload (.assignRisk v))) = .ok v
  | .unassignRisk v => R.readRiskAssignment (.obj (R.payload (.unassignRisk v))) = .ok v
  | .deviceCheckIn v => R.readDeviceCheckIn (.obj (R.payload (.deviceCheckIn v))) = .ok v
  | .deviceMount v => R.readDeviceMount (.obj (R.payload (.deviceMount v))) = .ok v

end V2RegistryRuntime

/-! ### What an item holds -/

variable {R : V2RegistryRuntime} {change : RegistryChange} {hostId : String} {item : Json}

theorem item_fields (h : R.item change hostId = some item) :
    ∃ kind, change.eventKind = some kind ∧ string item "kind" = .ok kind ∧
      required item "snapshot" = .ok (.obj (R.payload change)) ∧
      (kind = "device_mount_observed" → string item "host_id" = .ok hostId) := by
  obtain ⟨kind, hkind, rfl⟩ := Option.map_eq_some_iff.mp h
  refine ⟨kind, hkind, rfl, rfl, ?_⟩
  rintro rfl
  rfl

/-! ### What a valid change has passed -/

theorem isStatus_of_lifecycle {c : Catalog} {table : RegistryTable} {kind id displayName status : String}
    {action : RegistryAction} {u : Unit}
    (h : validateLifecycle c table kind id displayName status action = .ok u) :
    Projection.isStatus status = true := by
  rw [(lifecycle_of_ok h).1]
  split <;> rfl

theorem requireEntity_eq_ok {c : Catalog} {table : RegistryTable} {id : String} {u : Unit} :
    requireEntity c table id = .ok u ↔ entityExists c table id = true := by
  unfold requireEntity
  split
  · rename_i h
    exact ⟨fun _ => h, fun _ => rfl⟩
  · rename_i h
    exact ⟨nofun, fun he => absurd he h⟩

theorem requireOptionalEntity_eq_ok {c : Catalog} {table : RegistryTable} {id : Option String} {u : Unit} :
    requireOptionalEntity c table id = .ok u ↔ id.all (entityExists c table) = true := by
  cases id with
  | none => exact ⟨fun _ => rfl, fun _ => rfl⟩
  | some id => exact requireEntity_eq_ok

theorem mem_of_refuseIf {l : List String} {x message : String} {u : Unit}
    (h : refuseIf (!l.contains x) message = .ok u) : x ∈ l := by
  have := refuseIf_eq_ok.mp h
  rwa [Bool.not_eq_false', List.contains_iff_mem] at this

/-- An archive root is on a device of the registry. -/
def RootsPlaced (c : Catalog) : Prop :=
  ∀ r ∈ c.archiveRoots.rows, entityExists c .devices r.snapshot.deviceId = true

/-! ### What an application has written -/

theorem applyDevice_eq_ok {tx d : Catalog} {action : RegistryAction} {v : DeviceSnapshot} {time : Nat} :
    applyDevice tx action v time = .ok d ↔ ∃ devices sites, upsertDevice tx.devices v = some devices ∧
      siteIntervals tx.deviceSiteHistory action v time = some sites ∧
      d = { tx with devices := devices, deviceSiteHistory := sites } := by
  rw [applyDevice, bind_eq_ok, siteIntervals]
  constructor
  · rintro ⟨devices, hdevices, h⟩
    refine ⟨devices, ?_⟩
    cases hsite : v.currentSiteId with
    | none =>
      simp only [hsite] at h
      cases h
      exact ⟨_, constraint_eq_ok.mp hdevices, rfl, rfl⟩
    | some site =>
      simp only [hsite] at h ⊢
      split at h
      · rename_i harrives
        obtain ⟨sites, hsites, h⟩ := bind_eq_ok.mp h
        cases h
        exact ⟨sites, constraint_eq_ok.mp hdevices, by rw [if_pos harrives]; exact constraint_eq_ok.mp hsites,
          rfl⟩
      · rename_i hstays
        cases h
        exact ⟨_, constraint_eq_ok.mp hdevices, if_neg hstays, rfl⟩
  · rintro ⟨devices, sites, hdevices, hsites, rfl⟩
    refine ⟨devices, constraint_eq_ok.mpr hdevices, ?_⟩
    cases hsite : v.currentSiteId with
    | none =>
      simp only [hsite] at hsites ⊢
      rw [Option.some.inj hsites]
    | some site =>
      simp only [hsite] at hsites ⊢
      split at hsites
      · rename_i harrives
        rw [if_pos harrives]
        exact bind_eq_ok.mpr ⟨sites, constraint_eq_ok.mpr hsites, rfl⟩
      · rename_i hstays
        rw [if_neg hstays, Option.some.inj hsites]

theorem applyLocation_eq_ok {tx d : Catalog} {v : LocationSnapshot} :
    applyLocation tx v = .ok d ↔ ∃ bytes, optionalPathBytes v.relativePath = .ok bytes ∧
      locationChecks v = true ∧ d = { tx with
        locations := tx.locations.upsert ⟨v, bytes⟩
          (fun r => ⟨{ v with locationId := r.snapshot.locationId }, bytes⟩) } := by
  rw [applyLocation, bind_eq_ok]
  refine exists_congr fun bytes => and_congr_right fun _ => ?_
  cases locationChecks v with
  | false => exact ⟨nofun, fun h => absurd h.1 Bool.false_ne_true⟩
  | true => exact ⟨fun h => ⟨rfl, (Except.ok.inj h).symm⟩, fun h => by rw [if_pos rfl, h.2]⟩

theorem applyDeviceMount_eq_ok {tx d : Catalog} {v : DeviceMount} {host : String} {time : Nat} :
    applyDeviceMount tx v host time = .ok d ↔ Text.trim host ≠ "" ∧ ∃ mounts,
      tx.deviceMounts.insert? ⟨v, host, time⟩ = some mounts ∧ d = { tx with deviceMounts := mounts } := by
  unfold applyDeviceMount
  split
  · rename_i hblank
    exact ⟨nofun, fun h => absurd hblank h.1⟩
  · rename_i hhost
    rw [bind_eq_ok]
    constructor
    · rintro ⟨mounts, hmounts, h⟩
      exact ⟨hhost, mounts, constraint_eq_ok.mp hmounts, (Except.ok.inj h).symm⟩
    · rintro ⟨-, mounts, hmounts, rfl⟩
      exact ⟨mounts, constraint_eq_ok.mpr hmounts, rfl⟩

/-- The checks a valid location has passed. -/
structure LocationChecked (c : Catalog) (v : LocationSnapshot) : Prop where
  availability : v.expectedAvailability ∈ availabilities
  kind : v.kind ∈ ["filesystem", "service"]
  root : v.archiveRootId.all (entityExists c .archiveRoots) = true
  device : v.deviceId.all (entityExists c .devices) = true
  site : v.siteId.all (entityExists c .sites) = true

theorem locationChecked_of_ok {c : Catalog} {v : LocationSnapshot} {u : Unit} (hplaced : RootsPlaced c)
    (h : validateLocation c v = .ok u) : LocationChecked c v := by
  obtain ⟨_, havailable, h⟩ := bind_eq_ok.mp h
  have havailable := mem_of_refuseIf havailable
  by_cases hfilesystem : v.kind = "filesystem"
  · rw [if_pos hfilesystem] at h
    split at h
    · rename_i root device path hroot hdevice hpath
      obtain ⟨_, hsite, hmatch⟩ := bind_eq_ok.mp h
      have hsite := Option.isSome_eq_false_iff.mp (refuseIf_eq_ok.mp hsite)
      have hmatch := refuseIf_eq_ok.mp hmatch
      rw [Bool.not_eq_false', List.any_eq_true] at hmatch
      obtain ⟨r, hr, hids⟩ := hmatch
      rw [Bool.and_eq_true, decide_eq_true_eq, decide_eq_true_eq] at hids
      obtain ⟨rfl, rfl⟩ := hids
      refine ⟨havailable, by simp [hfilesystem], ?_, ?_, ?_⟩
      · rw [hroot]
        exact Option.isSome_of_eq_some (Table.get?_of_mem hr)
      · rw [hdevice]
        exact hplaced r hr
      · rw [Option.isNone_iff_eq_none.mp hsite]
        rfl
    · cases h
  · rw [if_neg hfilesystem] at h
    split at h
    · rename_i hservice
      obtain ⟨_, htopology, hsite⟩ := bind_eq_ok.mp h
      have htopology := refuseIf_eq_ok.mp htopology
      simp only [Bool.or_eq_false_iff, Option.isSome_eq_false_iff, Option.isNone_iff_eq_none] at htopology
      refine ⟨havailable, by simp [hservice], ?_, ?_, requireOptionalEntity_eq_ok.mp hsite⟩
      · rw [htopology.1.1.2]
        rfl
      · rw [htopology.1.2]
        rfl
    · cases h

theorem optionalPathBytes_of_catalog {path : Option RegistryPath} {bytes : Option Bytes}
    (h : optionalPathBytes path = .ok bytes) : Projection.optionalPathBytes path = .ok bytes := by
  cases path with
  | none =>
    cases h
    rfl
  | some path =>
    cases hbytes : registryPathBytes path with
    | error e =>
      simp only [optionalPathBytes, hbytes] at h
      cases h
    | ok b =>
      simp only [optionalPathBytes, hbytes] at h
      cases h
      exact bind_eq_ok.mpr ⟨b, mapError_eq_ok.mpr hbytes, rfl⟩

/-- The checks a valid mount has passed. -/
structure MountChecked (c : Catalog) (v : DeviceMount) : Prop where
  device : entityExists c .devices v.deviceId = true
  root : v.archiveRootId.all (entityExists c .archiveRoots) = true
  status : v.status ∈ ["mounted", "unmounted", "mismatch"]

theorem mountChecked_of_ok {c : Catalog} {v : DeviceMount} {u : Unit}
    (h : validateDeviceMount c v = .ok u) : MountChecked c v := by
  have hstate : ∀ {w : Unit}, refuseIf (!(["mounted", "unmounted", "mismatch"].contains v.status) ||
      !fingerprintStatuses.contains v.fingerprintStatus) "invalid device mount state" = Except.ok w →
      v.status ∈ ["mounted", "unmounted", "mismatch"] := by
    intro w h
    have := refuseIf_eq_ok.mp h
    rw [Bool.or_eq_false_iff, Bool.not_eq_false', List.contains_iff_mem] at this
    exact this.1
  obtain ⟨_, hdevice, h⟩ := bind_eq_ok.mp h
  have hdevice := requireEntity_eq_ok.mp hdevice
  split at h
  · rename_i root hroot
    split at h
    · rename_i r hr
      obtain ⟨_, -, h⟩ := bind_eq_ok.mp h
      obtain ⟨_, -, h⟩ := bind_eq_ok.mp h
      obtain ⟨_, -, h⟩ := bind_eq_ok.mp h
      refine ⟨hdevice, ?_, hstate h⟩
      rw [hroot]
      exact Option.isSome_of_eq_some hr
    · cases h
  · rename_i hroot
    obtain ⟨_, -, h⟩ := bind_eq_ok.mp h
    obtain ⟨_, -, h⟩ := bind_eq_ok.mp h
    obtain ⟨_, -, h⟩ := bind_eq_ok.mp h
    refine ⟨hdevice, ?_, hstate h⟩
    rw [hroot]
    rfl

/-! ### The projection of an item -/

namespace Projection

theorem registrySnapshot_eq_ok {α : Type} {read : Json → Except String α} {item payload : Json} {v : α}
    (h : required item "snapshot" = .ok payload) (hread : read payload = .ok v) :
    registrySnapshot read item = .ok v :=
  bind_eq_ok.mpr ⟨payload, h, mapError_eq_ok.mpr hread⟩

theorem checked_eq_ok {constraint : Bool} {u : Unit} : checked constraint = .ok u ↔ constraint = true :=
  require_eq_ok

theorem namedIfSome_eq_ok {κ ρ : Type} [DecidableEq κ] {S : Schema κ ρ} {t : Table S} {name : Option κ}
    {u : Unit} : namedIfSome t name = .ok u ↔ name.all (fun k => (t.get? k).isSome) = true :=
  require_eq_ok

variable {P : ProjectionRuntime} {db : Projection} {item payload : Json} {d : Catalog} {host kind : String}
  {time : Nat} {action : RegistryAction}

theorem projectSite_of_apply {v : SiteSnapshot} (hsnapshot : required item "snapshot" = .ok payload)
    (hread : P.readSite payload = .ok v)
    (hvalid : validateChangeOn db.registryTables (.site action v) = .ok ())
    (h : apply db.registryTables (.site action v) host time = .ok (kind, d)) :
    db.projectSite P item = .ok (db.withRegistry d) := by
  obtain ⟨_, hlife, -⟩ := bind_eq_ok.mp hvalid
  obtain ⟨_, -, h⟩ := bind_eq_ok.mp h
  cases h
  refine bind_eq_ok.mpr ⟨v, registrySnapshot_eq_ok hsnapshot hread, ?_⟩
  exact bind_eq_ok.mpr ⟨(), checked_eq_ok.mpr (isStatus_of_lifecycle hlife), rfl⟩

theorem projectPolicy_of_apply {v : PolicySnapshot} (hsnapshot : required item "snapshot" = .ok payload)
    (hread : P.readPolicy payload = .ok v)
    (hvalid : validateChangeOn db.registryTables (.policy action v) = .ok ())
    (h : apply db.registryTables (.policy action v) host time = .ok (kind, d)) :
    db.projectPolicy P item = .ok (db.withRegistry d) := by
  obtain ⟨_, hlife, hvalid⟩ := bind_eq_ok.mp hvalid
  obtain ⟨_, -, hvalid⟩ := bind_eq_ok.mp hvalid
  obtain ⟨_, hpositive, -⟩ := bind_eq_ok.mp hvalid
  obtain ⟨_, -, h⟩ := bind_eq_ok.mp h
  obtain ⟨version, hversion, h⟩ := bind_eq_ok.mp h
  cases h
  obtain ⟨hrange, rfl⟩ := registryInteger_eq_ok.mp hversion
  have hpositive : 0 < v.policyVersion := by
    have := refuseIf_eq_ok.mp hpositive
    exact Nat.pos_of_ne_zero (by simpa using this)
  refine bind_eq_ok.mpr ⟨v, registrySnapshot_eq_ok hsnapshot hread, ?_⟩
  refine bind_eq_ok.mpr ⟨v.policyVersion, sqlI64_eq_ok.mpr ⟨hrange, rfl⟩, ?_⟩
  refine bind_eq_ok.mpr ⟨(), checked_eq_ok.mpr ?_, rfl⟩
  rw [Bool.and_eq_true]
  exact ⟨decide_eq_true hpositive, isStatus_of_lifecycle hlife⟩

theorem projectCollection_of_apply {v : CollectionSnapshot}
    (hsnapshot : required item "snapshot" = .ok payload) (hread : P.readCollection payload = .ok v)
    (hvalid : validateChangeOn db.registryTables (.collection action v) = .ok ())
    (h : apply db.registryTables (.collection action v) host time = .ok (kind, d)) :
    db.projectCollection P item = .ok (db.withRegistry d) := by
  obtain ⟨_, hlife, hvalid⟩ := bind_eq_ok.mp hvalid
  obtain ⟨_, hsite, hpolicy⟩ := bind_eq_ok.mp hvalid
  obtain ⟨_, -, h⟩ := bind_eq_ok.mp h
  cases h
  refine bind_eq_ok.mpr ⟨v, registrySnapshot_eq_ok hsnapshot hread, ?_⟩
  refine bind_eq_ok.mpr ⟨(), checked_eq_ok.mpr (isStatus_of_lifecycle hlife), ?_⟩
  refine bind_eq_ok.mpr ⟨(), namedIfSome_eq_ok.mpr (requireOptionalEntity_eq_ok.mp hsite), ?_⟩
  exact bind_eq_ok.mpr ⟨(), namedIfSome_eq_ok.mpr (requireOptionalEntity_eq_ok.mp hpolicy), rfl⟩

theorem projectRiskDomain_of_apply {v : RiskDomainSnapshot}
    (hsnapshot : required item "snapshot" = .ok payload) (hread : P.readRiskDomain payload = .ok v)
    (hvalid : validateChangeOn db.registryTables (.riskDomain action v) = .ok ())
    (h : apply db.registryTables (.riskDomain action v) host time = .ok (kind, d)) :
    db.projectRiskDomain P item = .ok (db.withRegistry d) := by
  obtain ⟨_, hlife, -⟩ := bind_eq_ok.mp hvalid
  obtain ⟨_, -, h⟩ := bind_eq_ok.mp h
  cases h
  refine bind_eq_ok.mpr ⟨v, registrySnapshot_eq_ok hsnapshot hread, ?_⟩
  exact bind_eq_ok.mpr ⟨(), checked_eq_ok.mpr (isStatus_of_lifecycle hlife), rfl⟩

theorem projectArchiveRoot_of_apply {v : ArchiveRootSnapshot}
    (hsnapshot : required item "snapshot" = .ok payload) (hread : P.readArchiveRoot payload = .ok v)
    (hvalid : validateChangeOn db.registryTables (.archiveRoot action v) = .ok ())
    (h : apply db.registryTables (.archiveRoot action v) host time = .ok (kind, d)) :
    db.projectArchiveRoot P item time = .ok (db.withRegistry d) := by
  obtain ⟨_, hlife, hvalid⟩ := bind_eq_ok.mp hvalid
  obtain ⟨_, hdevice, hvalid⟩ := bind_eq_ok.mp hvalid
  obtain ⟨_, hstate, -⟩ := bind_eq_ok.mp hvalid
  obtain ⟨_, -, h⟩ := bind_eq_ok.mp h
  obtain ⟨bytes, hbytes, h⟩ := bind_eq_ok.mp h
  obtain ⟨roots, hroots, h⟩ := bind_eq_ok.mp h
  cases h
  refine bind_eq_ok.mpr ⟨v, registrySnapshot_eq_ok hsnapshot hread, ?_⟩
  refine bind_eq_ok.mpr ⟨bytes, mapError_eq_ok.mpr (ok_of_mapError hbytes), ?_⟩
  refine bind_eq_ok.mpr ⟨(), checked_eq_ok.mpr ?_, ?_⟩
  · rw [Bool.and_eq_true]
    exact ⟨isStatus_of_lifecycle hlife, decide_eq_true (mem_of_refuseIf hstate)⟩
  · refine bind_eq_ok.mpr ⟨(), require_eq_ok.mpr (requireEntity_eq_ok.mp hdevice), ?_⟩
    exact bind_eq_ok.mpr ⟨roots, statement_eq_ok.mpr (constraint_eq_ok.mp hroots), rfl⟩

/-- The kind of the item of a device says what the action is. -/
theorem lifecycleEvent_device {kind : String} (h : lifecycleEvent "device" action = some kind) :
    (kind = "device_moved" ↔ action = .move) ∧ (kind = "device_registered" ↔ action = .register) := by
  cases action <;> cases h <;> decide

theorem departed_eq {kind : String} (v : DeviceSnapshot)
    (h : lifecycleEvent "device" action = some kind) :
    db.deviceSiteHistory.modify
        (fun r => kind = "device_moved" && r.deviceId = v.deviceId && r.departedTimeUtcMs.isNone)
        (fun r => { r with departedTimeUtcMs := some time }) (fun _ => rfl) (departed_clash time)
      = if action = .move then departDevice db.deviceSiteHistory v.deviceId time
        else db.deviceSiteHistory := by
  refine Table.ext ?_
  show db.deviceSiteHistory.rows.map (fun r => if (kind = "device_moved" && r.deviceId = v.deviceId &&
    r.departedTimeUtcMs.isNone) = true then { r with departedTimeUtcMs := some time } else r) = _
  by_cases hmove : action = .move
  · have hrows : (departDevice db.deviceSiteHistory v.deviceId time).rows =
        db.deviceSiteHistory.rows.map fun r =>
          if (r.deviceId = v.deviceId && r.departedTimeUtcMs.isNone) = true then
            { r with departedTimeUtcMs := some time } else r := rfl
    rw [if_pos hmove, hrows]
    simp only [(lifecycleEvent_device h).1.mpr hmove, decide_true, Bool.true_and]
  · have hkind : ¬ kind = "device_moved" := fun hk => hmove ((lifecycleEvent_device h).1.mp hk)
    simp [hmove, hkind]

theorem projectArrival_eq_ok {v : DeviceSnapshot} {kind : String} {sites : Table deviceSiteSchema}
    (hkind : lifecycleEvent "device" action = some kind)
    (h : siteIntervals db.deviceSiteHistory action v time = some sites) :
    db.projectArrival kind v time = .ok { db with deviceSiteHistory := sites } := by
  simp only [projectArrival, departed_eq v hkind]
  rw [siteIntervals] at h
  cases hsite : v.currentSiteId with
  | none =>
    simp only [hsite] at h
    rw [Option.some.inj h]
  | some site =>
    simp only [hsite] at h
    obtain ⟨hmoved, hregistered⟩ := lifecycleEvent_device hkind
    simp only [hmoved, hregistered]
    split at h
    · rename_i harrives
      rw [if_pos harrives]
      exact bind_eq_ok.mpr ⟨sites, statement_eq_ok.mpr h, rfl⟩
    · rename_i hstays
      rw [if_neg hstays, Option.some.inj h]

theorem projectDevice_of_apply {v : DeviceSnapshot} (hkind : lifecycleEvent "device" action = some kind)
    (hsnapshot : required item "snapshot" = .ok payload) (hread : P.readDevice payload = .ok v)
    (hvalid : validateChangeOn db.registryTables (.device action v) = .ok ()) {k : String}
    (h : apply db.registryTables (.device action v) host time = .ok (k, d)) :
    db.projectDevice P item kind time = .ok (db.withRegistry d) := by
  obtain ⟨_, hlife, hvalid⟩ := bind_eq_ok.mp hvalid
  obtain ⟨_, hsite, hvalid⟩ := bind_eq_ok.mp hvalid
  obtain ⟨_, hidentity, -⟩ := bind_eq_ok.mp hvalid
  obtain ⟨_, hstate, hidentity⟩ := bind_eq_ok.mp hidentity
  obtain ⟨_, havailable, -⟩ := bind_eq_ok.mp hidentity
  obtain ⟨_, -, h⟩ := bind_eq_ok.mp h
  obtain ⟨e, he, h⟩ := bind_eq_ok.mp h
  cases h
  obtain ⟨devices, sites, hdevices, hsites, rfl⟩ := applyDevice_eq_ok.mp he
  refine bind_eq_ok.mpr ⟨v, registrySnapshot_eq_ok hsnapshot hread, ?_⟩
  refine bind_eq_ok.mpr ⟨(), checked_eq_ok.mpr ?_, ?_⟩
  · rw [Bool.and_eq_true, Bool.and_eq_true]
    exact ⟨⟨isStatus_of_lifecycle hlife, decide_eq_true (mem_of_refuseIf hstate)⟩,
      decide_eq_true (mem_of_refuseIf havailable)⟩
  refine bind_eq_ok.mpr ⟨(), namedIfSome_eq_ok.mpr (requireOptionalEntity_eq_ok.mp hsite), ?_⟩
  refine bind_eq_ok.mpr ⟨devices, statement_eq_ok.mpr hdevices, ?_⟩
  have hintervals : siteIntervals ({ db with devices := devices } : Projection).deviceSiteHistory action v
      time = some sites := hsites
  exact projectArrival_eq_ok hkind hintervals

theorem projectLocation_of_apply {v : LocationSnapshot} (hplaced : RootsPlaced db.registryTables)
    (hsnapshot : required item "snapshot" = .ok payload) (hread : P.readLocation payload = .ok v)
    (hvalid : validateChangeOn db.registryTables (.location action v) = .ok ())
    (h : apply db.registryTables (.location action v) host time = .ok (kind, d)) :
    db.projectLocation P item = .ok (db.withRegistry d) := by
  obtain ⟨_, hlife, hvalid⟩ := bind_eq_ok.mp hvalid
  obtain ⟨_, -, h⟩ := bind_eq_ok.mp h
  obtain ⟨e, he, h⟩ := bind_eq_ok.mp h
  cases h
  obtain ⟨bytes, hbytes, hchecks, rfl⟩ := applyLocation_eq_ok.mp he
  obtain ⟨havailable, hkinds, hroot, hdevice, hsite⟩ := locationChecked_of_ok hplaced hvalid
  refine bind_eq_ok.mpr ⟨v, registrySnapshot_eq_ok hsnapshot hread, ?_⟩
  refine bind_eq_ok.mpr ⟨bytes, optionalPathBytes_of_catalog hbytes, ?_⟩
  refine bind_eq_ok.mpr ⟨(), checked_eq_ok.mpr ?_, ?_⟩
  · simp only [locationChecks, Bool.and_eq_true, List.contains_eq_mem] at hchecks
    simp only [locationFits, Bool.and_eq_true]
    exact ⟨⟨⟨⟨⟨decide_eq_true hkinds, isStatus_of_lifecycle hlife⟩, decide_eq_true havailable⟩,
      hchecks.1.1⟩, hchecks.1.2⟩, hchecks.2⟩
  refine bind_eq_ok.mpr ⟨(), namedIfSome_eq_ok.mpr hroot, ?_⟩
  refine bind_eq_ok.mpr ⟨(), namedIfSome_eq_ok.mpr hdevice, ?_⟩
  exact bind_eq_ok.mpr ⟨(), namedIfSome_eq_ok.mpr hsite, rfl⟩

theorem projectRisk_of_apply {v : RiskAssignment} (assign : Bool) {change : RegistryChange}
    (hchange : change = if assign then .assignRisk v else .unassignRisk v)
    (hsnapshot : required item "snapshot" = .ok payload) (hread : P.readRiskAssignment payload = .ok v)
    (hvalid : validateChangeOn db.registryTables change = .ok ())
    (h : apply db.registryTables change host time = .ok (kind, d)) :
    db.projectRisk P item (if assign then "risk_assigned" else "risk_unassigned")
      = .ok (db.withRegistry d) := by
  cases assign with
  | false =>
    subst hchange
    cases h
    refine bind_eq_ok.mpr ⟨v, registrySnapshot_eq_ok hsnapshot hread, rfl⟩
  | true =>
    subst hchange
    obtain ⟨_, hdomain, hvalid⟩ := bind_eq_ok.mp hvalid
    obtain ⟨table, htable, -⟩ := bind_eq_ok.mp hvalid
    obtain ⟨assigned, hassigned, h⟩ := bind_eq_ok.mp h
    cases h
    refine bind_eq_ok.mpr ⟨v, registrySnapshot_eq_ok hsnapshot hread, ?_⟩
    refine bind_eq_ok.mpr ⟨(), checked_eq_ok.mpr ?_, ?_⟩
    · unfold entityTable at htable
      refine decide_eq_true ?_
      by_contra hnone
      simp only [List.mem_cons, List.not_mem_nil, or_false, not_or] at hnone
      rw [if_neg hnone.1, if_neg hnone.2.1, if_neg hnone.2.2.1, if_neg hnone.2.2.2] at htable
      cases htable
    refine bind_eq_ok.mpr ⟨(), require_eq_ok.mpr (requireEntity_eq_ok.mp hdomain), ?_⟩
    exact bind_eq_ok.mpr ⟨assigned, statement_eq_ok.mpr (constraint_eq_ok.mp hassigned), rfl⟩

theorem projectCheckIn_of_apply {v : DeviceCheckIn}
    (hsnapshot : required item "snapshot" = .ok payload) (hread : P.readDeviceCheckIn payload = .ok v)
    (h : apply db.registryTables (.deviceCheckIn v) host time = .ok (kind, d)) :
    db.projectCheckIn P item time = .ok (db.withRegistry d) := by
  cases h
  refine bind_eq_ok.mpr ⟨v, registrySnapshot_eq_ok hsnapshot hread, ?_⟩
  rfl

theorem projectMount_of_apply {v : DeviceMount} (hhost : string item "host_id" = .ok host)
    (hsnapshot : required item "snapshot" = .ok payload) (hread : P.readDeviceMount payload = .ok v)
    (hvalid : validateChangeOn db.registryTables (.deviceMount v) = .ok ())
    (h : apply db.registryTables (.deviceMount v) host time = .ok (kind, d)) :
    db.projectMount P item time = .ok (db.withRegistry d) := by
  obtain ⟨hdevice, hroot, hstatus⟩ := mountChecked_of_ok hvalid
  obtain ⟨e, he, h⟩ := bind_eq_ok.mp h
  cases h
  obtain ⟨-, mounts, hmounts, rfl⟩ := applyDeviceMount_eq_ok.mp he
  refine bind_eq_ok.mpr ⟨v, registrySnapshot_eq_ok hsnapshot hread, ?_⟩
  refine bind_eq_ok.mpr ⟨host, hhost, ?_⟩
  refine bind_eq_ok.mpr ⟨(), checked_eq_ok.mpr (decide_eq_true hstatus), ?_⟩
  refine bind_eq_ok.mpr ⟨(), require_eq_ok.mpr hdevice, ?_⟩
  refine bind_eq_ok.mpr ⟨(), namedIfSome_eq_ok.mpr hroot, ?_⟩
  exact bind_eq_ok.mpr ⟨mounts, statement_eq_ok.mpr hmounts, rfl⟩

/-- What the catalog writes of a change, the projection of its item writes. -/
theorem projectRegistryItem_of_apply {R : V2RegistryRuntime} {change : RegistryChange}
    {record : VerifiedV2Record} (hitem : R.item change host = some item) (hreads : R.Reads change)
    (htime : record.record.envelope.timeUtcMs ≤ i64Max) (hplaced : RootsPlaced db.registryTables)
    (hvalid : validateChangeOn db.registryTables change = .ok ())
    (h : apply db.registryTables change host record.record.envelope.timeUtcMs = .ok (kind, d)) :
    db.projectRegistryItem R.toProjectionRuntime item record = .ok (db.withRegistry d) := by
  obtain ⟨event, hevent, hstring, hsnapshot, hhost⟩ := item_fields hitem
  refine bind_eq_ok.mpr ⟨event, hstring, bind_eq_ok.mpr ⟨_, sqlI64_eq_ok.mpr ⟨htime, rfl⟩, ?_⟩⟩
  cases change with
  | site action v =>
    have hproject := projectSite_of_apply hsnapshot hreads hvalid h
    cases action <;> cases hevent <;> exact (if_pos (by decide)).trans hproject
  | policy action v =>
    have hproject := projectPolicy_of_apply hsnapshot hreads hvalid h
    cases action <;> cases hevent <;> rw [if_neg (by decide), if_pos (by decide)] <;> exact hproject
  | collection action v =>
    have hproject := projectCollection_of_apply hsnapshot hreads hvalid h
    cases action <;> cases hevent <;> rw [if_neg (by decide), if_neg (by decide), if_pos (by decide)] <;>
      exact hproject
  | device action v =>
    have hproject := projectDevice_of_apply hevent hsnapshot hreads hvalid h
    cases action <;> cases hevent <;> rw [if_neg (by decide), if_neg (by decide), if_neg (by decide),
      if_pos (by decide)] <;> exact hproject
  | archiveRoot action v =>
    have hproject := projectArchiveRoot_of_apply hsnapshot hreads hvalid h
    cases action <;> cases hevent <;> rw [if_neg (by decide), if_neg (by decide), if_neg (by decide),
      if_neg (by decide), if_pos (by decide)] <;> exact hproject
  | location action v =>
    have hproject := projectLocation_of_apply hplaced hsnapshot hreads hvalid h
    cases action <;> cases hevent <;> rw [if_neg (by decide), if_neg (by decide), if_neg (by decide),
      if_neg (by decide), if_neg (by decide), if_pos (by decide)] <;> exact hproject
  | riskDomain action v =>
    have hproject := projectRiskDomain_of_apply hsnapshot hreads hvalid h
    cases action <;> cases hevent <;> rw [if_neg (by decide), if_neg (by decide), if_neg (by decide),
      if_neg (by decide), if_neg (by decide), if_neg (by decide), if_pos (by decide)] <;> exact hproject
  | assignRisk v =>
    cases hevent
    exact projectRisk_of_apply true rfl hsnapshot hreads hvalid h
  | unassignRisk v =>
    cases hevent
    exact projectRisk_of_apply false rfl hsnapshot hreads hvalid h
  | deviceCheckIn v =>
    cases hevent
    exact projectCheckIn_of_apply hsnapshot hreads h
  | deviceMount v =>
    cases hevent
    exact projectMount_of_apply (hhost rfl) hsnapshot hreads hvalid h

end Projection

end ArchiveLedger
